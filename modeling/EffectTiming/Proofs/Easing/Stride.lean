import Mathlib
import EffectTiming.Proofs.Easing.Newton

/-!
# Newton's steps as they are computed

`Stride` says what a computed step of the search is in exact numbers: the distance and the slope it
uses are not small, and it leads to where the computed tangent meets the target, up to roundings. A
curve can be looked at from its other end, and `Stride` is the same from there, so that facts about
one end carry over to the other.
-/

namespace EffectTiming.Bezier

variable {a b τ u v X D : ℚ}

/-! ### A curve and its reflection -/

/-- A sixth of the second derivative at the start. -/
def startBend (a b : ℚ) : ℚ := b - 2 * a

/-- A sixth of the second derivative at the end. -/
def endBend (a b : ℚ) : ℚ := 1 + a - 2 * b

theorem lead_eq (a b : ℚ) : lead a b = endBend a b - startBend a b := by
  rw [lead, endBend, startBend]
  ring

theorem cubic_reflect (a b u : ℚ) : cubic (1 - b) (1 - a) (1 - u) = 1 - cubic a b u := by
  rw [cubic, cubic]
  ring

theorem cubicSlope_reflect (a b u : ℚ) : cubicSlope (1 - b) (1 - a) (1 - u) = cubicSlope a b u := by
  rw [cubicSlope, cubicSlope]
  ring

theorem lead_reflect (a b : ℚ) : lead (1 - b) (1 - a) = lead a b := by
  rw [lead, lead]
  ring

theorem startBend_reflect (a b : ℚ) : startBend (1 - b) (1 - a) = -endBend a b := by
  rw [startBend, endBend]
  ring

theorem UnitBox.reflect (h : UnitBox a b τ) : UnitBox (1 - b) (1 - a) (1 - τ) := by
  obtain ⟨ha, ha', hb, hb', hτ, hτ'⟩ := h
  constructor <;> linarith

/-- The size of a parameter as seen from both ends. -/
def reach (u : ℚ) : ℚ := |u| + |1 - u|

theorem reach_reflect (u : ℚ) : reach (1 - u) = reach u := by
  rw [reach, reach, sub_sub_cancel, add_comm]

theorem reach_of_mem (h0 : 0 ≤ u) (h1 : u ≤ 1) : reach u = 1 := by
  rw [reach, abs_of_nonneg h0, abs_of_nonneg (by linarith)]
  ring

theorem reach_of_nonpos (h : u ≤ 0) : reach u = 1 - 2 * u := by
  rw [reach, abs_of_nonpos h, abs_of_nonneg (by linarith)]
  ring

theorem reach_of_one_le (h : 1 ≤ u) : reach u = 2 * u - 1 := by
  rw [reach, abs_of_nonneg (by linarith), abs_of_nonpos (by linarith)]
  ring

theorem abs_le_reach (u : ℚ) : |u| ≤ reach u := by
  rw [reach]
  linarith [abs_nonneg (1 - u)]

theorem one_le_reach (u : ℚ) : 1 ≤ reach u := by
  have := abs_add_le u (1 - u)
  rw [reach]
  simpa using this

/-! ### Computed steps -/

/-- A computed step from `u` leads to `v`: the distance and the slope are not small, and the step is
Newton's up to rounding. -/
structure Stride (a b τ u v X D : ℚ) : Prop extends Computed a b τ u (reach u) X D where
  far : margin ≤ |X|
  steep : margin ≤ |D|
  lands : |(v - u) * D + X| ≤ fault * reach u ^ 3

theorem Computed.reflect (h : Computed a b τ u (reach u) X D) :
    Computed (1 - b) (1 - a) (1 - τ) (1 - u) (reach (1 - u)) (-X) D := by
  constructor
  · rw [cubic_reflect, reach_reflect, ← abs_neg]
    convert h.distance using 2
    ring
  · rw [cubicSlope_reflect, reach_reflect]
    exact h.slope

theorem Stride.reflect (h : Stride a b τ u v X D) :
    Stride (1 - b) (1 - a) (1 - τ) (1 - u) (1 - v) (-X) D := by
  refine ⟨h.toComputed.reflect, by rw [abs_neg]; exact h.far, h.steep, ?_⟩
  rw [reach_reflect, ← abs_neg]
  convert h.lands using 2
  ring

/-- Where a step leads, seen from zero. -/
theorem Stride.abs_mul_sub_le (h : Stride a b τ u v X D) :
    |v * D - (τ + u ^ 2 * (3 * startBend a b + 2 * lead a b * u))| ≤ 3 * (fault * reach u ^ 3) := by
  have hslope : |u * (D - cubicSlope a b u)| ≤ reach u * (fault * reach u ^ 2) :=
    abs_mul_le_mul (abs_le_reach u) h.slope
  have hexact := mul_cubicSlope_sub a b τ u
  have hsplit : v * D - (τ + u ^ 2 * (3 * startBend a b + 2 * lead a b * u)) =
      ((v - u) * D + X) + u * (D - cubicSlope a b u) - (X - (cubic a b u - τ)) := by
    rw [startBend]
    rw [lead] at hexact ⊢
    linarith
  have h1 := abs_le.mp h.lands
  have h2 := abs_le.mp hslope
  have h3 := abs_le.mp h.distance
  rw [hsplit]
  exact abs_le.mpr ⟨by linarith, by linarith⟩

/-- The target is in the unit interval, and the curve does not meet it right away. -/
structure Unmet (a b τ : ℚ) : Prop extends UnitBox a b τ where
  far : margin - fault ≤ |cubic a b τ - τ|

theorem Unmet.reflect (h : Unmet a b τ) : Unmet (1 - b) (1 - a) (1 - τ) := by
  refine ⟨h.toUnitBox.reflect, ?_⟩
  rw [cubic_reflect, ← abs_neg]
  convert h.far using 2
  ring

theorem cubic_sub_eq (a b u : ℚ) : cubic a b u - u = u * (1 - u) * (3 * a - 1 - lead a b * u) := by
  rw [cubic, lead]
  ring

theorem Unmet.le_product (h : Unmet a b τ) : margin - fault ≤ 2 * (τ * (1 - τ)) := by
  obtain ⟨⟨ha, ha', hb, hb', hτ, hτ'⟩, hfar⟩ := h
  have hpos : 0 ≤ τ * (1 - τ) := mul_nonneg hτ (by linarith)
  have hfactor : |3 * a - 1 - lead a b * τ| ≤ 2 := by
    rw [show 3 * a - 1 - lead a b * τ = (1 - τ) * (3 * a - 1) + τ * (3 * b - 2) by rw [lead]; ring]
    exact abs_le.mpr ⟨by nlinarith, by nlinarith⟩
  rw [cubic_sub_eq, abs_mul, abs_of_nonneg hpos] at hfar
  nlinarith

theorem Unmet.target_pos (h : Unmet a b τ) : 1 / 25000000 ≤ τ := by
  have hproduct := h.le_product
  have hτ := h.target_nonneg
  rw [margin, fault] at hproduct
  nlinarith

/-! ### Slopes and tangents -/

/-- On the unit interval the curve does not fall. -/
theorem UnitBox.cubicSlope_nonneg (h : UnitBox a b τ) (h0 : 0 ≤ u) (h1 : u ≤ 1) :
    0 ≤ cubicSlope a b u := by
  obtain ⟨ha, ha', hb, hb', -, -⟩ := h
  have hu : 0 ≤ (1 - u) * u := mul_nonneg (by linarith) h0
  have hsq := sq_nonneg (1 - u)
  have hsq' := sq_nonneg u
  rcases le_total a b with hab | hba
  · have h1 := mul_nonneg hsq ha
    have h2 := mul_nonneg hu (sub_nonneg.mpr hab)
    have h3 := mul_nonneg hsq' (sub_nonneg.mpr hb')
    rw [cubicSlope]
    linarith
  · have h1 := mul_nonneg hsq hb
    have h2 := mul_nonneg (sq_nonneg (1 - 2 * u)) (sub_nonneg.mpr hba)
    have h3 := mul_nonneg hsq' (sub_nonneg.mpr ha')
    rw [cubicSlope]
    linarith

theorem UnitBox.abs_cubicSlope_le (h : UnitBox a b τ) : |cubicSlope a b u| ≤ 3 * reach u ^ 2 := by
  obtain ⟨ha, ha', hb, hb', -, -⟩ := h
  have h1 : |(1 - u) * (1 - u) * a| ≤ |1 - u| * |1 - u| * 1 :=
    abs_mul_le_mul (abs_mul _ _).le (abs_le.mpr ⟨by linarith, ha'⟩)
  have h2 : |(1 - u) * u * (b - a)| ≤ |1 - u| * |u| * 1 :=
    abs_mul_le_mul (abs_mul _ _).le (abs_le.mpr ⟨by linarith, by linarith⟩)
  have h3 : |u * u * (1 - b)| ≤ |u| * |u| * 1 :=
    abs_mul_le_mul (abs_mul _ _).le (abs_le.mpr ⟨by linarith, by linarith⟩)
  have h1 := abs_le.mp h1
  have h2 := abs_le.mp h2
  have h3 := abs_le.mp h3
  rw [reach, cubicSlope]
  exact abs_le.mpr ⟨by linarith, by linarith⟩

theorem UnitBox.abs_cubic_le (h : UnitBox a b τ) : |cubic a b u| ≤ reach u ^ 3 := by
  obtain ⟨ha, ha', hb, hb', -, -⟩ := h
  have h1 : |(1 - u) * (1 - u) * u * a| ≤ |1 - u| * |1 - u| * |u| * 1 :=
    abs_mul_le_mul (by rw [abs_mul, abs_mul]) (abs_le.mpr ⟨by linarith, ha'⟩)
  have h2 : |(1 - u) * u * u * b| ≤ |1 - u| * |u| * |u| * 1 :=
    abs_mul_le_mul (by rw [abs_mul, abs_mul]) (abs_le.mpr ⟨by linarith, hb'⟩)
  have h3 : |u * u * u| ≤ |u| * |u| * |u| := by rw [abs_mul, abs_mul]
  have h1 := abs_le.mp h1
  have h2 := abs_le.mp h2
  have h3 := abs_le.mp h3
  have h4 : 0 ≤ |1 - u| * |1 - u| * |1 - u| := by positivity
  rw [reach, cubic]
  exact abs_le.mpr ⟨by linarith, by linarith⟩

theorem Computed.abs_distance_le (h : Computed a b τ u (reach u) X D) (hbox : UnitBox a b τ) :
    |X| ≤ 3 * reach u ^ 3 := by
  have h1 := abs_le.mp h.distance
  have h2 := abs_le.mp (hbox.abs_cubic_le (u := u))
  have hone : 1 ≤ reach u ^ 3 := one_le_pow₀ (one_le_reach u)
  have hτ := hbox.target_nonneg
  have hτ' := hbox.target_le
  rw [fault] at h1
  exact abs_le.mpr ⟨by linarith, by linarith⟩

theorem Computed.abs_slope_le (h : Computed a b τ u (reach u) X D) (hbox : UnitBox a b τ) :
    |D| ≤ 4 * reach u ^ 2 := by
  have h1 := abs_le.mp h.slope
  have h2 := abs_le.mp (hbox.abs_cubicSlope_le (u := u))
  have hsquare := sq_nonneg (reach u)
  rw [fault] at h1
  exact abs_le.mpr ⟨by linarith, by linarith⟩

theorem UnitBox.cubicSlope_le (h : UnitBox a b τ) (h0 : 0 ≤ u) (h1 : u ≤ 1) :
    cubicSlope a b u ≤ 3 := by
  have hslope := (abs_le.mp (h.abs_cubicSlope_le (u := u))).2
  rw [reach_of_mem h0 h1] at hslope
  linarith

/-- The curve does not climb faster than three to one. -/
theorem UnitBox.cubic_sub_le (h : UnitBox a b τ) (hu : 0 ≤ u) (huv : u ≤ v) (hv : v ≤ 1) :
    cubic a b v - cubic a b u ≤ 3 * (v - u) := by
  -- a sixth of each end and two thirds of the middle: exact for the mean of a slope of degree two
  have hmean : cubic a b v - cubic a b u =
      (v - u) * ((cubicSlope a b u + 4 * cubicSlope a b ((u + v) / 2) + cubicSlope a b v) / 6) := by
    rw [cubic, cubic, cubicSlope, cubicSlope, cubicSlope]
    ring
  have h1 := h.cubicSlope_le hu (by linarith)
  have h2 := h.cubicSlope_le (u := (u + v) / 2) (by linarith) (by linarith)
  have h3 := h.cubicSlope_le (by linarith) hv
  rw [hmean]
  have := mul_le_mul_of_nonneg_left (by linarith :
    (cubicSlope a b u + 4 * cubicSlope a b ((u + v) / 2) + cubicSlope a b v) / 6 ≤ 3)
    (sub_nonneg.mpr huv)
  linarith

/-- The curve from the view of a parameter. -/
theorem cubic_eq_taylor (a b u v : ℚ) :
    cubic a b v = cubic a b u + cubicSlope a b u * (v - u) +
      (v - u) ^ 2 * (3 * startBend a b + 3 * lead a b * u + lead a b * (v - u)) := by
  rw [cubic, cubic, cubicSlope, startBend, lead]
  ring

/-- Inside the unit interval, a step leads to where the tangent meets the target. -/
theorem Stride.tangent_le (h : Stride a b τ u v X D) (h0 : 0 ≤ u) (h1 : u ≤ 1) (hv : |v - u| ≤ 1) :
    |cubic a b u - τ + cubicSlope a b u * (v - u)| ≤ 3 * fault := by
  have hX := abs_le.mp h.distance
  have hlands := abs_le.mp h.lands
  have hD := abs_le.mp (abs_mul_le_mul h.slope hv)
  rw [reach_of_mem h0 h1] at hX hlands hD
  exact abs_le.mpr ⟨by linarith, by linarith⟩

/-- Near zero, the distance at the target is that of a line. -/
theorem Unmet.le_target_mul (h : Unmet a b τ) :
    margin - fault ≤ τ * |3 * a - 1 - lead a b * τ| := by
  have hτ := h.target_nonneg
  have hτ' := h.target_le
  refine h.far.trans ?_
  rw [cubic_sub_eq, abs_mul, abs_of_nonneg (mul_nonneg hτ (by linarith))]
  refine mul_le_mul_of_nonneg_right ?_ (abs_nonneg _)
  nlinarith

end EffectTiming.Bezier
