import Mathlib
import EffectTiming.Proofs.Easing.Stride

/-!
# Where the search for a parameter goes

The search starts at the target and takes Newton's steps. What it visits depends on the cube in the
curve:

* if the cube does not fall, a step may leave the unit interval, but only as far as the bend of the
  curve at that end pays for (`Kept`), and out there the curve is on the far side of every target;
* if the cube falls, steps stay in the unit interval (`Climb`).

So where the search meets the target outside of the unit interval, the target is next to that end
(`Visited.target_lt`).
-/

namespace EffectTiming.Bezier

variable {a b τ u v X D : ℚ}

/-! ### Curves with a cube that does not fall -/

/-- The target is hardly further from zero than the tolerance. -/
def NearZero (τ : ℚ) : Prop := 1 / 10000000 ≤ τ ∧ τ ≤ 1 / 10000000 + 1 / 100000000000

theorem NearZero.sq_le (h : NearZero τ) : τ ^ 2 ≤ 1 / 1000000 * τ := by
  obtain ⟨hlow, hhigh⟩ := h
  rw [pow_two]
  exact mul_le_mul_of_nonneg_right (by linarith) (by linarith)

/-- What is known of a parameter on the side of zero: a step beyond zero is paid for by a bend, and
there is none if the target is near zero. -/
structure Kept (a b τ u : ℚ) : Prop where
  outside : u < 0 → startBend a b < 0 ∧ -u * margin ≤ 7 * -startBend a b
  near : NearZero τ → 0 ≤ u ∧ (1 ≤ 3 * a → u = τ ∨ u ≤ 1 ∧ |cubic a b u - τ| ≤ 1 / 1000000000)

theorem kept_target (h : UnitBox a b τ) : Kept a b τ τ :=
  ⟨fun hneg => absurd h.target_nonneg (not_le.mpr hneg),
    fun _ => ⟨h.target_nonneg, fun _ => Or.inl rfl⟩⟩

section NonnegLead

variable (hbox : UnitBox a b τ) (hlead : 0 ≤ lead a b)

include hbox hlead

/-- Beyond zero the curve is below zero, by more than the errors as soon as these count. -/
theorem Kept.cubic_le (h : Kept a b τ u) (hu : u < 0) :
    cubic a b u + 2 * (fault * reach u ^ 3) ≤ 54 * fault := by
  obtain ⟨hbend, hpaid⟩ := h.outside hu
  have ha := hbox.first_nonneg
  have hcubic : cubic a b u = u * (3 * a) + 3 * startBend a b * u ^ 2 + lead a b * u ^ 3 := by
    rw [cubic, startBend, lead]
    ring
  have hline : u * (3 * a) ≤ 0 := mul_nonpos_of_nonpos_of_nonneg hu.le (by linarith)
  have hcube : lead a b * u ^ 3 ≤ 0 :=
    mul_nonpos_of_nonneg_of_nonpos hlead (by nlinarith [sq_nonneg u])
  have hsquare : startBend a b * u ^ 2 ≤ 0 := mul_nonpos_of_nonpos_of_nonneg hbend.le (sq_nonneg u)
  rw [reach_of_nonpos hu.le]
  rcases le_total (-1) u with hnear | hfar
  · have hreach : (1 - 2 * u) ^ 3 ≤ 3 ^ 3 := by gcongr <;> linarith
    have hfault : fault * (1 - 2 * u) ^ 3 ≤ fault * 3 ^ 3 := by
      refine mul_le_mul_of_nonneg_left hreach ?_
      norm_num [fault]
    linarith
  · have hreach : (1 - 2 * u) ^ 3 ≤ (3 * -u) ^ 3 := by gcongr <;> linarith
    have hpaid' := mul_le_mul_of_nonneg_right hpaid (sq_nonneg u)
    have hpos : 0 ≤ -u * u ^ 2 := mul_nonneg (by linarith) (sq_nonneg u)
    rw [margin] at hpaid'
    rw [fault]
    linarith

theorem Kept.slope_pos (h : Kept a b τ u) (hu : u ≤ 1)
    (hs : Stride a b τ u v X D) : margin ≤ D := by
  have hsteep := hs.steep
  have hslope := abs_le.mp hs.slope
  suffices hpos : -margin < D by
    rcases abs_cases D with ⟨hD, -⟩ | ⟨hD, -⟩ <;> linarith
  rcases le_or_gt 0 u with h0 | h0
  · have hnonneg := hbox.cubicSlope_nonneg h0 hu
    rw [reach_of_mem h0 hu] at hslope
    rw [fault] at hslope
    rw [margin]
    linarith
  · obtain ⟨hbend, hpaid⟩ := h.outside h0
    have ha := hbox.first_nonneg
    have hexact : cubicSlope a b u = 3 * a + 6 * (startBend a b * u) + 3 * (lead a b * u ^ 2) := by
      rw [cubicSlope, startBend, lead]
      ring
    have hcube : 0 ≤ lead a b * u ^ 2 := mul_nonneg hlead (sq_nonneg u)
    have hpaid' := mul_le_mul_of_nonneg_right hpaid (neg_nonneg.mpr h0.le)
    rw [reach_of_nonpos h0.le] at hslope
    rw [margin] at hpaid' ⊢
    rw [fault] at hslope
    linarith [sq_nonneg u, sq_nonneg (u + 1)]

theorem Kept.slope_pos_of_both (hl : Kept a b τ u) (hr : Kept (1 - b) (1 - a) (1 - τ) (1 - u))
    (hs : Stride a b τ u v X D) : margin ≤ D := by
  rcases le_total u 1 with hu | hu
  · exact hl.slope_pos hbox hlead hu hs
  · exact hr.slope_pos hbox.reflect (by rwa [lead_reflect]) (by linarith) hs.reflect

/-- Beyond zero a step leads back. -/
theorem Kept.lt_of_neg (hτ : 1 / 25000000 ≤ τ) (h : Kept a b τ u) (hu : u < 0)
    (hs : Stride a b τ u v X D) :
    u < v := by
  have hslope := h.slope_pos hbox hlead (by linarith) hs
  have hbelow := h.cubic_le hbox hlead hu
  have hdistance := abs_le.mp hs.distance
  have hlands := abs_le.mp hs.lands
  have hforward : 0 < (v - u) * D := by
    rw [fault] at *
    linarith
  rw [margin] at hslope
  exact sub_pos.mp ((mul_pos_iff_of_pos_right (by linarith)).mp hforward)

/-- A step beyond zero starts near by. -/
theorem Kept.lands_of_exit (hτ : 1 / 25000000 ≤ τ) (hl : Kept a b τ u)
    (hr : Kept (1 - b) (1 - a) (1 - τ) (1 - u)) (hs : Stride a b τ u v X D)
    (hu : 0 ≤ u) (hv : v < 0) :
    u ≤ 3 / 2 ∧ τ + u ^ 2 * (3 * startBend a b + 2 * lead a b * u) - 24 * fault ≤
    v * D ∧ v * D < 0 := by
  have hslope := hl.slope_pos_of_both hbox hlead hr hs
  have hlands := abs_le.mp hs.abs_mul_sub_le
  have hback : v * D < 0 := mul_neg_of_neg_of_pos hv (margin_pos.trans_le hslope)
  have hu' : u ≤ 3 / 2 := by
    -- further out, the bend at the end that had to pay for `u` outweighs the errors
    by_contra hfar
    obtain ⟨hbend, hpaid⟩ := hr.outside (by linarith)
    rw [startBend_reflect, neg_neg] at hpaid
    have hreach : reach u ^ 3 ≤ (2 * u) ^ 3 := by
      rw [reach_of_one_le (by linarith)]
      gcongr <;> linarith
    have hfactor : 3 * endBend a b ≤ 3 * startBend a b + 2 * lead a b * u := by
      have : 0 ≤ lead a b * (2 * u - 3) := mul_nonneg hlead (by linarith)
      rw [lead_eq] at this ⊢
      linarith
    have hbends := mul_le_mul_of_nonneg_left hfactor (sq_nonneg u)
    have hpaid' := mul_le_mul_of_nonneg_right hpaid (sq_nonneg u)
    have hcube : 0 ≤ (u - 3 / 2) * u ^ 2 := mul_nonneg (by linarith) (sq_nonneg u)
    rw [margin] at hpaid'
    rw [fault] at hlands
    linarith
  have hreach : fault * reach u ^ 3 ≤ fault * 2 ^ 3 := by
    have hle : reach u ≤ 2 := by
      rcases le_total u 1 with h1 | h1
      · rw [reach_of_mem hu h1]
        norm_num
      · rw [reach_of_one_le h1]
        linarith
    have hpos := one_le_reach u
    have hfault : 0 ≤ fault := by norm_num [fault]
    gcongr
  exact ⟨hu', by linarith, hback⟩

end NonnegLead

/-- A step beyond zero is paid for by the bend at the start. -/
theorem Kept.outside_step (hτ : Unmet a b τ) (hlead : 0 ≤ lead a b) (hl : Kept a b τ u)
    (hr : Kept (1 - b) (1 - a) (1 - τ) (1 - u)) (hs : Stride a b τ u v X D) (hv : v < 0) :
    startBend a b < 0 ∧ -v * margin ≤ 7 * -startBend a b := by
  have hpos := hτ.target_pos
  rcases lt_or_ge u 0 with hu | hu
  · obtain ⟨hbend, hpaid⟩ := hl.outside hu
    have hback := hl.lt_of_neg hτ.toUnitBox hlead hpos hu hs
    refine ⟨hbend, le_trans ?_ hpaid⟩
    rw [margin]
    linarith
  · obtain ⟨hu', hlands, hneg⟩ := hl.lands_of_exit hτ.toUnitBox hlead hpos hr hs hu hv
    have hslope := hl.slope_pos_of_both hτ.toUnitBox hlead hr hs
    have hpaid : -v * margin ≤ -(v * D) := by nlinarith
    have hcube : 0 ≤ u ^ 2 * (lead a b * u) := by positivity
    rw [fault] at hlands
    have hbend : startBend a b < 0 := by
      by_contra hnot
      have : 0 ≤ u ^ 2 * startBend a b := mul_nonneg (sq_nonneg u) (not_lt.mp hnot)
      linarith
    have hsquare : u ^ 2 * -startBend a b ≤ 9 / 4 * -startBend a b := by
      refine mul_le_mul_of_nonneg_right ?_ (by linarith)
      nlinarith
    exact ⟨hbend, by linarith⟩

theorem UnitBox.lead_mul_le (h : UnitBox a b τ) (hu : 0 ≤ u) : lead a b * u ≤ 4 * u := by
  refine mul_le_mul_of_nonneg_right ?_ hu
  rw [lead]
  linarith [h.first_le, h.second_nonneg]

/-- Near zero, a curve that misses the target starts far from the diagonal. -/
theorem Unmet.flat_or_steep (hτ : Unmet a b τ) (hlead : 0 ≤ lead a b) (hnear : NearZero τ) :
    3 * a ≤ 1 / 1000 ∨ 19 / 10 ≤ 3 * a := by
  have hhigh := hnear.2
  have hprod := hτ.lead_mul_le hτ.target_nonneg
  have hprod0 : 0 ≤ lead a b * τ := mul_nonneg hlead hτ.target_nonneg
  have hfar := hτ.le_target_mul
  by_contra hbetween
  obtain ⟨hlarge, hsmall⟩ := not_or.mp hbetween
  have habs : |3 * a - 1 - lead a b * τ| ≤ 9991 / 10000 := abs_le.mpr ⟨by linarith, by linarith⟩
  have := mul_le_mul_of_nonneg_left habs hτ.target_nonneg
  rw [margin, fault] at hfar
  linarith

/-- Near zero, a curve that starts flat has no bend to pay for a step beyond zero. -/
theorem Kept.nonneg_of_flat (hτ : Unmet a b τ) (hlead : 0 ≤ lead a b)
    (hnear : NearZero τ) (hflat : 3 * a < 1) (hl : Kept a b τ u)
    (hr : Kept (1 - b) (1 - a) (1 - τ) (1 - u)) (hs : Stride a b τ u v X D) : 0 ≤ v := by
  obtain ⟨hu, -⟩ := hl.near hnear
  have ha : 3 * a ≤ 1 / 1000 := (hτ.flat_or_steep hlead hnear).resolve_right (by linarith)
  obtain ⟨hlow, hhigh⟩ := hnear
  by_contra hv
  have hv := not_le.mp hv
  obtain ⟨hbend, -⟩ := hl.outside_step hτ hlead hr hs hv
  obtain ⟨-, hlands, hneg⟩ := hl.lands_of_exit hτ.toUnitBox hlead hτ.target_pos hr hs hu hv
  have hlead' : 9 / 10 ≤ lead a b := by
    rw [lead]
    rw [startBend] at hbend
    linarith
  have hbend' : -(3 * startBend a b) ≤ 1 / 500 := by
    rw [startBend]
    linarith [hτ.second_nonneg]
  have hsmall : u ≤ 1 / 500 := by
    by_contra hlarge
    have hcube := mul_le_mul hlead' (not_le.mp hlarge).le (by norm_num) hlead
    have hpos : 0 ≤ 3 * startBend a b + 2 * lead a b * u := by linarith
    have := mul_nonneg (sq_nonneg u) hpos
    rw [fault] at hlands
    linarith
  have hsquare : u ^ 2 ≤ (1 / 500) ^ 2 := by gcongr
  have hcube : 0 ≤ u ^ 2 * (lead a b * u) := by positivity
  have hpaid := mul_le_mul hsquare hbend' (by linarith) (by norm_num)
  rw [fault] at hlands
  linarith

/-- A curve that starts steep is still steep at a target near zero. -/
theorem Unmet.le_cubicSlope (hτ : Unmet a b τ) (hlead : 0 ≤ lead a b) (hnear : NearZero τ)
    (ha : 19 / 10 ≤ 3 * a) :
    9 / 5 ≤ cubicSlope a b τ := by
  have hhigh := hnear.2
  have hexact : cubicSlope a b τ = 3 * a + 6 * (startBend a b * τ) + 3 * (lead a b * τ * τ) := by
    rw [cubicSlope, startBend, lead]
    ring
  have hcube : 0 ≤ lead a b * τ * τ :=
    mul_nonneg (mul_nonneg hlead hτ.target_nonneg) hτ.target_nonneg
  have hbend : -2 * τ ≤ startBend a b * τ := by
    refine mul_le_mul_of_nonneg_right ?_ hτ.target_nonneg
    rw [startBend]
    linarith [hτ.first_le, hτ.second_nonneg]
  linarith

/-- Near zero, a step on a curve that starts steep leads back, and not beyond zero. -/
theorem Stride.mem_of_steep (hτ : Unmet a b τ) (hlead : 0 ≤ lead a b) (hnear : NearZero τ)
    (ha : 19 / 10 ≤ 3 * a) (hs : Stride a b τ τ v X D) : 0 ≤ v ∧ v ≤ τ := by
  have hslope := hτ.le_cubicSlope hlead hnear ha
  have hsquare := hnear.sq_le
  obtain ⟨hlow, hhigh⟩ := hnear
  have hprod := hτ.lead_mul_le hτ.target_nonneg
  have hprod0 : 0 ≤ lead a b * τ := mul_nonneg hlead hτ.target_nonneg
  have hfar := hτ.far
  rw [cubic_sub_eq,
    abs_of_nonneg (mul_nonneg (mul_nonneg (by linarith) (by linarith)) (by linarith)),
    ← cubic_sub_eq] at hfar
  have hX := abs_le.mp hs.distance
  have hD := abs_le.mp hs.slope
  have hlands := abs_le.mp hs.lands
  have hzero := abs_le.mp hs.abs_mul_sub_le
  rw [reach_of_mem (by linarith) (by linarith)] at hX hD hlands hzero
  rw [margin] at hfar
  have hpos : 0 < D := by
    rw [fault] at hD
    linarith
  constructor
  · have hbend : -6 ≤ 3 * startBend a b + 2 * lead a b * τ := by
      rw [startBend]
      linarith [hτ.first_le, hτ.second_nonneg]
    have hmove : 0 ≤ v * D := by
      have := mul_le_mul_of_nonneg_left hbend (sq_nonneg τ)
      rw [fault] at hzero
      linarith
    exact nonneg_of_mul_nonneg_left hmove hpos
  · have hmove : (v - τ) * D ≤ 0 := by
      rw [fault] at *
      linarith
    linarith [nonpos_of_mul_nonpos_left hmove hpos]

/-- Near zero, a curve that starts steep meets the target after one step. -/
theorem Kept.met_of_steep (hτ : Unmet a b τ) (hlead : 0 ≤ lead a b) (hnear : NearZero τ)
    (hsteep : 1 ≤ 3 * a) (hs : Stride a b τ τ v X D) : 0 ≤ v ∧ v ≤ 1 ∧
    |cubic a b v - τ| ≤ 1 / 1000000000 := by
  have ha : 19 / 10 ≤ 3 * a := (hτ.flat_or_steep hlead hnear).resolve_left (by linarith)
  obtain ⟨hv0, hv1⟩ := hs.mem_of_steep hτ hlead hnear ha
  have hsquare := hnear.sq_le
  obtain ⟨hlow, hhigh⟩ := hnear
  refine ⟨hv0, by linarith, ?_⟩
  have htangent :=
    abs_le.mp (hs.tangent_le (by linarith) (by linarith) (abs_le.mpr ⟨by linarith, by linarith⟩))
  -- what the tangent leaves out is of the order of the square of the target
  have hrest : |(v - τ) ^ 2 *
      (3 * startBend a b + 3 * lead a b * τ + lead a b * (v - τ))| ≤ τ ^ 2 * 20 := by
    have hprod := hτ.lead_mul_le hτ.target_nonneg
    have hprod0 : 0 ≤ lead a b * τ := mul_nonneg hlead hτ.target_nonneg
    have hcube := hτ.lead_mul_le hv0
    have hcube0 : 0 ≤ lead a b * v := mul_nonneg hlead hv0
    refine abs_mul_le_mul ?_ (abs_le.mpr ⟨?_, ?_⟩)
    · rw [abs_of_nonneg (sq_nonneg _)]
      exact sq_le_sq' (by linarith) (by linarith)
    · rw [startBend]
      linarith [hτ.first_le, hτ.second_nonneg]
    · rw [startBend]
      linarith [hτ.second_le]
  have hrest := abs_le.mp hrest
  rw [cubic_eq_taylor a b τ v]
  rw [fault] at htangent
  exact abs_le.mpr ⟨by linarith, by linarith⟩

/-- Where the target is met beyond zero, it is next to zero. -/
theorem Kept.target_lt (hbox : UnitBox a b τ) (hlead : 0 ≤ lead a b) (h : Kept a b τ u) (hu : u < 0)
    (hX : |X - (cubic a b u - τ)| ≤ fault * reach u ^ 3)
    (hmet : |X| < 1 / 10000000) : τ < 1 / 10000000 := by
  have hbelow := h.cubic_le hbox hlead hu
  have hX := abs_le.mp hX
  have hmet := abs_lt.mp hmet
  by_contra hnot
  have hnear : NearZero τ := by
    refine ⟨not_lt.mp hnot, ?_⟩
    rw [fault] at hbelow hX
    linarith
  exact absurd (h.near hnear).1 (not_le.mpr hu)

theorem Kept.neg_le (hbox : UnitBox a b τ) (h : Kept a b τ u) : -1000000000 ≤ u := by
  by_contra hfar
  obtain ⟨hbend, hpaid⟩ := h.outside (by linarith)
  rw [margin] at hpaid
  rw [startBend] at hpaid
  linarith [hbox.first_le, hbox.second_nonneg]

/-- What is known on both sides is passed on, here to the side of zero. -/
theorem Kept.step (hτ : Unmet a b τ) (hlead : 0 ≤ lead a b) (hl : Kept a b τ u)
    (hr : Kept (1 - b) (1 - a) (1 - τ) (1 - u)) (hs : Stride a b τ u v X D) : Kept a b τ v := by
  refine ⟨hl.outside_step hτ hlead hr hs, fun hnear => ?_⟩
  rcases lt_or_ge (3 * a) 1 with hflat | hsteep
  · exact ⟨hl.nonneg_of_flat hτ hlead hnear hflat hr hs, fun hnot => absurd hflat (not_lt.mpr hnot)⟩
  · obtain ⟨hu, hmet⟩ := hl.near hnear
    rcases hmet hsteep with rfl | ⟨hu', hmet⟩
    · obtain ⟨hv, hv'⟩ := met_of_steep hτ hlead hnear hsteep hs
      exact ⟨hv, fun _ => Or.inr hv'⟩
    · -- no step is taken from where the target is met
      have hdistance := abs_le.mp hs.distance
      have hmet := abs_le.mp hmet
      have hfar := hs.far
      rw [reach_of_mem hu hu'] at hdistance
      rw [margin] at hfar
      rw [fault] at hdistance
      rcases abs_cases X with ⟨habs, -⟩ | ⟨habs, -⟩ <;> linarith

/-! ### Curves with a cube that falls -/

/-- On a curve below the diagonal at the target, a parameter stays between the target and one, and
beyond where the curve meets the target it is no further than the tangent at the target leads. -/
structure Climb (a b τ u : ℚ) : Prop where
  low : τ ≤ u
  high : u ≤ 1
  reached : cubic a b u - τ ≤ 4 * fault ∨ cubicSlope a b τ * (u - τ) ≤ τ - cubic a b τ + 4 * fault

/-- The numbers behind `bend_le_depth`: a depth `φ`, a slope `S` and a cube `d` that falls. -/
theorem sq_mul_le_half {d T y φ w S : ℚ} (hd : 0 < d) (hy : 0 ≤ y) (hT : 0 ≤ T)
    (hw : 0 ≤ w) (hφ : 0 < φ) (hroom : 8 * d * φ ≤ T * S) (hslope : 2 * y * T ≤ d * S)
    (hreached : S * w ≤ 1001 / 1000 * φ) :
    w ^ 2 * (2 * d * w + y - T) ≤ φ / 2 := by
  have hS : 0 < S := by
    by_contra hnot
    have := mul_nonpos_of_nonneg_of_nonpos hT (not_lt.mp hnot)
    have := mul_pos hd hφ
    linarith
  have hdw : 8 * (d * w) ≤ 1001 / 1000 * T := by
    refine le_of_mul_le_mul_right ?_ hS
    have := mul_le_mul_of_nonneg_left hreached (by linarith : 0 ≤ 8 * d)
    linarith
  have hdrop : w ^ 2 * (2 * d * w + y - T) ≤ w ^ 2 * y :=
    mul_le_mul_of_nonneg_left (by linarith) (sq_nonneg w)
  have hsmall : d * (w ^ 2 * y) ≤ d * (φ / 2) := by
    have hwy : 0 ≤ w * y := mul_nonneg hw hy
    have h1 := mul_le_mul_of_nonneg_left hdw hwy
    have h2 := mul_le_mul_of_nonneg_right hslope hw
    have h3 := mul_le_mul_of_nonneg_left hreached hd.le
    have h4 := mul_nonneg hwy hT
    linarith
  exact hdrop.trans (le_of_mul_le_mul_left hsmall hd)

section NegLead

variable (hτ : Unmet a b τ) (hlead : lead a b < 0) (hbelow : cubic a b τ ≤ τ)

include hτ hbelow

theorem Unmet.le_depth : margin - fault ≤ τ - cubic a b τ := by
  have hfar := hτ.far
  rwa [abs_of_nonpos (by linarith), neg_sub] at hfar

theorem climb_target : Climb a b τ τ := by
  refine ⟨le_rfl, hτ.target_le, Or.inl ?_⟩
  rw [fault]
  linarith

include hlead

/-- The tangent at the target does not lead so far that a tangent from there misses the target by
more than half its depth. -/
theorem bend_le_depth (hu : τ ≤ u)
    (hreached : cubicSlope a b τ * (u - τ) ≤ τ - cubic a b τ + 4 * fault) :
    (u - τ) ^ 2 * -(3 * startBend a b + 3 * lead a b * τ + 2 * lead a b * (u - τ)) ≤
    (τ - cubic a b τ) / 2 := by
  have hdepth := hτ.le_depth hbelow
  have hslope := hτ.cubicSlope_nonneg hτ.target_nonneg hτ.target_le
  -- everything in units of the falling cube: the target, its distance to one, and the depth without
  -- these
  set d := -lead a b with hd
  set T := d * (1 - τ) + (1 - 3 * a - d * τ) with hT
  have hd0 : 0 < d := by linarith
  have hy : 0 ≤ d * τ := mul_nonneg hd0.le hτ.target_nonneg
  have hA : 0 ≤ d * (1 - τ) := mul_nonneg hd0.le (by linarith [hτ.target_le])
  have hdepth' : τ - cubic a b τ = τ * (1 - τ) * (1 - 3 * a - d * τ) := by
    have := cubic_sub_eq a b τ
    rw [hd]
    linarith
  have hM : 0 ≤ 1 - 3 * a - d * τ := by
    by_contra hneg
    have hpos : 0 ≤ τ * (1 - τ) := mul_nonneg hτ.target_nonneg (by linarith [hτ.target_le])
    have := mul_nonpos_of_nonneg_of_nonpos hpos (not_le.mp hneg).le
    rw [margin, fault] at hdepth
    linarith
  have hslope' : d * cubicSlope a b τ = d * (3 * a) + 2 * (d * τ) * T + (d * τ) ^ 2 := by
    rw [hT, hd, cubicSlope, lead]
    ring
  have hbend : 3 * startBend a b + 3 * lead a b * τ = T - d * τ := by
    rw [hT, hd, startBend, lead]
    ring
  have hT0 : 0 ≤ T := by linarith
  have hroom : 8 * d * (τ - cubic a b τ) ≤ T * cubicSlope a b τ := by
    refine le_of_mul_le_mul_left ?_ hd0
    have hmean : 0 ≤ (d * τ) * (d * (1 - τ) - (1 - 3 * a - d * τ)) ^ 2 :=
      mul_nonneg hy (sq_nonneg _)
    have hline : 0 ≤ T * (d * (3 * a)) :=
      mul_nonneg hT0 (mul_nonneg hd0.le (by linarith [hτ.first_nonneg]))
    have hsquare : 0 ≤ T * (d * τ) ^ 2 := mul_nonneg hT0 (sq_nonneg _)
    calc d * (8 * d * (τ - cubic a b τ))
        = 8 * ((d * τ) * (d * (1 - τ)) * (1 - 3 * a - d * τ)) := by rw [hdepth']; ring
      _ ≤ 2 * ((d * τ) * T ^ 2) := by rw [hT]; linarith
      _ ≤ T * (d * cubicSlope a b τ) := by rw [hslope']; linarith
      _ = d * (T * cubicSlope a b τ) := by ring
  have hslope2 : 2 * (d * τ) * T ≤ d * cubicSlope a b τ := by
    have hline : 0 ≤ d * (3 * a) := mul_nonneg hd0.le (by linarith [hτ.first_nonneg])
    rw [hslope']
    linarith [sq_nonneg (d * τ)]
  have hkey :=
    sq_mul_le_half (w := u - τ) hd0 hy hT0 (by linarith)
    (by rw [margin, fault] at hdepth; linarith) hroom
    hslope2 (hreached.trans (by rw [margin, fault] at *; linarith))
  refine le_trans (le_of_eq ?_) hkey
  rw [hbend, hd]
  ring

omit hbelow in
/-- A step from below the target leads forward, and not beyond one. -/
theorem Climb.mem_of_neg (h : Climb a b τ u) (hs : Stride a b τ u v X D)
    (hX : X ≤ -margin) (hD : margin ≤ D) :
    u ≤ v ∧ v ≤ 1 := by
  have hu0 : 0 ≤ u := hτ.target_nonneg.trans h.low
  have hfall := hτ.le_product
  have hlands := abs_le.mp hs.lands
  have hone := (abs_le.mp hs.reflect.abs_mul_sub_le).1
  rw [reach_of_mem hu0 h.high] at hlands
  rw [reach_reflect, reach_of_mem hu0 h.high, startBend_reflect, lead_reflect] at hone
  rw [margin] at hX hD hfall
  constructor
  · have hmove : 0 ≤ (v - u) * D := by
      rw [fault] at hlands
      linarith
    linarith [nonneg_of_mul_nonneg_left hmove (by linarith)]
  · have hfactor : -1 ≤ 3 * -endBend a b + 2 * lead a b * (1 - u) := by
      have hcube := mul_nonpos_of_nonpos_of_nonneg hlead.le hu0
      rw [endBend]
      rw [lead] at hcube ⊢
      linarith [hτ.first_nonneg]
    have hmove : 0 ≤ (1 - v) * D := by
      have hbelow := mul_le_mul_of_nonneg_left hfactor (sq_nonneg (1 - u))
      have hsquare : (1 - u) ^ 2 ≤ (1 - τ) ^ 2 := by
        have := h.low
        have := h.high
        gcongr
      rw [fault] at hone hfall
      linarith
    linarith [nonneg_of_mul_nonneg_left hmove (by linarith)]

omit hbelow in
/-- A step forward that goes beyond the target is no longer than the tangent at the target
allows. -/
theorem Climb.slope_mul_le (h : Climb a b τ u) (hs : Stride a b τ u v X D)
    (hup : u ≤ v) (hv : v ≤ 1) (hbeyond : 4 * fault < cubic a b v - τ) :
    cubicSlope a b τ * (v - τ) ≤ τ - cubic a b τ + 4 * fault := by
  have hu0 : 0 ≤ u := hτ.target_nonneg.trans h.low
  have htangent := (abs_le.mp (hs.tangent_le hu0 h.high (abs_le.mpr ⟨by linarith, by linarith⟩))).2
  -- the curve bends up all the way to `v`, so the tangent at the target is below the one at `u`
  have hbend : 0 < 3 * startBend a b + 3 * lead a b * u + lead a b * (v - u) := by
    by_contra hnot
    have := mul_nonpos_of_nonneg_of_nonpos (sq_nonneg (v - u)) (not_lt.mp hnot)
    rw [cubic_eq_taylor a b u v] at hbeyond
    rw [fault] at *
    linarith
  have hw : 0 ≤ u - τ := sub_nonneg.mpr h.low
  have hlw := mul_nonpos_of_nonpos_of_nonneg hlead.le hw
  have hlh := mul_nonpos_of_nonpos_of_nonneg hlead.le (sub_nonneg.mpr hup)
  have hfirst := mul_nonneg (sq_nonneg (u - τ))
    (by linarith : 0 ≤ 3 * startBend a b + 3 * lead a b * τ + lead a b * (u - τ))
  have hsecond := mul_nonneg (mul_nonneg (sub_nonneg.mpr hup) hw)
    (by linarith : 0 ≤ 2 * (3 * startBend a b + 3 * lead a b * τ) + 3 * (lead a b * (u - τ)))
  have hslopes : cubicSlope a b u = cubicSlope a b τ +
      (u - τ) * (2 * (3 * startBend a b + 3 * lead a b * τ) + 3 * (lead a b * (u - τ))) := by
    rw [cubicSlope, cubicSlope, startBend, lead]
    ring
  rw [cubic_eq_taylor a b τ u, hslopes] at htangent
  rw [fault] at *
  linarith

omit hbelow in
/-- A step from below the target stays below one, and it stays as near as the tangent at the target
allows. -/
theorem Climb.step_of_neg (h : Climb a b τ u) (hs : Stride a b τ u v X D)
    (hX : X ≤ -margin) (hD : margin ≤ D) :
    Climb a b τ v := by
  obtain ⟨hup, hv⟩ := h.mem_of_neg hτ hlead hs hX hD
  refine ⟨h.low.trans hup, hv, ?_⟩
  rcases le_or_gt (cubic a b v - τ) (4 * fault) with hmet | hbeyond
  · exact Or.inl hmet
  · exact Or.inr (h.slope_mul_le hτ hlead hs hup hv hbeyond)

/-- A step from above the target stays above it. -/
theorem Climb.step_of_pos (h : Climb a b τ u) (hs : Stride a b τ u v X D)
    (hX : margin ≤ X) (hD : margin ≤ D) :
    Climb a b τ v := by
  have hu0 : 0 ≤ u := hτ.target_nonneg.trans h.low
  have hdepth := hτ.le_depth hbelow
  have hdistance := abs_le.mp hs.distance
  have hlands := abs_le.mp hs.lands
  have hw : |u - τ| ≤ 1 := abs_le.mpr ⟨by linarith [h.low], by linarith [h.high, hτ.target_nonneg]⟩
  have hslope := abs_le.mp (abs_mul_le_mul hs.slope hw)
  rw [reach_of_mem hu0 h.high] at hdistance hlands hslope
  have hreached := h.reached.resolve_left (by rw [margin] at hX; rw [fault] at *; linarith)
  have hbend := bend_le_depth hτ hlead hbelow h.low hreached
  rw [margin] at hX hD hdepth
  have hdown : v ≤ u := by
    have hmove : (v - u) * D ≤ 0 := by
      rw [fault] at hlands
      linarith
    linarith [nonpos_of_mul_nonpos_left hmove (by linarith)]
  have hback : τ ≤ v := by
    have hexact : (u - τ) * cubicSlope a b u - (cubic a b u - τ) = τ - cubic a b τ +
        (u - τ) ^ 2 * (3 * startBend a b + 3 * lead a b * τ + 2 * lead a b * (u - τ)) := by
      rw [cubicSlope, cubic, cubic, startBend, lead]
      ring
    have hmove : 0 ≤ (v - τ) * D := by
      rw [fault] at *
      linarith
    linarith [nonneg_of_mul_nonneg_left hmove (by linarith)]
  refine ⟨hback, hdown.trans h.high, Or.inr (le_trans ?_ hreached)⟩
  have hnonneg := hτ.cubicSlope_nonneg hτ.target_nonneg hτ.target_le
  gcongr

theorem Climb.step (h : Climb a b τ u) (hs : Stride a b τ u v X D) : Climb a b τ v := by
  have hu0 : 0 ≤ u := hτ.target_nonneg.trans h.low
  have hnonneg := hτ.cubicSlope_nonneg hu0 h.high
  have hslope := abs_le.mp hs.slope
  rw [reach_of_mem hu0 h.high] at hslope
  have hD : margin ≤ D := by
    have hsteep := hs.steep
    rw [margin] at hsteep ⊢
    rw [fault] at hslope
    rcases abs_cases D with ⟨habs, -⟩ | ⟨habs, -⟩ <;> linarith
  rcases le_abs.mp hs.far with hX | hX
  · exact h.step_of_pos hτ hlead hbelow hs hX hD
  · exact h.step_of_neg hτ hlead hs (by linarith) hD

end NegLead

/-! ### The parameters of a search -/

/-- A search for `τ` comes to a parameter. -/
inductive Visited (a b τ : ℚ) : ℚ → Prop where
  | target : Visited a b τ τ
  | step {u v X D : ℚ} (h : Visited a b τ u) (hs : Stride a b τ u v X D) : Visited a b τ v

theorem Visited.reflect (h : Visited a b τ u) : Visited (1 - b) (1 - a) (1 - τ) (1 - u) := by
  induction h with
  | target => exact .target
  | step _ hs ih => exact .step ih hs.reflect

theorem Visited.kept (hτ : Unmet a b τ) (hlead : 0 ≤ lead a b) (h : Visited a b τ u) :
    Kept a b τ u ∧ Kept (1 - b) (1 - a) (1 - τ) (1 - u) := by
  induction h with
  | target => exact ⟨kept_target hτ.toUnitBox, kept_target hτ.toUnitBox.reflect⟩
  | @step u v X D _ hs ih =>
    obtain ⟨hl, hr⟩ := ih
    refine ⟨hl.step hτ hlead hr hs, hr.step hτ.reflect (by rwa [lead_reflect]) ?_ hs.reflect⟩
    simpa only [sub_sub_cancel] using hl

theorem Visited.climb (hτ : Unmet a b τ) (hlead : lead a b < 0) (hbelow : cubic a b τ ≤ τ)
    (h : Visited a b τ u) : Climb a b τ u := by
  induction h with
  | target => exact climb_target hτ hbelow
  | step _ hs ih => exact ih.step hτ hlead hbelow hs

theorem Visited.mem_of_lead_neg (hτ : Unmet a b τ) (hlead : lead a b < 0) (h : Visited a b τ u) :
    0 ≤ u ∧ u ≤ 1 := by
  rcases le_total (cubic a b τ) τ with hbelow | habove
  · have hclimb := h.climb hτ hlead hbelow
    exact ⟨hτ.target_nonneg.trans hclimb.low, hclimb.high⟩
  · have hclimb :=
      h.reflect.climb hτ.reflect (by rwa [lead_reflect]) (by rw [cubic_reflect]; linarith)
    exact ⟨by linarith [hclimb.high], by linarith [hclimb.low, hτ.target_le]⟩

/-- Where the target is met beyond zero, it is next to zero. -/
theorem Visited.target_lt (hτ : Unmet a b τ) (h : Visited a b τ u) (hu : u < 0)
    (hX : |X - (cubic a b u - τ)| ≤ fault * reach u ^ 3)
    (hmet : |X| < 1 / 10000000) : τ < 1 / 10000000 := by
  rcases le_or_gt 0 (lead a b) with hlead | hlead
  · exact (h.kept hτ hlead).1.target_lt hτ.toUnitBox hlead hu hX hmet
  · exact absurd (h.mem_of_lead_neg hτ hlead).1 (not_le.mpr hu)

theorem Visited.reach_le (hτ : Unmet a b τ) (h : Visited a b τ u) : reach u ≤ 4294967296 := by
  have hbounds : -1000000000 ≤ u ∧ u ≤ 1000000001 := by
    rcases le_or_gt 0 (lead a b) with hlead | hlead
    · obtain ⟨hl, hr⟩ := h.kept hτ hlead
      exact ⟨hl.neg_le hτ.toUnitBox, by linarith [hr.neg_le hτ.toUnitBox.reflect]⟩
    · obtain ⟨h0, h1⟩ := h.mem_of_lead_neg hτ hlead
      exact ⟨by linarith, by linarith⟩
  have h1 : |u| ≤ 1000000001 := abs_le.mpr ⟨by linarith, by linarith⟩
  have h2 : |1 - u| ≤ 1000000001 := abs_le.mpr ⟨by linarith, by linarith⟩
  rw [reach]
  linarith

end EffectTiming.Bezier
