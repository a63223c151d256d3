import Mathlib
import EffectTiming.Proofs.Easing.Curve

/-!
# Newton's steps stay finite

The search for the parameter of a curve divides by a slope that may be as small as the tolerance, so
a step can go far out. It never goes so far that the numbers run out of range. With `lead a b` for
the coefficient of the cube and `1 - 3 * a` for the one that remains of the square, there are three
kinds of curves:

* a cube that counts: far out a step goes at most the way back to zero, near by it is bounded by
  the tolerance (`step_of_lead`);
* no cube to speak of and a small square: the curve is nearly the diagonal, and the parameter stays
  next to the target (`step_of_diagonal`);
* no cube to speak of and a square that counts: far out a step goes back, and near by it is bounded
  (`step_of_square`).

Each kind has an invariant of its own; `newton_hasValue` runs it through the steps.
-/

namespace EffectTiming.Bezier

open Binary64

/-! ### The exact step -/

/-- The coefficient of the cube. -/
def lead (a b : ℚ) : ℚ := 1 + 3 * a - 3 * b

theorem cubic_eq (a b u : ℚ) :
    cubic a b u = lead a b * u ^ 3 + (3 * b - 6 * a) * u ^ 2 + 3 * a * u := by
  rw [cubic, lead]
  ring

theorem cubicSlope_eq (a b u : ℚ) :
    cubicSlope a b u = 3 * lead a b * u ^ 2 + 2 * (3 * b - 6 * a) * u + 3 * a := by
  rw [cubicSlope, lead]
  ring

/-- The error of a computed coordinate at the parameter one. -/
def fault : ℚ := 1 / 8796093022208

/-- `X` and `D` are what is computed for the distance to the target and for the slope, at a
parameter of size at most `s`. -/
structure Computed (a b τ u s X D : ℚ) : Prop where
  distance : |X - (cubic a b u - τ)| ≤ fault * s ^ 3
  slope : |D - cubicSlope a b u| ≤ fault * s ^ 2

/-- Control values and a target in the unit interval. -/
structure UnitBox (a b τ : ℚ) : Prop where
  first_nonneg : 0 ≤ a
  first_le : a ≤ 1
  second_nonneg : 0 ≤ b
  second_le : b ≤ 1
  target_nonneg : 0 ≤ τ
  target_le : τ ≤ 1

variable {a b τ u s X D : ℚ}

theorem abs_mul_le_mul {p q r t : ℚ} (hp : |p| ≤ r) (hq : |q| ≤ t) : |p * q| ≤ r * t := by
  rw [abs_mul]
  exact mul_le_mul hp hq (abs_nonneg q) ((abs_nonneg p).trans hp)

/-- Far out, where the cube counts, the step is at most the way back to zero. -/
theorem Computed.abs_le_of_lead (h : Computed a b τ u |u| X D) (hbox : UnitBox a b τ)
    (hlead : 4 * fault ≤ |lead a b|) (hu : 1125899906842624 ≤ |u|) : |X| ≤ |u| * |D| := by
  obtain ⟨hX, hD⟩ := h
  obtain ⟨ha, ha', hb, hb', hτ, hτ'⟩ := hbox
  have h2 : |(3 * b - 6 * a) * u ^ 2| ≤ 6 * |u| ^ 2 :=
    abs_mul_le_mul (abs_le.mpr ⟨by linarith, by linarith⟩) (abs_pow u 2).le
  have h1 : |3 * a * u| ≤ 3 * |u| :=
    abs_mul_le_mul (abs_le.mpr ⟨by linarith, by linarith⟩) le_rfl
  have h3 : |lead a b * u ^ 3| = |lead a b| * |u| ^ 3 := by rw [abs_mul, abs_pow]
  have hD' : |u * (D - cubicSlope a b u)| ≤ fault * |u| ^ 3 := by
    refine (abs_mul_le_mul le_rfl hD).trans_eq ?_
    ring
  have hslope : u * D = 3 * (lead a b * u ^ 3) + 2 * ((3 * b - 6 * a) * u ^ 2) + 3 * a * u +
      u * (D - cubicSlope a b u) := by
    rw [cubicSlope_eq]
    ring
  rw [cubic_eq] at hX
  rw [← abs_mul]
  -- both sides against the size of the cube
  have hupper : |X| ≤ |lead a b| * |u| ^ 3 + 6 * |u| ^ 2 + 3 * |u| + 1 + fault * |u| ^ 3 := by
    rw [← h3]
    have := abs_le.mp hX
    have := abs_le.mp h2
    have := abs_le.mp h1
    have := le_abs_self (lead a b * u ^ 3)
    have := neg_abs_le (lead a b * u ^ 3)
    exact abs_le.mpr ⟨by linarith, by linarith⟩
  have hlower : 3 * (|lead a b| * |u| ^ 3) ≤ |u * D| + 12 * |u| ^ 2 + 3 * |u| +
      fault * |u| ^ 3 := by
    rw [← h3]
    have := abs_le.mp hD'
    have := abs_le.mp h2
    have := abs_le.mp h1
    have := le_abs_self (u * D)
    have := neg_abs_le (u * D)
    rcases abs_cases (lead a b * u ^ 3) with ⟨h, -⟩ | ⟨h, -⟩ <;> linarith
  -- the cube outweighs everything else
  have hsquare : 1125899906842624 * |u| ^ 2 ≤ |u| ^ 3 := by
    rw [pow_succ' |u| 2]
    gcongr
  have hline : 1125899906842624 * |u| ≤ |u| ^ 2 := by
    rw [pow_two]
    gcongr
  have hcube : 4 * fault * |u| ^ 3 ≤ |lead a b| * |u| ^ 3 := by gcongr
  rw [fault] at hcube hupper hlower
  linarith

/-- Nearby, the distance is bounded by the cube of the size. -/
theorem Computed.distance_le (h : Computed a b τ u s X D) (hbox : UnitBox a b τ) (hs : 1 ≤ s)
    (hu : |u| ≤ s) : |X| ≤ 15 * s ^ 3 := by
  obtain ⟨ha, ha', hb, hb', hτ, hτ'⟩ := hbox
  have hX := h.distance
  rw [cubic_eq] at hX
  have hpow : ∀ n : ℕ, |u ^ n| ≤ s ^ n := fun n => by
    rw [abs_pow]
    gcongr
  have h3 : |lead a b * u ^ 3| ≤ 4 * s ^ 3 := by
    refine abs_mul_le_mul (abs_le.mpr ⟨?_, ?_⟩) (hpow 3) <;> rw [lead] <;> linarith
  have h2 : |(3 * b - 6 * a) * u ^ 2| ≤ 6 * s ^ 2 :=
    abs_mul_le_mul (abs_le.mpr ⟨by linarith, by linarith⟩) (hpow 2)
  have h1 : |3 * a * u| ≤ 3 * s := abs_mul_le_mul (abs_le.mpr ⟨by linarith, by linarith⟩) hu
  have := abs_le.mp hX
  have := abs_le.mp h3
  have := abs_le.mp h2
  have := abs_le.mp h1
  have hs2 : s ^ 2 ≤ s ^ 3 := pow_le_pow_right₀ hs (by norm_num)
  have hs1 : s ≤ s ^ 3 := le_self_pow₀ hs (by norm_num)
  have hs0 : 1 ≤ s ^ 3 := one_le_pow₀ hs
  have hfault : fault * s ^ 3 ≤ s ^ 3 := by
    rw [fault]
    linarith
  exact abs_le.mpr ⟨by linarith, by linarith⟩

/-- Without a cube, the coefficient of the square is hardly above one. -/
theorem UnitBox.square_le (h : UnitBox a b τ) (hlead : |lead a b| ≤ 4 * fault) :
    |1 - 3 * a| ≤ 21 / 20 := by
  obtain ⟨ha, -, -, hb, -, -⟩ := h
  have := abs_le.mp hlead
  rw [lead, fault] at this
  exact abs_le.mpr ⟨by linarith, by linarith⟩

theorem cubicSlope_eq_one_add (a b u : ℚ) :
    cubicSlope a b u = 1 + (1 - 3 * a) * (2 * u - 1) + lead a b * (3 * u ^ 2 - 2 * u) := by
  rw [cubicSlope, lead]
  ring

/-- Where the exact step leads, before it is divided by the slope. -/
theorem sub_mul_cubicSlope_sub (a b τ u : ℚ) :
    (u - τ) * cubicSlope a b u - (cubic a b u - τ) =
      (1 - 3 * a) * ((u - τ) ^ 2 + τ * (1 - τ)) +
        lead a b * (2 * u ^ 3 - u ^ 2 - τ * (3 * u ^ 2 - 2 * u)) := by
  rw [cubicSlope, cubic, lead]
  ring

/-- Next to the diagonal, a step stays next to the target. -/
theorem Computed.step_of_diagonal (h : Computed a b τ u 2 X D) (hbox : UnitBox a b τ)
    (hlead : |lead a b| ≤ 4 * fault) (hsquare : |1 - 3 * a| ≤ 1 / 5) (hu : |u - τ| ≤ 1) :
    1 / 3 ≤ D ∧ |(u - τ) * D - X| ≤ 3 / 4 * D := by
  have hτ := hbox.target_nonneg
  have hτ' := hbox.target_le
  obtain ⟨hX, hD⟩ := h
  obtain ⟨hu1, hu2⟩ := abs_le.mp hu
  have hslope1 : |(1 - 3 * a) * (2 * u - 1)| ≤ 1 / 5 * 3 :=
    abs_mul_le_mul hsquare (abs_le.mpr ⟨by linarith, by linarith⟩)
  have hslope2 : |lead a b * (3 * u ^ 2 - 2 * u)| ≤ 4 * fault * 16 :=
    abs_mul_le_mul hlead (abs_le.mpr ⟨by nlinarith, by nlinarith⟩)
  have hstep1 : |(1 - 3 * a) * ((u - τ) ^ 2 + τ * (1 - τ))| ≤ 1 / 5 * (5 / 4) := by
    refine abs_mul_le_mul hsquare (abs_le.mpr ⟨?_, ?_⟩)
    · nlinarith [sq_nonneg (u - τ)]
    · nlinarith [sq_nonneg (τ - 1 / 2)]
  have hstep2 : |lead a b * (2 * u ^ 3 - u ^ 2 - τ * (3 * u ^ 2 - 2 * u))| ≤ 4 * fault * 36 := by
    have hu3 : |u| ≤ 2 := abs_le.mpr ⟨by linarith, by linarith⟩
    have hcube : |2 * u ^ 3| ≤ 2 * 2 ^ 3 := abs_mul_le_mul (by norm_num) (by rw [abs_pow]; gcongr)
    have hsq : |u ^ 2| ≤ 2 ^ 2 := by rw [abs_pow]; gcongr
    have hrest : |τ * (3 * u ^ 2 - 2 * u)| ≤ 1 * 16 :=
      abs_mul_le_mul (abs_le.mpr ⟨by linarith, hτ'⟩) (abs_le.mpr ⟨by nlinarith, by nlinarith⟩)
    have := abs_le.mp hcube
    have := abs_le.mp hsq
    have := abs_le.mp hrest
    exact abs_mul_le_mul hlead (abs_le.mpr ⟨by linarith, by linarith⟩)
  have herror : |(u - τ) * (D - cubicSlope a b u)| ≤ 1 * (fault * 2 ^ 2) := abs_mul_le_mul hu hD
  have hsplit : (u - τ) * D - X = (u - τ) * (D - cubicSlope a b u) - (X - (cubic a b u - τ)) +
      ((u - τ) * cubicSlope a b u - (cubic a b u - τ)) := by ring
  rw [sub_mul_cubicSlope_sub] at hsplit
  rw [cubicSlope_eq_one_add] at hD
  rw [fault] at *
  have := abs_le.mp hX
  have := abs_le.mp hD
  have := abs_le.mp hslope1
  have := abs_le.mp hslope2
  have := abs_le.mp hstep1
  have := abs_le.mp hstep2
  have := abs_le.mp herror
  exact ⟨by linarith, abs_le.mpr ⟨by linarith, by linarith⟩⟩

/-- Where the exact step leads, relative to zero. -/
theorem mul_cubicSlope_sub (a b τ u : ℚ) :
    u * cubicSlope a b u - (cubic a b u - τ) =
      (1 - 3 * a) * u ^ 2 + τ + lead a b * (2 * u ^ 3 - u ^ 2) := by
  rw [cubicSlope, cubic, lead]
  ring

/-- What a step on a curve without a cube leads to, up to errors and the little cube there is. -/
theorem Computed.abs_mul_sub_le (h : Computed a b τ u s X D) (hbox : UnitBox a b τ)
    (hlead : |lead a b| ≤ 4 * fault) (hu : |u| ≤ s) :
    |u * D - X| ≤ |1 - 3 * a| * s ^ 2 + 1 + 4 * fault * (2 * s ^ 3 + s ^ 2) +
    2 * fault * s ^ 3 := by
  have hτ := hbox.target_nonneg
  have hτ' := hbox.target_le
  have hX := h.distance
  have hpow : ∀ n : ℕ, |u ^ n| ≤ s ^ n := fun n => by
    rw [abs_pow]
    gcongr
  have hsquare : |(1 - 3 * a) * u ^ 2| ≤ |1 - 3 * a| * s ^ 2 := abs_mul_le_mul le_rfl (hpow 2)
  have hcube : |lead a b * (2 * u ^ 3 - u ^ 2)| ≤ 4 * fault * (2 * s ^ 3 + s ^ 2) := by
    have := abs_le.mp (hpow 3)
    have := abs_le.mp (hpow 2)
    exact abs_mul_le_mul hlead (abs_le.mpr ⟨by linarith, by linarith⟩)
  have herror : |u * (D - cubicSlope a b u)| ≤ fault * s ^ 3 :=
    (abs_mul_le_mul hu h.slope).trans_eq (by ring)
  have hsplit : u * D - X = u * (D - cubicSlope a b u) - (X - (cubic a b u - τ)) +
      (u * cubicSlope a b u - (cubic a b u - τ)) := by ring
  rw [mul_cubicSlope_sub] at hsplit
  have := abs_le.mp hX
  have := abs_le.mp hsquare
  have := abs_le.mp hcube
  have := abs_le.mp herror
  exact abs_le.mpr ⟨by linarith, by linarith⟩

/-- Far out on a curve without a cube, a step goes back. -/
theorem Computed.step_of_square (h : Computed a b τ u |u| X D) (hbox : UnitBox a b τ)
    (hlead : |lead a b| ≤ 4 * fault) (hsquare : 1 / 5 ≤ |1 - 3 * a|) (hu : 16 ≤ |u|)
    (hu' : |u| ≤ 4294967296) : |u * D - X| ≤ 9 / 10 * |u * D| := by
  have hstep := h.abs_mul_sub_le hbox hlead le_rfl
  have hline : |u * (3 * a)| ≤ |u| * (41 / 20) := by
    have := abs_le.mp (hbox.square_le hlead)
    exact abs_mul_le_mul le_rfl (abs_le.mpr ⟨by linarith, by linarith⟩)
  have hcube : |lead a b * (3 * u ^ 3 - 2 * u ^ 2)| ≤ 4 * fault * (3 * |u| ^ 3 + 2 * |u| ^ 2) := by
    have := abs_le.mp (abs_pow u 3).le
    have := abs_le.mp (abs_pow u 2).le
    exact abs_mul_le_mul hlead (abs_le.mpr ⟨by linarith, by linarith⟩)
  have herror : |u * (D - cubicSlope a b u)| ≤ fault * |u| ^ 3 :=
    (abs_mul_le_mul le_rfl h.slope).trans_eq (by ring)
  have hsplit : u * D = 2 * ((1 - 3 * a) * u ^ 2) + u * (3 * a) +
      lead a b * (3 * u ^ 3 - 2 * u ^ 2) + u * (D - cubicSlope a b u) := by
    rw [cubicSlope, lead]
    ring
  have hlower : 2 * (|1 - 3 * a| * |u| ^ 2) ≤
      |u * D| + |u| * (41 / 20) + 4 * fault * (3 * |u| ^ 3 + 2 * |u| ^ 2) + fault * |u| ^ 3 := by
    have hsize : |(1 - 3 * a) * u ^ 2| = |1 - 3 * a| * |u| ^ 2 := by rw [abs_mul, abs_pow]
    rw [← hsize]
    have := abs_le.mp hline
    have := abs_le.mp hcube
    have := abs_le.mp herror
    have := le_abs_self (u * D)
    have := neg_abs_le (u * D)
    rcases abs_cases ((1 - 3 * a) * u ^ 2) with ⟨h, -⟩ | ⟨h, -⟩ <;> linarith
  -- everything else against the square
  have hw3 : |u| ^ 3 ≤ 4294967296 * |u| ^ 2 := by
    rw [pow_succ' |u| 2]
    gcongr
  have hw1 : 16 * |u| ≤ |u| ^ 2 := by
    rw [pow_two]
    gcongr
  have hw2 : 1 / 5 * |u| ^ 2 ≤ |1 - 3 * a| * |u| ^ 2 := by gcongr
  rw [fault] at hstep hlower
  linarith

/-! ### The computed step -/

/-- The curve `c` and the target `t` stand for the exact values `a`, `b` and `τ`. -/
structure Posed (c : Bezier) (t : Float) (a b τ : ℚ) : Prop where
  first : HasValue c.x1 a
  second : HasValue c.x2 b
  target : HasValue t τ
  box : UnitBox a b τ

variable {c : Bezier} {t p : Float}

theorem Posed.computed (h : Posed c t a b τ) (hp : HasValue p u) (hs : 1 ≤ s) (hu : |u| ≤ s)
    (hroom : 100 * s ^ 3 ≤ limit / 4) :
    ∃ X D, HasValue (coordinate c.x1 c.x2 p - t) X ∧ HasValue (slope c.x1 c.x2 p) D ∧
      Computed a b τ u s X D := by
  have ha : |a| ≤ 1 := abs_le.mpr ⟨by linarith [h.box.first_nonneg], h.box.first_le⟩
  have hb : |b| ≤ 1 := abs_le.mpr ⟨by linarith [h.box.second_nonneg], h.box.second_le⟩
  have hτ : |τ| ≤ 1 := abs_le.mpr ⟨by linarith [h.box.target_nonneg], h.box.target_le⟩
  have hs3 : 1 ≤ s ^ 3 := one_le_pow₀ hs
  have hx := (near_coordinate h.first ha h.second hb hp hs hu hroom).sub (h.target.near le_rfl hτ)
  obtain ⟨X, hX, hXerr⟩ := hx.close
  obtain ⟨D, hD, hDerr⟩ := (near_slope h.first ha h.second hb hp hs hu hroom).close
  refine ⟨X, D, hX, hD, hXerr.trans ?_, hDerr.trans ?_⟩
  · norm_num [roundoff, fault]
    linarith
  · norm_num [roundoff, fault]
    linarith [sq_nonneg s]

/-- The new parameter, up to the roundings of a quotient and a difference. -/
theorem near_update {x d : Float} {B : ℚ} (hp : HasValue p u)
    (hx : HasValue x X) (hd : HasValue d D) (hD : D ≠ 0) (hB : 1 ≤ B) (hu : |u| ≤ B)
    (hstep : |X / D| ≤ B) (hroom : B ≤ limit / 8) :
    Near (p - x / d) (u - X / D) (B + B) 3 := by
  have hlt : |rounded (X / D)| < limit := by
    apply abs_rounded_lt
    have := topUnit_pos
    rw [limit] at hroom ⊢
    linarith
  have hround := abs_rounded_sub_le hstep (by
    refine le_trans ?_ hB
    rw [← zpow_zero (2 : ℚ)]
    exact zpow_le_zpow_right₀ (by norm_num) (by norm_num))
  rw [← roundoff_eq] at hround
  have hquot : Near (x / d) (X / D) B 1 :=
    ⟨hB, hstep, _, hx.div hd hD hlt, by rw [Nat.cast_one, one_mul]; linarith⟩
  exact (hp.near hB hu).sub hquot

theorem hasValue_tolerance : HasValue tolerance (7555786372591432 * 2 ^ (-76 : ℤ)) := by
  have h : tolerance.toModel.unpack = .finite .positive 7555786372591432 (-76) (by decide) := rfl
  exact hasValue_of_unpack h

/-- A little less than the tolerance. -/
def margin : ℚ := 9999 / 100000000000

theorem margin_pos : 0 < margin := by norm_num [margin]

theorem margin_le {d : Float} (hd : HasValue d D) (h : ¬ d.abs < tolerance) : margin ≤ |D| := by
  rw [hd.abs.lt_iff hasValue_tolerance, not_lt] at h
  refine le_trans ?_ h
  norm_num [margin]

/-- Numbers up to `2 ^ 200` leave room for cubes. -/
theorem room_of_le (hs : 0 ≤ s) (hs' : s ≤ 2 ^ 200) : 100 * s ^ 3 ≤ limit / 4 := by
  have hcube : s ^ 3 ≤ (2 : ℚ) ^ (600 : ℤ) := by
    calc s ^ 3 ≤ ((2 : ℚ) ^ 200) ^ 3 := by gcongr
      _ = 2 ^ (600 : ℤ) := by
        rw [← pow_mul]
        rfl
  have hlimit : 512 * (2 : ℚ) ^ (600 : ℤ) ≤ limit := by
    have := (zpow_lt_limit (e := 609) (by norm_num)).le
    rwa [show (609 : ℤ) = 9 + 600 by norm_num, zpow_add₀ (by norm_num),
      show (2 : ℚ) ^ (9 : ℤ) = 512 by norm_num] at this
  have hpos : (0 : ℚ) ≤ 2 ^ (600 : ℤ) := zpow_nonneg (by norm_num) _
  generalize (2 : ℚ) ^ (600 : ℤ) = r at *
  linarith

/-- One of Newton's steps. -/
def step (c : Bezier) (t p : Float) : Float :=
  p - (coordinate c.x1 c.x2 p - t) / slope c.x1 c.x2 p

/-- A curve with a cube: the parameter grows by two bits in a step, from the size on that a first
step may reach. -/
theorem step_of_lead (h : Posed c t a b τ) (hlead : 4 * fault ≤ |lead a b|) {j : ℕ} (hj : 180 ≤ j)
    (hj' : j ≤ 200) (hp : HasValue p u) (hu : |u| ≤ 2 ^ j)
    (hflat : ¬ (slope c.x1 c.x2 p).abs < tolerance) :
    ∃ v, HasValue (step c t p) v ∧ |v| ≤ 2 ^ (j + 2) := by
  have hbig : (2 : ℚ) ^ 180 ≤ 2 ^ j := pow_le_pow_right₀ (by norm_num) hj
  have hsmall : (2 : ℚ) ^ j ≤ 2 ^ 200 := pow_le_pow_right₀ (by norm_num) hj'
  obtain ⟨X, D, hX, hD, hD0, hratio⟩ : ∃ X D, HasValue (coordinate c.x1 c.x2 p - t) X ∧
      HasValue (slope c.x1 c.x2 p) D ∧ D ≠ 0 ∧ |X / D| ≤ 2 ^ j := by
    by_cases hfar : 1125899906842624 ≤ |u|
    · -- far out the cube outweighs the errors, and the step is no longer than the way back
      obtain ⟨X, D, hX, hD, hc⟩ := h.computed hp (by linarith) le_rfl
        (room_of_le (abs_nonneg u) (hu.trans hsmall))
      have hpos : 0 < |D| := margin_pos.trans_le (margin_le hD hflat)
      refine ⟨X, D, hX, hD, abs_pos.mp hpos, le_trans ?_ hu⟩
      rw [abs_div, div_le_iff₀ hpos]
      exact hc.abs_le_of_lead h.box hlead hfar
    · -- near by nothing is known of the slope but that it is not below the tolerance
      obtain ⟨X, D, hX, hD, hc⟩ := h.computed hp (s := 1125899906842624) (by norm_num)
        (not_le.mp hfar).le (room_of_le (by norm_num) (by norm_num))
      have htol := margin_le hD hflat
      have hpos : 0 < |D| := margin_pos.trans_le htol
      have hdist := hc.distance_le h.box (by norm_num) (not_le.mp hfar).le
      refine ⟨X, D, hX, hD, abs_pos.mp hpos, le_trans ?_ hbig⟩
      rw [abs_div, div_le_iff₀ hpos]
      rw [margin] at htol
      norm_num at hdist ⊢
      linarith
  have hone : (1 : ℚ) ≤ 2 ^ j := one_le_pow₀ (by norm_num)
  obtain ⟨v, hv, herr⟩ := (near_update hp hX hD hD0 hone hu hratio (by
    have hroom := room_of_le (zero_le_one.trans hone) hsmall
    have : (2 : ℚ) ^ j ≤ (2 ^ j) ^ 3 := le_self_pow₀ hone (by norm_num)
    linarith)).close
  refine ⟨v, hv, ?_⟩
  have hfour : (2 : ℚ) ^ (j + 2) = 4 * 2 ^ j := by ring
  rw [roundoff] at herr
  push_cast at herr
  have := abs_le.mp herr
  have := abs_le.mp hu
  have := abs_le.mp hratio
  rw [hfour]
  exact abs_le.mpr ⟨by linarith, by linarith⟩

/-- A curve next to the diagonal: the parameter stays next to the target. -/
theorem step_of_diagonal (h : Posed c t a b τ) (hlead : |lead a b| ≤ 4 * fault)
    (hsquare : |1 - 3 * a| ≤ 1 / 5) (hp : HasValue p u) (hu : |u - τ| ≤ 1) :
    ∃ v, HasValue (step c t p) v ∧ |v - τ| ≤ 1 := by
  have hτ := h.box.target_nonneg
  have hτ' := h.box.target_le
  have hu2 : |u| ≤ 2 := by
    have := abs_le.mp hu
    exact abs_le.mpr ⟨by linarith, by linarith⟩
  obtain ⟨X, D, hX, hD, hc⟩ := h.computed hp (s := 2) (by norm_num) hu2
    (room_of_le (by norm_num) (by norm_num))
  obtain ⟨hD3, hstep⟩ := hc.step_of_diagonal h.box hlead hsquare hu
  have hpos : 0 < D := lt_of_lt_of_le (by norm_num) hD3
  have hnew : |u - τ - X / D| ≤ 3 / 4 := by
    have : u - τ - X / D = ((u - τ) * D - X) / D := by field_simp
    rw [this, abs_div, abs_of_pos hpos, div_le_iff₀ hpos]
    exact hstep
  have hratio : |X / D| ≤ 2 := by
    have := abs_le.mp hnew
    have := abs_le.mp hu
    exact abs_le.mpr ⟨by linarith, by linarith⟩
  obtain ⟨v, hv, herr⟩ := (near_update hp hX hD hpos.ne' one_le_two hu2 hratio (by
    have := room_of_le (s := 2) (by norm_num) (by norm_num)
    linarith)).close
  refine ⟨v, hv, ?_⟩
  rw [roundoff] at herr
  push_cast at herr
  have := abs_le.mp herr
  have := abs_le.mp hnew
  exact abs_le.mpr ⟨by linarith, by linarith⟩

/-- A curve without a cube: the parameter does not go beyond what a step from nearby may reach. -/
theorem step_of_square (h : Posed c t a b τ) (hlead : |lead a b| ≤ 4 * fault)
    (hsquare : 1 / 5 ≤ |1 - 3 * a|) (hp : HasValue p u) (hu : |u| ≤ 4294967296)
    (hflat : ¬ (slope c.x1 c.x2 p).abs < tolerance) :
    ∃ v, HasValue (step c t p) v ∧ |v| ≤ 4294967296 := by
  have hsquare' := h.box.square_le hlead
  obtain ⟨X, D, hX, hD, hD0, hnew⟩ : ∃ X D, HasValue (coordinate c.x1 c.x2 p - t) X ∧
      HasValue (slope c.x1 c.x2 p) D ∧ D ≠ 0 ∧ |u - X / D| ≤ 4000000000 := by
    by_cases hfar : 16 ≤ |u|
    · obtain ⟨X, D, hX, hD, hc⟩ := h.computed hp (by linarith) le_rfl
        (room_of_le (abs_nonneg u) (hu.trans (by norm_num)))
      have hpos : 0 < |D| := margin_pos.trans_le (margin_le hD hflat)
      have hD0 := abs_pos.mp hpos
      refine ⟨X, D, hX, hD, hD0, ?_⟩
      have hstep := hc.step_of_square h.box hlead hsquare hfar hu
      have : u - X / D = (u * D - X) / D := by field_simp
      rw [this, abs_div, div_le_iff₀ hpos]
      rw [abs_mul] at hstep
      nlinarith
    · obtain ⟨X, D, hX, hD, hc⟩ := h.computed hp (s := 16) (by norm_num) (not_le.mp hfar).le
        (room_of_le (by norm_num) (by norm_num))
      have htol := margin_le hD hflat
      have hpos : 0 < |D| := margin_pos.trans_le htol
      have hD0 := abs_pos.mp hpos
      refine ⟨X, D, hX, hD, hD0, ?_⟩
      have hstep := hc.abs_mul_sub_le h.box hlead (not_le.mp hfar).le
      have : u - X / D = (u * D - X) / D := by field_simp
      rw [this, abs_div, div_le_iff₀ hpos]
      rw [margin] at htol
      rw [fault] at hstep
      linarith
  have hratio : |X / D| ≤ 8589934592 := by
    have := abs_le.mp hnew
    have := abs_le.mp hu
    exact abs_le.mpr ⟨by linarith, by linarith⟩
  obtain ⟨v, hv, herr⟩ := (near_update hp hX hD hD0 (B := 8589934592) (by norm_num)
    (hu.trans (by norm_num)) hratio (by
      have := room_of_le (s := 8589934592) (by norm_num) (by norm_num)
      linarith)).close
  refine ⟨v, hv, ?_⟩
  rw [roundoff] at herr
  push_cast at herr
  have := abs_le.mp herr
  have := abs_le.mp hnew
  exact abs_le.mpr ⟨by linarith, by linarith⟩

/-! ### The search -/

/-- The parameter that a search ends with. -/
def Search.parameter : Search → Float
  | .solved u => u
  | .stalled u => u

/-- A property of the parameter that every step passes on holds where the search ends. -/
theorem newton_hasValue {P : ℕ → ℚ → Prop}
    (hstep : ∀ n u p, HasValue p u → P (n + 1) u → ¬ (slope c.x1 c.x2 p).abs < tolerance →
      ∃ v, HasValue (step c t p) v ∧ P n v) :
    ∀ n u p, HasValue p u → P n u → ∃ v, HasValue (newton c t n p).parameter v := by
  intro n
  induction n with
  | zero =>
    intro u p hp _
    exact ⟨u, hp⟩
  | succ n ih =>
    intro u p hp hP
    rw [newton]
    simp only
    split
    · exact ⟨u, hp⟩
    · split
      · exact ⟨u, hp⟩
      · rename_i hflat
        obtain ⟨v, hv, hP'⟩ := hstep n u p hp hP hflat
        exact ih v _ hv hP'

/-- The search ends with a finite parameter. -/
theorem Posed.newton_hasValue (h : Posed c t a b τ) :
    ∃ v, HasValue (newton c t 8 t).parameter v := by
  have hτ : |τ| ≤ 1 := abs_le.mpr ⟨by linarith [h.box.target_nonneg], h.box.target_le⟩
  by_cases hlead : 4 * fault ≤ |lead a b|
  · refine Bezier.newton_hasValue (P := fun n u => n ≤ 8 ∧
      |u| ≤ 2 ^ (196 - 2 * n)) ?_ 8 τ t h.target
      ⟨le_rfl, hτ.trans (one_le_pow₀ (by norm_num))⟩
    rintro n u p hp ⟨hn, hu⟩ hflat
    obtain ⟨v, hv, hbound⟩ := step_of_lead h hlead (by omega) (by omega) hp hu hflat
    refine ⟨v, hv, by omega, ?_⟩
    rwa [show 196 - 2 * n = 196 - 2 * (n + 1) + 2 by omega]
  · have hlead := (not_le.mp hlead).le
    by_cases hsquare : |1 - 3 * a| ≤ 1 / 5
    · refine Bezier.newton_hasValue (P := fun _ u => |u - τ| ≤ 1) ?_ 8 τ t h.target (by simp)
      intro n u p hp hu _
      exact step_of_diagonal h hlead hsquare hp hu
    · have hsquare := (not_le.mp hsquare).le
      refine Bezier.newton_hasValue (P := fun _ u => |u| ≤ 4294967296) ?_ 8 τ t h.target
        (hτ.trans (by norm_num))
      intro n u p hp hu hflat
      exact step_of_square h hlead hsquare hp hu hflat

end EffectTiming.Bezier
