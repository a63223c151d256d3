import Mathlib
import EffectTiming.Binary64.Digits
import EffectTiming.Proofs.Binary64.Whole

/-!
# The shortest digits read back

A decimal in the reach of `m · 2 ^ e` rounds to `m · 2 ^ e`. The search for the shortest one always
ends inside the reach: seventeen digits are more than fifty-three binary places, so the finest grid
that is tried has a point there.

## Main statements

* `rounded_of_holds`: what lies in the reach of a number rounds to it.
* `exists_nearestOnGrid`: a grid with steps below `m · 2 ^ e / 10 ^ 16` has a point in the reach.
* `holds_shortest`, `rounded_shortest`: the shortest decimal reads back.
-/

namespace EffectTiming.Binary64

variable {m : ℕ} {e grid : ℤ} {q : ℚ} {d : Decimal}

/-- `m · 2 ^ e` is a positive number of the format, written in its one stored form. -/
structure IsStored (m : ℕ) (e : ℤ) : Prop where
  pos : 0 < m
  lt : m < 9007199254740992
  least : -1074 ≤ e
  greatest : e ≤ 971
  full : hiddenBit ≤ m ∨ e = -1074

/-- The number that a decimal stands for. -/
def Decimal.value (d : Decimal) : ℚ := d.digits * 10 ^ d.exponent

/-- `q` lies in an interval that is counted in quarters of the binary place `2 ^ e`. -/
def Reach.Holds (r : Reach) (e : ℤ) (q : ℚ) : Prop :=
  if r.closed then r.low * 2 ^ (e - 2) ≤ q ∧ q ≤ r.high * 2 ^ (e - 2)
  else r.low * 2 ^ (e - 2) < q ∧ q < r.high * 2 ^ (e - 2)

theorem Reach.Holds.le {r : Reach} (h : r.Holds e q) :
    r.low * 2 ^ (e - 2) ≤ q ∧ q ≤ r.high * 2 ^ (e - 2) := by
  rw [Reach.Holds] at h
  split at h
  · exact h
  · exact ⟨h.1.le, h.2.le⟩

theorem Reach.holds_of_lt {r : Reach} (hlow : r.low * 2 ^ (e - 2) < q)
    (hhigh : q < r.high * 2 ^ (e - 2)) :
    r.Holds e q := by
  rw [Reach.Holds]
  split
  · exact ⟨hlow.le, hhigh.le⟩
  · exact ⟨hlow, hhigh⟩

theorem zpow_eq_four_quarters (e : ℤ) : (2 : ℚ) ^ e = 4 * 2 ^ (e - 2) := by
  rw [zpow_sub₀ (by norm_num)]
  norm_num
  ring

theorem zpow_sub_one_eq_two_quarters (e : ℤ) : (2 : ℚ) ^ (e - 1) = 2 * 2 ^ (e - 2) := by
  rw [← zpow_one_add₀ (by norm_num)]
  congr 1
  ring

/-! ### Rounding inside the reach -/

/-- The last place of a number is known from its binade. -/
theorem gridExponent_eq (hlow : 2 ^ (52 + e) ≤ q ∨ e = -1074 ∧ 0 < q) (hhigh : q < 2 ^ (53 + e))
    (he : -1074 ≤ e) : gridExponent q = e := by
  have hpos : 0 < q := hlow.elim (lt_of_lt_of_le (zpow_pos (by norm_num) _)) And.right
  have htop := (Int.lt_zpow_iff_log_lt (b := 2) (by norm_num) hpos).mp (by exact_mod_cast hhigh)
  rw [gridExponent, abs_of_pos hpos]
  rcases hlow with hlow | ⟨rfl, -⟩
  · have := (Int.zpow_le_iff_le_log (b := 2) (by norm_num) hpos).mp (by exact_mod_cast hlow)
    omega
  · omega

/-- A number rounds to the nearest multiple of its last place, and at a tie to an even one. -/
theorem rounded_of_grid {k : ℤ} (hg : gridExponent q = e)
    (h : |q - k * 2 ^ e| < 2 ^ e / 2 ∨ |q - k * 2 ^ e| = 2 ^ e / 2 ∧ Even k) :
    rounded q = k * 2 ^ e := by
  have hpos : (0 : ℚ) < 2 ^ e := zpow_pos (by norm_num) e
  have hdist : |q / 2 ^ e - k| = |q - k * 2 ^ e| / 2 ^ e := by
    rw [div_sub' hpos.ne', abs_div, abs_of_pos hpos, mul_comm]
  rw [rounded, hg, nearestEven_eq (k := k)]
  rw [hdist, div_lt_iff₀ hpos, div_eq_iff hpos.ne']
  exact h.imp (fun h => by linarith) fun h => ⟨by linarith [h.1], h.2⟩

/-! ### The ends of the reach -/

theorem reach_low_of_pos (hm : 0 < m) (hirr : ¬ (m = hiddenBit ∧ -1074 < e)) :
    ((reach m e).low : ℚ) = 4 * m - 2 := by
  have : (reach m e).low + 2 = 4 * m := by
    show (if m = hiddenBit ∧ -1074 < e then 4 * m - 1 else 4 * m - 2) + 2 = _
    rw [if_neg hirr]
    omega
  rw [eq_sub_iff_add_eq]
  exact_mod_cast this

theorem reach_low_hiddenBit (he : -1074 < e) :
    ((reach hiddenBit e).low : ℚ) = 4 * hiddenBit - 1 := by
  show ((if hiddenBit = hiddenBit ∧ -1074 < e then 4 * hiddenBit - 1
    else 4 * hiddenBit - 2 : ℕ) : ℚ) = _
  rw [if_pos ⟨rfl, he⟩]
  norm_num

@[simp]
theorem reach_high (m : ℕ) (e : ℤ) : ((reach m e).high : ℚ) = 4 * m + 2 := by
  show ((4 * m + 2 : ℕ) : ℚ) = _
  push_cast
  rfl

/-- The reach ends half a place below a number at the latest. -/
theorem le_reach_low (hm : 0 < m) : 4 * m - 2 ≤ ((reach m e).low : ℚ) := by
  by_cases hirr : m = hiddenBit ∧ -1074 < e
  · obtain ⟨rfl, he⟩ := hirr
    rw [reach_low_hiddenBit he]
    linarith
  · rw [reach_low_of_pos hm hirr]

theorem reach_low_le (m : ℕ) (e : ℤ) : (reach m e).low ≤ 4 * m := by
  show (if m = hiddenBit ∧ -1074 < e then 4 * m - 1 else 4 * m - 2) ≤ _
  split <;> omega

theorem reach_closed_iff : (reach m e).closed = true ↔ Even m := by
  show decide (m % 2 = 0) = true ↔ _
  rw [decide_eq_true_iff, Nat.even_iff]

theorem holds_pos (hm : 0 < m) (hq : (reach m e).Holds e q) : 2 ^ (e - 1) ≤ q := by
  have hunit : (0 : ℚ) < 2 ^ (e - 2) := zpow_pos (by norm_num) _
  have hm1 : (1 : ℚ) ≤ m := by exact_mod_cast hm
  calc (2 : ℚ) ^ (e - 1) = 2 * 2 ^ (e - 2) := zpow_sub_one_eq_two_quarters e
    _ ≤ (reach m e).low * 2 ^ (e - 2) := by
        apply mul_le_mul_of_nonneg_right _ hunit.le
        linarith [le_reach_low (e := e) hm]
    _ ≤ q := hq.le.1

theorem holds_lt (hm : m < 9007199254740992) (hq : (reach m e).Holds e q) : q < 2 ^ (53 + e) := by
  have hunit : (0 : ℚ) < 2 ^ (e - 2) := zpow_pos (by norm_num) _
  have hm1 : (m : ℚ) ≤ 9007199254740991 := by exact_mod_cast Nat.lt_succ_iff.mp hm
  calc q ≤ (4 * m + 2) * 2 ^ (e - 2) := by simpa using hq.le.2
    _ < 4 * 9007199254740992 * 2 ^ (e - 2) := mul_lt_mul_of_pos_right (by linarith) hunit
    _ = 2 ^ (53 + e) := by
        rw [zpow_add₀ (by norm_num), zpow_eq_four_quarters e]
        norm_num
        ring

/-- Inside the reach a number is at most half a place away, and less than that if it is odd. -/
theorem Reach.Holds.near (hm : 0 < m) (hq : (reach m e).Holds e q) :
    |q - (m : ℤ) * 2 ^ e| < 2 ^ e / 2 ∨ |q - (m : ℤ) * 2 ^ e| = 2 ^ e / 2 ∧ Even (m : ℤ) := by
  have hunit : (0 : ℚ) < 2 ^ (e - 2) := zpow_pos (by norm_num) _
  have hlow := mul_le_mul_of_nonneg_right (le_reach_low (e := e) hm) hunit.le
  rw [Int.cast_natCast, zpow_eq_four_quarters e, Int.even_coe_nat, ← reach_closed_iff (e := e)]
  rw [Reach.Holds, reach_high] at hq
  split at hq
  · rename_i hclosed
    refine (lt_or_eq_of_le ?_).imp_right fun h => ⟨h, hclosed⟩
    rw [abs_le]
    exact ⟨by linarith [hq.1], by linarith [hq.2]⟩
  · left
    rw [abs_lt]
    exact ⟨by linarith [hq.1], by linarith [hq.2]⟩

theorem zpow_eq_hiddenBit_quarters (e : ℤ) :
    (2 : ℚ) ^ (52 + e) = 4 * 4503599627370496 * 2 ^ (e - 2) := by
  rw [zpow_add₀ (by norm_num), zpow_eq_four_quarters e]
  norm_num
  ring

/-- Only a power of two reaches below its own binade. -/
theorem eq_hiddenBit_of_holds (h : IsStored m e) (he : e ≠ -1074) (hq : (reach m e).Holds e q)
    (hbelow : q < 2 ^ (52 + e)) : m = hiddenBit := by
  have hunit : (0 : ℚ) < 2 ^ (e - 2) := zpow_pos (by norm_num) _
  have hlow : hiddenBit ≤ m := h.full.resolve_right he
  by_contra hne
  have hm : 4503599627370497 ≤ m := lt_of_le_of_ne hlow (Ne.symm hne)
  have hm : (4503599627370497 : ℚ) ≤ m := by exact_mod_cast hm
  have hreach := hq.le.1
  rw [reach_low_of_pos h.pos fun hirr => hne hirr.1] at hreach
  rw [zpow_eq_hiddenBit_quarters] at hbelow
  nlinarith

/-- Below a power of two the places are half as large, and the reach ends after half of one. -/
theorem rounded_of_holds_below (he : -1074 < e) (hq : (reach hiddenBit e).Holds e q)
    (hbelow : q < 2 ^ (52 + e)) : rounded q = hiddenBit * 2 ^ e := by
  have hunit : (0 : ℚ) < 2 ^ (e - 2) := zpow_pos (by norm_num) _
  have hlow := hq.le.1
  rw [reach_low_hiddenBit he] at hlow
  push_cast at hlow
  have hgrid : gridExponent q = e - 1 := by
    apply gridExponent_eq (Or.inl ?_) ?_ (by omega)
    · rw [show 52 + (e - 1) = 51 + e by ring, zpow_add₀ (by norm_num), zpow_eq_four_quarters e]
      norm_num
      nlinarith
    · rwa [show 53 + (e - 1) = 52 + e by ring]
  have hnear : |q - (9007199254740992 : ℤ) * 2 ^ (e - 1)| ≤ 2 ^ (e - 1) / 2 := by
    rw [zpow_eq_hiddenBit_quarters] at hbelow
    rw [zpow_sub_one_eq_two_quarters, abs_le]
    push_cast
    exact ⟨by linarith, by linarith⟩
  rw [rounded_of_grid hgrid (hnear.lt_or_eq.imp_right fun h => ⟨h, by decide⟩),
    zpow_sub_one_eq_two_quarters, zpow_eq_four_quarters e]
  push_cast
  ring

/-- What lies in the reach of a number rounds to it. -/
theorem rounded_of_holds (h : IsStored m e) (hq : (reach m e).Holds e q) :
    rounded q = m * 2 ^ e := by
  have hpos : 0 < q := lt_of_lt_of_le (zpow_pos (by norm_num) _) (holds_pos h.pos hq)
  by_cases hbinade : 2 ^ (52 + e) ≤ q ∨ e = -1074
  · have hgrid :=
      gridExponent_eq (hbinade.imp_right fun he => ⟨he, hpos⟩) (holds_lt h.lt hq) h.least
    simpa using rounded_of_grid hgrid (hq.near h.pos)
  · rw [not_or, not_le] at hbinade
    obtain ⟨hbelow, he⟩ := hbinade
    obtain rfl := eq_hiddenBit_of_holds h he hq hbelow
    exact rounded_of_holds_below (lt_of_le_of_ne h.least (Ne.symm he)) hq hbelow

/-! ### Points of a decimal grid -/

/-- A power with an exponent of either sign, cleared of its denominator. -/
theorem pow_toNat_neg_mul_zpow {b : ℚ} (hb : b ≠ 0) (k : ℤ) :
    b ^ (-k).toNat * b ^ k = b ^ k.toNat := by
  rw [← zpow_natCast, ← zpow_natCast, ← zpow_add₀ hb]
  congr 1
  omega

/-- A quarter of a binary place and a step of the grid, as multiples of one small unit. -/
def gridScale (e grid : ℤ) : ℕ := Nat.pow 2 (e - 2).toNat * Nat.pow 10 (-grid).toNat

@[inherit_doc gridScale]
def gridStep (e grid : ℤ) : ℕ := Nat.pow 2 (2 - e).toNat * Nat.pow 10 grid.toNat

theorem gridScale_pos (e grid : ℤ) : 0 < gridScale e grid :=
  Nat.mul_pos (Nat.pow_pos (by norm_num)) (Nat.pow_pos (by norm_num))

theorem gridStep_pos (e grid : ℤ) : 0 < gridStep e grid :=
  Nat.mul_pos (Nat.pow_pos (by norm_num)) (Nat.pow_pos (by norm_num))

theorem gridStep_mul (e grid : ℤ) :
    (gridStep e grid : ℚ) * 2 ^ (e - 2) = gridScale e grid * 10 ^ grid := by
  have htwo := pow_toNat_neg_mul_zpow (b := 2) (by norm_num) (e - 2)
  have hten := pow_toNat_neg_mul_zpow (b := 10) (by norm_num) grid
  rw [neg_sub] at htwo
  show ((2 ^ (2 - e).toNat * 10 ^ grid.toNat : ℕ) : ℚ) * 2 ^ (e - 2) =
    (2 ^ (e - 2).toNat * 10 ^ (-grid).toNat : ℕ) * 10 ^ grid
  push_cast
  rw [← htwo, ← hten]
  ring

/-- How many of the small units make a whole one. -/
def gridUnits (e grid : ℤ) : ℚ := gridScale e grid / 2 ^ (e - 2)

theorem gridUnits_pos (e grid : ℤ) : 0 < gridUnits e grid :=
  div_pos (by exact_mod_cast gridScale_pos e grid) (zpow_pos (by norm_num) _)

theorem cast_quarters (e grid : ℤ) (k : ℕ) :
    ((k * gridScale e grid : ℕ) : ℚ) = gridUnits e grid * (k * 2 ^ (e - 2)) := by
  have hunit : (2 : ℚ) ^ (e - 2) ≠ 0 := zpow_ne_zero _ (by norm_num)
  rw [gridUnits]
  push_cast
  field_simp

theorem cast_gridPoint (e grid : ℤ) (n : ℕ) :
    ((n * gridStep e grid : ℕ) : ℚ) = gridUnits e grid * Decimal.value ⟨n, grid⟩ := by
  have hunit : (2 : ℚ) ^ (e - 2) ≠ 0 := zpow_ne_zero _ (by norm_num)
  rw [gridUnits, Decimal.value, div_mul_eq_mul_div, eq_div_iff hunit]
  push_cast
  linear_combination (n : ℚ) * gridStep_mul e grid

theorem quarters_le_iff (k n : ℕ) : k * gridScale e grid ≤ n * gridStep e grid ↔
    (k : ℚ) * 2 ^ (e - 2) ≤ Decimal.value ⟨n, grid⟩ := by
  rw [← Nat.cast_le (α := ℚ), cast_quarters, cast_gridPoint,
    mul_le_mul_iff_of_pos_left (gridUnits_pos e grid)]

theorem le_quarters_iff (k n : ℕ) : n * gridStep e grid ≤ k * gridScale e grid ↔
    Decimal.value ⟨n, grid⟩ ≤ (k : ℚ) * 2 ^ (e - 2) := by
  rw [← Nat.cast_le (α := ℚ), cast_quarters, cast_gridPoint,
    mul_le_mul_iff_of_pos_left (gridUnits_pos e grid)]

/-- A grid point is inside exactly if the decimal lies in the reach. -/
theorem inside_iff (r : Reach) (n : ℕ) :
    (if r.closed then
        decide (r.low * gridScale e grid ≤ n * gridStep e grid ∧
          n * gridStep e grid ≤ r.high * gridScale e grid)
      else
        decide (r.low * gridScale e grid < n * gridStep e grid ∧
          n * gridStep e grid < r.high * gridScale e grid)) = true ↔
      r.Holds e (Decimal.value ⟨n, grid⟩) := by
  rw [Reach.Holds]
  split
  · rw [decide_eq_true_iff, quarters_le_iff, le_quarters_iff]
  · rw [decide_eq_true_iff, ← not_le, ← not_le, quarters_le_iff, le_quarters_iff, not_le, not_le]

/-- What is found on a grid lies in the reach. -/
theorem holds_of_nearestOnGrid (h : nearestOnGrid m e grid = some d) :
    (reach m e).Holds e d.value := by
  unfold nearestOnGrid at h
  simp only at h
  split at h
  · rename_i hbelow habove
    obtain rfl := Option.some.inj h
    split
    · exact (inside_iff _ _).mp hbelow
    · exact (inside_iff _ _).mp habove
  · rename_i hbelow habove
    obtain rfl := Option.some.inj h
    exact (inside_iff _ _).mp hbelow
  · rename_i hbelow habove
    obtain rfl := Option.some.inj h
    exact (inside_iff _ _).mp habove
  · cases h

/-- Where a grid has no point in the reach, its step spans the reach. -/
theorem reach_le_step (hnone : nearestOnGrid m e grid = none) :
    (((reach m e).high : ℚ) - (reach m e).low) * 2 ^ (e - 2) ≤ 10 ^ grid := by
  have hunit : (0 : ℚ) < 2 ^ (e - 2) := zpow_pos (by norm_num) _
  -- the grid points on both sides of the number
  set below := 4 * m * gridScale e grid / gridStep e grid with hdef
  have hle : Decimal.value ⟨below, grid⟩ ≤ (4 * m : ℕ) * 2 ^ (e - 2) :=
    (le_quarters_iff (4 * m) below).mp (Nat.div_mul_le_self _ _)
  have hlt : (4 * m : ℕ) * 2 ^ (e - 2) < Decimal.value ⟨below + 1, grid⟩ := by
    rw [← not_le, ← le_quarters_iff, not_le]
    exact Nat.lt_mul_of_div_lt (Nat.lt_succ_self _) (gridStep_pos e grid)
  obtain ⟨hbelow, habove⟩ : ¬ (reach m e).Holds e (Decimal.value ⟨below, grid⟩) ∧
      ¬ (reach m e).Holds e (Decimal.value ⟨below + 1, grid⟩) := by
    rw [← inside_iff, ← inside_iff]
    unfold nearestOnGrid at hnone
    simp only at hnone
    split at hnone
    · cases hnone
    · cases hnone
    · cases hnone
    · rename_i hbelow habove
      exact ⟨Bool.not_eq_true _ ▸ hbelow, Bool.not_eq_true _ ▸ habove⟩
  have hhigh : ((4 * m : ℕ) : ℚ) * 2 ^ (e - 2) < (reach m e).high * 2 ^ (e - 2) :=
    mul_lt_mul_of_pos_right (by rw [reach_high]; push_cast; linarith) hunit
  have hlow : ((reach m e).low : ℚ) * 2 ^ (e - 2) ≤ (4 * m : ℕ) * 2 ^ (e - 2) :=
    mul_le_mul_of_nonneg_right (by exact_mod_cast reach_low_le m e) hunit.le
  have hfrom : Decimal.value ⟨below, grid⟩ ≤ (reach m e).low * 2 ^ (e - 2) := by
    by_contra h
    exact hbelow (Reach.holds_of_lt (not_le.mp h) (hle.trans_lt hhigh))
  have hto : (reach m e).high * 2 ^ (e - 2) ≤ Decimal.value ⟨below + 1, grid⟩ := by
    by_contra h
    exact habove (Reach.holds_of_lt (hlow.trans_lt hlt) (not_le.mp h))
  have hstep : Decimal.value ⟨below + 1, grid⟩ = Decimal.value ⟨below, grid⟩ + 10 ^ grid := by
    rw [Decimal.value, Decimal.value]
    push_cast
    ring
  linarith

/-- Sixteen decimal places after the first are finer than the reach is wide. -/
theorem exists_nearestOnGrid (h : IsStored m e) (hgrid : 10 ^ grid * 10 ^ 16 ≤ (m : ℚ) * 2 ^ e) :
    ∃ d, nearestOnGrid m e grid = some d := by
  have hunit : (0 : ℚ) < 2 ^ (e - 2) := zpow_pos (by norm_num) _
  have hm : (m : ℚ) < 9007199254740992 := by exact_mod_cast h.lt
  rw [← Option.isSome_iff_exists, Option.isSome_iff_ne_none]
  intro hnone
  have hspan := reach_le_step hnone
  rw [zpow_eq_four_quarters] at hgrid
  rw [reach_high] at hspan
  by_cases hirr : m = hiddenBit ∧ -1074 < e
  · obtain ⟨rfl, he⟩ := hirr
    rw [reach_low_hiddenBit he] at hspan
    push_cast at hspan hgrid
    nlinarith
  · rw [reach_low_of_pos h.pos hirr] at hspan
    nlinarith

/-! ### The first digit -/

/-- Powers of ten and two are compared through a fraction `a / b` of the exponents. -/
theorem ten_zpow_le_of_fraction {a b : ℕ} {g n : ℤ} (hb : b ≠ 0) (h : g * b ≤ a * n)
    (hpow : ((10 : ℚ) ^ a) ^ n ≤ (2 ^ b) ^ n) : (10 : ℚ) ^ g ≤ 2 ^ n := by
  rw [← pow_le_pow_iff_left₀ (zpow_nonneg (by norm_num) g) (zpow_nonneg (by norm_num) n) hb]
  calc ((10 : ℚ) ^ g) ^ b = 10 ^ (g * b) := by rw [zpow_mul, zpow_natCast]
    _ ≤ 10 ^ (a * n : ℤ) := zpow_le_zpow_right₀ (by norm_num) h
    _ = (10 ^ a) ^ n := by rw [zpow_mul, zpow_natCast]
    _ ≤ (2 ^ b) ^ n := hpow
    _ = (2 ^ n) ^ b := by rw [← zpow_natCast, ← zpow_natCast, ← zpow_mul, ← zpow_mul, mul_comm]

/-- The factor `0.30103` is a little above the logarithm of two, which whole exponents in this range
do not notice. -/
theorem ten_zpow_le_two_zpow {g n : ℤ} (hlow : -2222 < n) (hhigh : n < 12500)
    (h : g * 100000 ≤ n * 30103) : (10 : ℚ) ^ g ≤ 2 ^ n := by
  rcases le_or_gt 0 n with hn | hn
  · have hbase : 10 ^ 643 ≤ 2 ^ 2136 := by decide +kernel
    apply ten_zpow_le_of_fraction (a := 643) (b := 2136) (by norm_num) (by push_cast; omega)
    exact zpow_le_zpow_left₀ hn (by positivity) (by exact_mod_cast hbase)
  · have hbase : 2 ^ 485 ≤ 10 ^ 146 := by decide +kernel
    apply ten_zpow_le_of_fraction (a := 146) (b := 485) (by norm_num) (by push_cast; omega)
    rw [← neg_neg n, zpow_neg, zpow_neg _ (-n)]
    apply inv_anti₀ (by positivity)
    exact zpow_le_zpow_left₀ (by omega) (by positivity) (by exact_mod_cast hbase)

/-- The first digit does not stand below the position that is computed. -/
theorem ten_zpow_decimalExponent_le (hm : 0 < m) (hlow : -2222 < m.log2 + e)
    (hhigh : m.log2 + e < 12500) : (10 : ℚ) ^ decimalExponent m e ≤ m * 2 ^ e := by
  unfold decimalExponent
  simp only
  set guess := Int.fdiv ((m.log2 + e) * 30103) 100000 with hguess
  split
  · rename_i h
    have hcast : (10 : ℚ) ^ (guess + 1).toNat * 2 ^ (-e).toNat ≤
        m * 2 ^ e.toNat * 10 ^ (-(guess + 1)).toNat := by exact_mod_cast h
    rw [← pow_toNat_neg_mul_zpow (b := 2) (by norm_num) e,
      ← pow_toNat_neg_mul_zpow (b := 10) (by norm_num) (guess + 1)] at hcast
    have hten : (0 : ℚ) < 10 ^ (-(guess + 1)).toNat := by positivity
    have htwo : (0 : ℚ) < 2 ^ (-e).toNat := by positivity
    rw [← mul_le_mul_iff_of_pos_right (mul_pos hten htwo)]
    linarith
  · calc (10 : ℚ) ^ guess ≤ 2 ^ (m.log2 + e : ℤ) := by
          apply ten_zpow_le_two_zpow hlow hhigh
          rw [hguess, Int.fdiv_eq_ediv_of_nonneg _ (by norm_num)]
          exact Int.ediv_mul_le _ (by norm_num)
      _ = 2 ^ m.log2 * 2 ^ e := by rw [zpow_add₀ (by norm_num), zpow_natCast]
      _ ≤ m * 2 ^ e := by
          apply mul_le_mul_of_nonneg_right _ (zpow_nonneg (by norm_num) e)
          exact_mod_cast Nat.log2_self_le hm.ne'

/-! ### The search -/

/-- The search ends in the reach if the last grid it tries has a point there. -/
theorem holds_shortestFrom {first : ℤ} {fuel count : ℕ}
    (h : ∃ d, nearestOnGrid m e (first + 1 - (count + fuel : ℕ)) = some d) :
    (reach m e).Holds e (shortestFrom m e first (fuel + 1) count).value := by
  induction fuel generalizing count with
  | zero =>
    obtain ⟨d, hd⟩ := h
    rw [shortestFrom]
    rw [Nat.add_zero] at hd
    rw [hd]
    exact holds_of_nearestOnGrid hd
  | succ fuel ih =>
    rw [shortestFrom]
    split
    · rename_i d hd
      exact holds_of_nearestOnGrid hd
    · apply ih
      rwa [show count + 1 + fuel = count + (fuel + 1) by omega]

@[simp]
theorem Decimal.value_stripZeros (fuel : ℕ) (d : Decimal) :
    (stripZeros fuel d).value = d.value := by
  induction fuel generalizing d with
  | zero => rfl
  | succ fuel ih =>
    rw [stripZeros]
    split
    · rename_i h
      rw [ih, value, value, zpow_add_one₀ (by norm_num)]
      have : (d.digits : ℚ) = 10 * (d.digits / 10 : ℕ) := by exact_mod_cast (by omega)
      rw [this]
      ring
    · rfl

/-- The shortest decimal lies in the reach of the number. -/
theorem holds_shortest (h : IsStored m e) : (reach m e).Holds e (shortest m e).value := by
  rw [shortest, if_neg h.pos.ne', Decimal.value_stripZeros]
  apply holds_shortestFrom
  apply exists_nearestOnGrid h
  have hlog : m.log2 < 53 := (Nat.log2_lt h.pos.ne').mpr h.lt
  have hfirst := ten_zpow_decimalExponent_le h.pos (e := e) (by have := h.least; omega)
    (by have := h.greatest; omega)
  refine le_trans (le_of_eq ?_) hfirst
  rw [← zpow_natCast, ← zpow_add₀ (by norm_num)]
  congr 1
  push_cast
  ring

/-- The shortest decimal rounds to the number. -/
theorem rounded_shortest (h : IsStored m e) : rounded (shortest m e).value = m * 2 ^ e :=
  rounded_of_holds h (holds_shortest h)

end EffectTiming.Binary64
