import Mathlib

/-!
# Rounding to binary64

The numbers of the format are the multiples `m · 2 ^ e` with `|m| < 2 ^ 53` and `-1074 ≤ e`.
`rounded` takes a rational number to the nearest of them and a tie to the one with the even
significand. There is no upper end here: whether a result is too large for the format is asked of
`rounded q` afterwards.

Rounding is odd and monotone, leaves the numbers of the format alone, and moves every other number
by at most one part in `2 ^ 53` of any bound on it.
-/

namespace EffectTiming.Binary64

/-! ### The nearest whole number -/

/-- The whole number nearest to `q`; a half goes to the even neighbour. -/
def nearestEven (q : ℚ) : ℤ :=
  if 2 * Int.fract q < 1 ∨ (2 * Int.fract q = 1 ∧ Even ⌊q⌋) then ⌊q⌋ else ⌊q⌋ + 1

/-- The nearest whole number is known by its distance, and at a tie by being even. -/
theorem nearestEven_eq {q : ℚ} {k : ℤ} (h : |q - k| < 1 / 2 ∨ |q - k| = 1 / 2 ∧ Even k) :
    nearestEven q = k := by
  have hle : |q - k| ≤ 1 / 2 := h.elim le_of_lt fun h => h.1.le
  obtain ⟨hlo, hhi⟩ := abs_le.mp hle
  have hfract : (⌊q⌋ : ℚ) + Int.fract q = q := Int.floor_add_fract q
  have h0 := Int.fract_nonneg q
  have h1 := Int.fract_lt_one q
  by_cases hk : (k : ℚ) ≤ q
  · -- `k` is the floor
    have hfl : ⌊q⌋ = k := Int.floor_eq_iff.mpr ⟨hk, by linarith⟩
    rw [hfl] at hfract
    have habs : |q - k| = Int.fract q := by
      rw [abs_of_nonneg (by linarith)]
      linarith
    rw [nearestEven, hfl, if_pos]
    rw [habs] at h
    rcases h with h | ⟨h, heven⟩
    · left
      linarith
    · right
      exact ⟨by linarith, heven⟩
  · -- `k` is one above the floor
    have hfl : ⌊q⌋ = k - 1 := by
      refine Int.floor_eq_iff.mpr ⟨?_, ?_⟩
      · push_cast
        linarith
      · push_cast
        linarith
    rw [hfl] at hfract
    push_cast at hfract
    have habs : |q - k| = 1 - Int.fract q := by
      rw [abs_of_nonpos (by linarith)]
      linarith
    rw [nearestEven, hfl, if_neg]
    · ring
    · rw [habs] at h
      rintro (hlt | ⟨heq, heven⟩)
      · linarith
      · rcases h with h | ⟨-, hk'⟩
        · linarith
        · exact (Int.even_sub_one.mp heven) hk'

/-- The nearest whole number is not more than a half away. -/
theorem abs_nearestEven_sub_le (q : ℚ) : |nearestEven q - q| ≤ 1 / 2 := by
  have hfract : (⌊q⌋ : ℚ) + Int.fract q = q := Int.floor_add_fract q
  have h0 := Int.fract_nonneg q
  have h1 := Int.fract_lt_one q
  rw [nearestEven]
  split
  · next h =>
    have : 2 * Int.fract q ≤ 1 := h.elim le_of_lt fun h => h.1.le
    exact abs_le.mpr ⟨by linarith, by linarith⟩
  · next h =>
    push Not at h
    push_cast
    exact abs_le.mpr ⟨by linarith [h.1], by linarith [h.1]⟩

@[simp]
theorem nearestEven_intCast (k : ℤ) : nearestEven k = k :=
  nearestEven_eq (Or.inl (by norm_num))

@[simp]
theorem nearestEven_zero : nearestEven 0 = 0 := by
  simpa using nearestEven_intCast 0

/-- A tie is broken in favour of an even number. -/
theorem even_nearestEven {q : ℚ} (h : |nearestEven q - q| = 1 / 2) : Even (nearestEven q) := by
  have hfract : (⌊q⌋ : ℚ) + Int.fract q = q := Int.floor_add_fract q
  rw [nearestEven] at h ⊢
  split
  · next hlow =>
    rw [if_pos hlow] at h
    rcases hlow with hlt | ⟨-, heven⟩
    · have : |(⌊q⌋ : ℚ) - q| = Int.fract q := by
        rw [abs_of_nonpos (by linarith [Int.fract_nonneg q])]
        linarith
      linarith
    · exact heven
  · next hhigh =>
    rw [if_neg hhigh] at h
    push Not at hhigh
    have hdist : |((⌊q⌋ + 1 : ℤ) : ℚ) - q| = 1 - Int.fract q := by
      push_cast
      rw [abs_of_nonneg (by linarith [Int.fract_lt_one q])]
      linarith
    have hodd : ¬ Even ⌊q⌋ := hhigh.2 (by linarith)
    exact Int.even_add_one.mpr hodd

theorem nearestEven_neg (q : ℚ) : nearestEven (-q) = -nearestEven q := by
  apply nearestEven_eq
  have habs : |-q - ((-nearestEven q : ℤ) : ℚ)| = |nearestEven q - q| := by
    push_cast
    congr 1
    ring
  rw [habs]
  rcases (abs_nearestEven_sub_le q).lt_or_eq with h | h
  · exact Or.inl h
  · exact Or.inr ⟨h, (even_nearestEven h).neg⟩

theorem nearestEven_mono {p q : ℚ} (h : p ≤ q) : nearestEven p ≤ nearestEven q := by
  by_contra hlt
  have hstep : nearestEven q + 1 ≤ nearestEven p := by omega
  have hstep' : (nearestEven q : ℚ) + 1 ≤ nearestEven p := by exact_mod_cast hstep
  obtain ⟨-, hp⟩ := abs_le.mp (abs_nearestEven_sub_le p)
  obtain ⟨hq, -⟩ := abs_le.mp (abs_nearestEven_sub_le q)
  -- both distances are exactly a half, so `p = q`
  have hpq : p = q := by linarith
  subst hpq
  omega

/-- Rounding does not cross a whole number. -/
theorem le_nearestEven {q : ℚ} {k : ℤ} (h : (k : ℚ) ≤ q) : k ≤ nearestEven q := by
  simpa using nearestEven_mono h

theorem nearestEven_le {q : ℚ} {k : ℤ} (h : q ≤ k) : nearestEven q ≤ k := by
  simpa using nearestEven_mono h

/-! ### The numbers of the format -/

/-- `x` is a number of the format, up to the size of its exponent. -/
def Representable (x : ℚ) : Prop :=
  ∃ m e : ℤ, |m| < 9007199254740992 ∧ -1074 ≤ e ∧ x = m * 2 ^ e

theorem Representable.neg {x : ℚ} (h : Representable x) : Representable (-x) := by
  obtain ⟨m, e, hm, he, rfl⟩ := h
  exact ⟨-m, e, by rwa [abs_neg], he, by push_cast; ring⟩

/-- The significand may reach `2 ^ 53`, which is a power of two again. -/
theorem representable_of_le {m e : ℤ} (hm : |m| ≤ 9007199254740992) (he : -1074 ≤ e) :
    Representable (m * 2 ^ e) := by
  rcases hm.lt_or_eq with hm | hm
  · exact ⟨m, e, hm, he, rfl⟩
  · have hone : (2 : ℚ) ^ (e + 1) = 2 ^ e * 2 := by
      rw [zpow_add₀ (by norm_num), zpow_one]
    rcases (abs_eq (by norm_num)).mp hm with rfl | rfl
    · refine ⟨4503599627370496, e + 1, by norm_num, by omega, ?_⟩
      rw [hone]
      push_cast
      ring
    · refine ⟨-4503599627370496, e + 1, by norm_num, by omega, ?_⟩
      rw [hone]
      push_cast
      ring

theorem representable_intCast {m : ℤ} (hm : |m| ≤ 9007199254740992) : Representable m := by
  simpa using representable_of_le hm (show (-1074 : ℤ) ≤ 0 by norm_num)

@[simp]
theorem representable_zero : Representable 0 := by
  simpa using representable_intCast (m := 0) (by norm_num)

@[simp]
theorem representable_one : Representable 1 := by
  simpa using representable_intCast (m := 1) (by norm_num)

theorem representable_zpow {e : ℤ} (he : -1074 ≤ e) : Representable (2 ^ e) := by
  simpa using representable_of_le (m := 1) (by norm_num) he

/-! ### Rounding -/

/-- The exponent of the last place of the significand that a number gets. -/
def gridExponent (q : ℚ) : ℤ := max (Int.log 2 |q| - 52) (-1074)

/-- The number of the format nearest to `q`, with ties to even. -/
def rounded (q : ℚ) : ℚ := nearestEven (q / 2 ^ gridExponent q) * 2 ^ gridExponent q

theorem neg_le_gridExponent (q : ℚ) : -1074 ≤ gridExponent q := le_max_right _ _

@[simp]
theorem gridExponent_neg (q : ℚ) : gridExponent (-q) = gridExponent q := by
  rw [gridExponent, abs_neg, gridExponent]

@[simp]
theorem rounded_zero : rounded 0 = 0 := by
  rw [rounded, zero_div, nearestEven_zero, Int.cast_zero, zero_mul]

theorem rounded_neg (q : ℚ) : rounded (-q) = -rounded q := by
  rw [rounded, rounded, gridExponent_neg, neg_div, nearestEven_neg]
  push_cast
  ring

/-- In units of its last place a number has at most fifty-three binary places. -/
theorem abs_div_grid_lt (q : ℚ) : |q / 2 ^ gridExponent q| < 9007199254740992 := by
  have hpos : (0 : ℚ) < 2 ^ gridExponent q := zpow_pos (by norm_num) _
  rw [abs_div, abs_of_pos hpos, div_lt_iff₀ hpos]
  calc |q| < 2 ^ (Int.log 2 |q| + 1) := Int.lt_zpow_succ_log_self (by norm_num) _
    _ ≤ 2 ^ (53 + gridExponent q) := by
      apply zpow_le_zpow_right₀ (by norm_num)
      rw [gridExponent]
      omega
    _ = 9007199254740992 * 2 ^ gridExponent q := by
      rw [zpow_add₀ (by norm_num)]
      norm_num

/-- A number whose unit is not the finest one has exactly fifty-three places. -/
theorem le_abs_div_grid {q : ℚ} (hq : q ≠ 0) (h : gridExponent q ≠ -1074) :
    4503599627370496 ≤ |q / 2 ^ gridExponent q| := by
  have hpos : (0 : ℚ) < 2 ^ gridExponent q := zpow_pos (by norm_num) _
  have hgrid : gridExponent q = Int.log 2 |q| - 52 := by
    rw [gridExponent] at h ⊢
    omega
  rw [abs_div, abs_of_pos hpos, le_div_iff₀ hpos]
  calc 4503599627370496 * 2 ^ gridExponent q = (2 : ℚ) ^ (52 + gridExponent q) := by
        rw [zpow_add₀ (by norm_num)]
        norm_num
    _ = 2 ^ Int.log 2 |q| := by
        rw [hgrid]
        congr 1
        ring
    _ ≤ |q| := by exact_mod_cast Int.zpow_log_le_self (b := 2) (by norm_num) (abs_pos.mpr hq)

theorem representable_rounded (q : ℚ) : Representable (rounded q) := by
  have h := (abs_div_grid_lt q).le
  rw [abs_le] at h
  apply representable_of_le _ (neg_le_gridExponent q)
  rw [abs_le]
  exact ⟨le_nearestEven (by push_cast; linarith), nearestEven_le (by push_cast; linarith)⟩

/-- The last place of a number of the format is not finer than the number itself. -/
theorem rounded_of_representable {x : ℚ} (h : Representable x) : rounded x = x := by
  obtain ⟨m, e, hm, he, rfl⟩ := h
  rcases eq_or_ne m 0 with rfl | hm0
  · simp
  set g := gridExponent ((m : ℚ) * 2 ^ e) with hg
  have hge : g ≤ e := by
    rw [hg, gridExponent]
    apply max_le _ he
    have habs : |(m : ℚ) * 2 ^ e| < 2 ^ (53 + e) := by
      rw [abs_mul, abs_of_pos (zpow_pos (by norm_num) e : (0 : ℚ) < 2 ^ e),
        zpow_add₀ (by norm_num)]
      apply mul_lt_mul_of_pos_right _ (zpow_pos (by norm_num) e)
      have : (|m| : ℚ) < 9007199254740992 := by exact_mod_cast hm
      norm_num
      linarith
    have hpos : (0 : ℚ) < |(m : ℚ) * 2 ^ e| := by
      apply abs_pos.mpr
      exact mul_ne_zero (by exact_mod_cast hm0) (zpow_ne_zero _ (by norm_num))
    have hlog := (Int.lt_zpow_iff_log_lt (b := 2) (by norm_num) hpos).mp (by exact_mod_cast habs)
    omega
  -- dividing by the finer unit leaves a whole number
  have hdiv : (m : ℚ) * 2 ^ e / 2 ^ g = ((m * 2 ^ (e - g).toNat : ℤ) : ℚ) := by
    rw [mul_div_assoc, ← zpow_sub₀ (by norm_num)]
    push_cast
    congr 1
    rw [← zpow_natCast]
    congr 1
    omega
  rw [rounded, ← hg, hdiv, nearestEven_intCast, ← hdiv]
  exact div_mul_cancel₀ _ (zpow_ne_zero _ (by norm_num))

theorem rounded_nonneg {q : ℚ} (h : 0 ≤ q) : 0 ≤ rounded q := by
  have hpos : (0 : ℚ) < 2 ^ gridExponent q := zpow_pos (by norm_num) _
  have : (0 : ℤ) ≤ nearestEven (q / 2 ^ gridExponent q) :=
    le_nearestEven (by push_cast; exact div_nonneg h hpos.le)
  exact mul_nonneg (by exact_mod_cast this) hpos.le

/-- A power of two above a grid lies on it. -/
theorem zpow_eq_mul_grid {g k : ℤ} (h : g ≤ k) :
    (2 : ℚ) ^ k = ((2 ^ (k - g).toNat : ℤ) : ℚ) * 2 ^ g := by
  push_cast
  rw [← zpow_natCast, ← zpow_add₀ (by norm_num)]
  congr 1
  omega

theorem rounded_le_zpow {p : ℚ} {k : ℤ} (hgrid : gridExponent p ≤ k) (h : p ≤ 2 ^ k) :
    rounded p ≤ 2 ^ k := by
  have hpos : (0 : ℚ) < 2 ^ gridExponent p := zpow_pos (by norm_num) _
  have hwhole : nearestEven (p / 2 ^ gridExponent p) ≤ 2 ^ (k - gridExponent p).toNat := by
    apply nearestEven_le
    rwa [div_le_iff₀ hpos, ← zpow_eq_mul_grid hgrid]
  rw [rounded, zpow_eq_mul_grid hgrid]
  apply mul_le_mul_of_nonneg_right _ hpos.le
  exact_mod_cast hwhole

theorem zpow_le_rounded {p : ℚ} {k : ℤ} (hgrid : gridExponent p ≤ k) (h : 2 ^ k ≤ p) :
    2 ^ k ≤ rounded p := by
  have hpos : (0 : ℚ) < 2 ^ gridExponent p := zpow_pos (by norm_num) _
  have hwhole : 2 ^ (k - gridExponent p).toNat ≤ nearestEven (p / 2 ^ gridExponent p) := by
    apply le_nearestEven
    rwa [le_div_iff₀ hpos, ← zpow_eq_mul_grid hgrid]
  rw [rounded, zpow_eq_mul_grid hgrid]
  apply mul_le_mul_of_nonneg_right _ hpos.le
  exact_mod_cast hwhole

/-- Monotonicity for numbers that are not negative. Two numbers on different grids have a power of
two between them, which both grids contain. -/
theorem rounded_mono_of_nonneg {p q : ℚ} (hp : 0 ≤ p) (h : p ≤ q) : rounded p ≤ rounded q := by
  rcases hp.eq_or_lt with rfl | hppos
  · rw [rounded_zero]
    exact rounded_nonneg h
  have hqpos : 0 < q := lt_of_lt_of_le hppos h
  have hlog : Int.log 2 |p| ≤ Int.log 2 |q| := by
    rw [abs_of_pos hppos, abs_of_pos hqpos]
    exact Int.log_mono_right hppos h
  by_cases hgrid : gridExponent p = gridExponent q
  · -- one grid: compare whole numbers
    have hpos : (0 : ℚ) < 2 ^ gridExponent q := zpow_pos (by norm_num) _
    rw [rounded, rounded, hgrid]
    apply mul_le_mul_of_nonneg_right _ hpos.le
    exact_mod_cast nearestEven_mono (div_le_div_of_nonneg_right h hpos.le)
  · -- two grids: go through the power of two at which the coarser one starts
    have hlt : gridExponent p < gridExponent q := by
      apply lt_of_le_of_ne _ hgrid
      rw [gridExponent, gridExponent]
      omega
    have hqgrid : gridExponent q = Int.log 2 |q| - 52 := by
      have := neg_le_gridExponent p
      rw [gridExponent] at hlt this ⊢
      rw [gridExponent] at hlt
      omega
    have hplt : p < 2 ^ Int.log 2 |q| := by
      have hlogp : Int.log 2 p < Int.log 2 |q| := by
        rw [hqgrid, gridExponent, abs_of_pos hppos] at hlt
        omega
      exact_mod_cast (Int.lt_zpow_iff_log_lt (b := 2) (by norm_num) hppos).mpr hlogp
    have hqge : 2 ^ Int.log 2 |q| ≤ q := by
      have := Int.zpow_log_le_self (b := 2) (by norm_num) hqpos
      rw [abs_of_pos hqpos]
      exact_mod_cast this
    calc rounded p ≤ 2 ^ Int.log 2 |q| := rounded_le_zpow (by omega) hplt.le
      _ ≤ rounded q := zpow_le_rounded (by omega) hqge

/-- Rounding is monotone. -/
theorem rounded_mono {p q : ℚ} (h : p ≤ q) : rounded p ≤ rounded q := by
  rcases le_total 0 p with hp | hp
  · exact rounded_mono_of_nonneg hp h
  · rcases le_total 0 q with hq | hq
    · have hneg : 0 ≤ rounded (-p) := rounded_nonneg (by linarith)
      rw [rounded_neg] at hneg
      linarith [rounded_nonneg hq]
    · have := rounded_mono_of_nonneg (p := -q) (q := -p) (by linarith) (by linarith)
      rw [rounded_neg, rounded_neg] at this
      linarith

/-- A number of the format is not passed by rounding. -/
theorem le_rounded {x q : ℚ} (hx : Representable x) (h : x ≤ q) : x ≤ rounded q := by
  rw [← rounded_of_representable hx]
  exact rounded_mono h

theorem rounded_le {x q : ℚ} (hx : Representable x) (h : q ≤ x) : rounded q ≤ x := by
  rw [← rounded_of_representable hx]
  exact rounded_mono h

theorem abs_rounded_le {x q : ℚ} (hx : Representable x) (h : |q| ≤ x) : |rounded q| ≤ x := by
  obtain ⟨hlo, hhi⟩ := abs_le.mp h
  exact abs_le.mpr ⟨le_rounded hx.neg hlo, rounded_le hx hhi⟩

/-- Rounding moves a number by at most half a unit in its last place. -/
theorem abs_rounded_sub_le_half_grid (q : ℚ) : |rounded q - q| ≤ 2 ^ gridExponent q / 2 := by
  have hpos : (0 : ℚ) < 2 ^ gridExponent q := zpow_pos (by norm_num) _
  have hsplit : rounded q - q =
      (nearestEven (q / 2 ^ gridExponent q) - q / 2 ^ gridExponent q) * 2 ^ gridExponent q := by
    rw [rounded, sub_mul, div_mul_cancel₀ _ hpos.ne']
  rw [hsplit, abs_mul, abs_of_pos hpos]
  have := mul_le_mul_of_nonneg_right (abs_nearestEven_sub_le (q / 2 ^ gridExponent q)) hpos.le
  linarith

/-- Rounding moves a number by at most one part in `2 ^ 53` of a bound on it, as long as the bound
is no subnormal number. -/
theorem abs_rounded_sub_le {q b : ℚ} (hq : |q| ≤ b) (hb : 2 ^ (-1022 : ℤ) ≤ b) :
    |rounded q - q| ≤ b * 2 ^ (-53 : ℤ) := by
  have hbpos : 0 ≤ b := (abs_nonneg q).trans hq
  rcases eq_or_ne q 0 with rfl | hq0
  · rw [rounded_zero, sub_zero, abs_zero]
    exact mul_nonneg hbpos (zpow_nonneg (by norm_num) _)
  refine (abs_rounded_sub_le_half_grid q).trans ?_
  have hhalf : (2 : ℚ) ^ gridExponent q / 2 = 2 ^ (gridExponent q + 52) * 2 ^ (-53 : ℤ) := by
    rw [← zpow_add₀ (by norm_num), div_eq_mul_inv, ← zpow_neg_one, ← zpow_add₀ (by norm_num)]
    congr 1
    ring
  rw [hhalf]
  apply mul_le_mul_of_nonneg_right _ (zpow_nonneg (by norm_num) _)
  rcases le_total (-1074) (Int.log 2 |q| - 52) with hlog | hlog
  · -- a normal number: the grid follows its binade
    have hself := Int.zpow_log_le_self (b := 2) (by norm_num) (abs_pos.mpr hq0)
    rw [gridExponent, max_eq_left hlog, sub_add_cancel]
    exact_mod_cast hself.trans hq
  · rw [gridExponent, max_eq_right hlog]
    exact hb

end EffectTiming.Binary64
