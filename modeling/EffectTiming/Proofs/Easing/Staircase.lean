import Mathlib
import EffectTiming.Proofs.Binary64.Neighbours
import EffectTiming.Proofs.Easing.Finite

/-!
# Staircases climb from zero to one

The height of a step function over a number of the unit interval is a quotient of two numbers of the
format: the index of the step, cut off at zero and at the number of jumps, and the number of jumps.
All roundings on the way are monotone, so the heights climb. They start at zero and end at one
unless a jump at both ends leads beyond the numbers that can be counted: the number of jumps is one
more than that of the steps, and it may be no word any more, or be rounded up where the last index
is not.

## Main statements

* `Staircase.hasValue_eval`: the exact height.
* `Staircase.climbs_iff`: the heights climb from zero to one exactly if the last index reaches the
  number of jumps.
-/

namespace EffectTiming

open Binary64

/-! ### Indices -/

namespace Staircase

variable {s : Staircase} {x y : Float} {first before : Bool} {k z w q N J : ℚ}

/-- The index of a step, one higher if the function jumps at the start of a step. -/
def raised (first : Bool) (k : ℚ) : ℚ := if first then rounded (k + 1) else k

/-- The index over the scaled number `z`; from below, a jump has not been made yet. -/
def index (first before : Bool) (z : ℚ) : ℚ :=
  if before ∧ (⌊z⌋ : ℚ) = z then rounded (raised first ⌊z⌋ - 1) else raised first ⌊z⌋

theorem index_false (first : Bool) (z : ℚ) : index first false z = raised first ⌊z⌋ := by
  rw [index, if_neg]
  simp

theorem index_of_whole (first : Bool) (h : (⌊z⌋ : ℚ) = z) :
    index first true z = rounded (raised first ⌊z⌋ - 1) := if_pos ⟨rfl, h⟩

theorem index_of_not_whole (first before : Bool) (h : (⌊z⌋ : ℚ) ≠ z) :
    index first before z = raised first ⌊z⌋ := if_neg fun hz => h hz.2

theorem raised_mono (first : Bool) {k l : ℚ} (h : k ≤ l) : raised first k ≤ raised first l := by
  cases first
  · exact h
  · exact rounded_mono (by linarith)

theorem le_raised (first : Bool) (hk : Representable k) : k ≤ raised first k := by
  cases first
  · exact le_rfl
  · exact le_rounded hk (by linarith)

theorem representable_raised (first : Bool) (hk : Representable k) :
    Representable (raised first k) := by
  cases first
  · exact hk
  · exact representable_rounded _

theorem index_le (first : Bool) (hz : Representable z) :
    index first true z ≤ index first false z := by
  have hraised := representable_raised first (representable_floor hz)
  rw [index_false]
  by_cases hwhole : (⌊z⌋ : ℚ) = z
  · rw [index_of_whole first hwhole]
    exact rounded_le hraised (by linarith)
  · rw [index_of_not_whole first true hwhole]

/-- A number before a jump is a whole step behind it. -/
theorem index_le_of_jump (first : Bool) (hz : Representable z) (hbetween : (⌊z⌋ : ℚ) ≠ z)
    (hjump : (⌊w⌋ : ℚ) = w) (h : z ≤ w) : index first true z ≤ index first true w := by
  have hlt : (⌊z⌋ : ℚ) < ⌊w⌋ := by
    rw [hjump]
    exact (lt_of_le_of_ne (Int.floor_le z) hbetween).trans_le h
  have hstep : (⌊z⌋ : ℚ) + 1 ≤ ⌊w⌋ := by exact_mod_cast hlt
  rw [index_of_not_whole first true hbetween, index_of_whole first hjump]
  cases first with
  | false =>
    refine le_rounded (representable_floor hz) ?_
    change (⌊z⌋ : ℚ) ≤ ⌊w⌋ - 1
    linarith
  | true =>
    -- what is not whole is so small that one and two more can be counted exactly
    have hsmall := abs_lt.mp (hz.abs_lt_of_not_whole hbetween)
    have hlow : (-4503599627370496 : ℤ) ≤ ⌊z⌋ := Int.le_floor.mpr (by push_cast; linarith)
    have hhigh : ⌊z⌋ < (4503599627370496 : ℤ) := Int.floor_lt.mpr (by push_cast; linarith)
    have hnext : Representable ((⌊z⌋ : ℚ) + 2) := by
      exact_mod_cast representable_intCast (m := ⌊z⌋ + 2) (abs_le.mpr ⟨by omega, by omega⟩)
    have hraised : (⌊z⌋ : ℚ) + 2 ≤ raised true ⌊w⌋ := le_rounded hnext (by linarith)
    exact rounded_mono (by linarith)

theorem index_mono (first before : Bool) (hz : Representable z) (h : z ≤ w) :
    index first before z ≤ index first before w := by
  have hfloor : raised first ⌊z⌋ ≤ raised first ⌊w⌋ :=
    raised_mono first (by exact_mod_cast Int.floor_mono h)
  cases before with
  | false => rwa [index_false, index_false]
  | true =>
    by_cases hwhole : (⌊z⌋ : ℚ) = z <;> by_cases hwhole' : (⌊w⌋ : ℚ) = w
    · rw [index_of_whole first hwhole, index_of_whole first hwhole']
      exact rounded_mono (by linarith)
    · rw [index_of_not_whole first true hwhole']
      exact (index_le first hz).trans (by rwa [index_false])
    · exact index_le_of_jump first hz hwhole hwhole' h
    · rwa [index_of_not_whole first true hwhole, index_of_not_whole first true hwhole']

/-- The height of an index: cut off and divided by the number of jumps. -/
def heightOf (J k : ℚ) : ℚ := rounded (min (max k 0) J / J)

theorem heightOf_mono (hJ : 0 < J) {k l : ℚ} (h : k ≤ l) : heightOf J k ≤ heightOf J l := by
  refine rounded_mono ?_
  gcongr

theorem heightOf_nonneg (hJ : 0 < J) (k : ℚ) : 0 ≤ heightOf J k :=
  rounded_nonneg (div_nonneg (le_min (le_max_right _ _) hJ.le) hJ.le)

theorem heightOf_le_one (hJ : 0 < J) (k : ℚ) : heightOf J k ≤ 1 :=
  rounded_le representable_one ((div_le_one hJ).mpr (min_le_right _ _))

theorem heightOf_of_le (hJ : 0 < J) (h : J ≤ k) : heightOf J k = 1 := by
  rw [heightOf, max_eq_left (hJ.le.trans h), min_eq_right h, div_self hJ.ne',
    rounded_of_representable representable_one]

/-! ### Values -/

/-- The number of jumps as it is meant, whether or not it is a word. -/
def jumpCount (s : Staircase) : ℤ :=
  match s.position with
  | .known .jumpBoth => s.count + 1
  | .known .jumpNone => s.count - 1
  | _ => s.count

/-- The values of the count and of the number of jumps. -/
structure Counted (s : Staircase) (N J : ℚ) : Prop where
  count : HasValue (Float.ofInt s.count) N
  jumps : HasValue s.jumps J
  count_nonneg : 0 ≤ N
  count_le : N ≤ 2 ^ 63
  one_le_jumps : 1 ≤ |J|
  jumps_le : |J| ≤ 2 ^ 63

theorem jumps_eq (s : Staircase) : s.jumps = Float.ofInt (Word.signed s.jumpCount) := by
  have hcount := Word.signed_of_le s.least_le s.le_greatest
  rw [jumps, jumpCount]
  cases s.position with
  | unknown code => exact congrArg Float.ofInt hcount.symm
  | known p =>
    cases p with
    | jumpBoth | jumpNone => rfl
    | jumpEnd | jumpStart | start | finish => exact congrArg Float.ofInt hcount.symm

theorem one_le_jumpCount (hs : s.fault? = none) : 1 ≤ s.count ∧ 1 ≤ s.jumpCount := by
  rw [fault?] at hs
  rw [jumpCount]
  split at hs
  · cases hs
  · rename_i p hp
    split_ifs at hs with hnone hcount
    rw [hp]
    cases p with
    | jumpNone =>
      have : 2 ≤ s.count := by
        by_contra hlt
        exact hnone ⟨rfl, by omega⟩
      exact ⟨by omega, by dsimp only; omega⟩
    | jumpBoth => exact ⟨by omega, by dsimp only; omega⟩
    | jumpEnd | jumpStart | start | finish => exact ⟨by omega, by dsimp only; omega⟩

theorem jumpCount_le (s : Staircase) : s.jumpCount ≤ 9223372036854775808 := by
  have := s.le_greatest
  rw [jumpCount]
  split <;> omega

theorem counted (hs : s.fault? = none) :
    s.Counted (rounded s.count) (rounded (Word.signed s.jumpCount)) := by
  obtain ⟨hcount, hjumps⟩ := one_le_jumpCount hs
  have hword : Word.signed s.jumpCount ≠ 0 :=
    signed_ne_zero (by omega) (by have := s.jumpCount_le; omega)
  have hcount63 : |rounded s.count| ≤ 2 ^ 63 :=
    abs_rounded_le_pow (by exact_mod_cast s.abs_count_le)
  have hjumps63 : |rounded (Word.signed s.jumpCount)| ≤ 2 ^ 63 :=
    abs_rounded_le_pow (by exact_mod_cast abs_signed_le _)
  obtain ⟨J, hJ, hJ1⟩ := one_le_abs_ofInt hword (abs_signed_le _)
  have hJ' := hasValue_ofInt _ (hjumps63.trans_lt (pow_lt_limit (by norm_num)))
  exact
    { count := hasValue_ofInt _ (hcount63.trans_lt (pow_lt_limit (by norm_num)))
      jumps := s.jumps_eq ▸ hJ'
      count_nonneg := rounded_nonneg (by exact_mod_cast (by omega : 0 ≤ s.count))
      count_le := (abs_le.mp hcount63).2
      one_le_jumps := hJ.unique hJ' ▸ hJ1
      jumps_le := hjumps63 }

theorem hasValue_ite {b : Bool} {P : Prop} [Decidable P] {x y : Float} {p q : ℚ} (h : b = true ↔ P)
    (hx : HasValue x p) (hy : HasValue y q) : HasValue (if b then x else y)
    (if P then p else q) := by
  by_cases hP : P
  · rwa [if_pos hP, if_pos (h.mpr hP)]
  · rwa [if_neg hP, if_neg fun hb => hP (h.mp hb)]

/-- The computed index over a scaled number that is not negative. -/
theorem hasValue_index {scaled : Float} (hscaled : HasValue scaled z)
    (h0 : 0 ≤ z) (h63 : z ≤ 2 ^ 63) (first before : Bool) :
    HasValue (if before && fraction scaled == 0
        then (if first then floor scaled + 1 else floor scaled) - 1
        else if first then floor scaled + 1 else floor scaled) (index first before z) ∧
      |index first before z| ≤ 2 ^ 65 := by
  have hfloor0 : (0 : ℚ) ≤ ⌊z⌋ := by exact_mod_cast Int.floor_nonneg.mpr h0
  have hfloor63 : (⌊z⌋ : ℚ) ≤ 2 ^ 63 := (Int.floor_le z).trans h63
  have hone64 : |rounded ((⌊z⌋ : ℚ) + 1)| ≤ 2 ^ 64 := by
    refine abs_rounded_le_pow (abs_le.mpr ⟨?_, ?_⟩)
    · linarith
    · norm_num at hfloor63 ⊢
      linarith
  have hraised64 : |raised first ⌊z⌋| ≤ 2 ^ 64 := by
    cases first
    · refine abs_le.mpr ⟨le_trans (by norm_num) hfloor0, hfloor63.trans (by norm_num)⟩
    · exact hone64
  have hraised : HasValue (if first then floor scaled + 1 else floor scaled) (raised first ⌊z⌋) :=
    hasValue_ite Iff.rfl
      (hscaled.floor.add hasValue_one (hone64.trans_lt (pow_lt_limit (by norm_num)))) hscaled.floor
  have hlower65 : |rounded (raised first ⌊z⌋ - 1)| ≤ 2 ^ 65 := by
    have := abs_le.mp hraised64
    refine abs_rounded_le_pow (abs_le.mpr ⟨?_, ?_⟩)
    · norm_num at this ⊢
      linarith
    · norm_num at this ⊢
      linarith
  -- a number exactly on a jump is one without a fraction
  have hjump : (before && fraction scaled == 0) = true ↔ before ∧ (⌊z⌋ : ℚ) = z := by
    rw [Bool.and_eq_true, hscaled.fraction.beq_iff hasValue_zero,
      towardZero_of_nonneg h0, sub_eq_zero, eq_comm (a := z)]
  refine ⟨hasValue_ite hjump
    (hraised.sub hasValue_one (hlower65.trans_lt (pow_lt_limit (by norm_num)))) hraised, ?_⟩
  rw [index]
  split
  · exact hlower65
  · exact hraised64.trans (by norm_num)

/-- The computed height of an index. -/
theorem Counted.hasValue_height (h : s.Counted N J) (hx : HasValue x q) (h0 : 0 ≤ q) (h1 : q ≤ 1)
    {step : Float} (hstep : HasValue step k) (hk : |k| ≤ 2 ^ 65) :
    HasValue ((if x ≤ 1 && (if x ≥ 0 && step < 0 then 0 else step) > s.jumps then s.jumps
        else if x ≥ 0 && step < 0 then 0 else step) / s.jumps) (heightOf J k) := by
  have hlow : HasValue (if x ≥ 0 && step < 0 then 0 else step) (max k 0) := by
    have hneg : (decide (x ≥ 0) && decide (step < 0)) = true ↔ k < 0 := by
      rw [Bool.and_eq_true, decide_eq_true_eq, decide_eq_true_eq, ge_iff_le,
        hasValue_zero.le_iff hx, hstep.lt_iff hasValue_zero]
      exact and_iff_right h0
    have := hasValue_ite hneg hasValue_zero hstep
    rwa [← max_def_lt] at this
  generalize (if x ≥ 0 && step < 0 then 0 else step) = step at hlow ⊢
  have hhigh : HasValue (if x ≤ 1 && step > s.jumps then s.jumps else step) (min (max k 0) J) := by
    have hover : (decide (x ≤ 1) && decide (step > s.jumps)) = true ↔ J < max k 0 := by
      rw [Bool.and_eq_true, decide_eq_true_eq, decide_eq_true_eq, hx.le_iff hasValue_one, gt_iff_lt,
        h.jumps.lt_iff hlow]
      exact and_iff_right h1
    have := hasValue_ite hover h.jumps hlow
    rwa [← min_def_lt, min_comm] at this
  have hcut : |min (max k 0) J| ≤ 2 ^ 65 := by
    have hk := abs_le.mp hk
    have hJ := abs_le.mp (h.jumps_le.trans (by norm_num : (2 : ℚ) ^ 63 ≤ 2 ^ 65))
    exact abs_le.mpr ⟨le_min (le_max_of_le_left hk.1) hJ.1,
      min_le_of_left_le (max_le hk.2 (by norm_num))⟩
  have hJ0 : J ≠ 0 := abs_pos.mp (zero_lt_one.trans_le h.one_le_jumps)
  have hquot : |heightOf J k| ≤ 2 ^ 65 := by
    apply abs_rounded_le_pow
    rw [abs_div]
    exact (div_le_self (abs_nonneg _) h.one_le_jumps).trans hcut
  exact hhigh.div h.jumps hJ0 (hquot.trans_lt (pow_lt_limit (by norm_num)))

/-- The exact height over a number of the unit interval. -/
theorem Counted.hasValue_eval (h : s.Counted N J) (hx : HasValue x q) (h0 : 0 ≤ q) (h1 : q ≤ 1)
    (before : Bool) :
    HasValue (s.eval x before) (heightOf J (index s.jumpsFirst before (rounded (q * N)))) := by
  have hqN : 0 ≤ q * N := mul_nonneg h0 h.count_nonneg
  have hz63 : |rounded (q * N)| ≤ 2 ^ 63 := by
    apply abs_rounded_le_pow
    rw [abs_of_nonneg hqN]
    nlinarith [h.count_le, h.count_nonneg]
  have hscaled : HasValue (x * Float.ofInt s.count) (rounded (q * N)) :=
    hx.mul h.count (hz63.trans_lt (pow_lt_limit (by norm_num)))
  obtain ⟨hindex, hk⟩ :=
    hasValue_index hscaled (rounded_nonneg hqN) (abs_le.mp hz63).2 s.jumpsFirst before
  exact h.hasValue_height hx h0 h1 hindex hk

/-! ### From zero to one -/

/-- The heights are those of a staircase from zero to one. -/
structure Climbs (s : Staircase) : Prop where
  bottom : s.eval 0 true == 0
  top : s.eval 1 false == 1
  first : s.eval 0 false == if s.jumpsFirst then 1 / Float.ofInt s.jumpCount else 0
  mono : ∀ x y before, 0 ≤ x → x ≤ 1 → 0 ≤ y → y ≤ 1 → x ≤ y →
    0 ≤ s.eval x before ∧ s.eval x before ≤ s.eval y before ∧ s.eval y before ≤ 1
  below : ∀ x, 0 ≤ x → x ≤ 1 → s.eval x true ≤ s.eval x false

/-- The last index reaches the number of jumps: with a jump at both ends, that number is a word, and
the count raised by one does not fall short of it. -/
def Reaches (s : Staircase) : Prop :=
  s.position = .known .jumpBoth →
    s.count < 9223372036854775807 ∧ Float.ofInt (s.count + 1) ≤ Float.ofInt s.count + 1

theorem index_true_zero (first : Bool) : index first true 0 ≤ 0 := by
  rw [index_of_whole first (by simp), Int.floor_zero, Int.cast_zero]
  refine rounded_le representable_zero ?_
  cases first
  · simp [raised]
  · simp [raised, rounded_of_representable representable_one]

theorem heightOf_of_nonpos (hJ : 0 < J) (h : k ≤ 0) : heightOf J k = 0 := by
  rw [heightOf, max_eq_right h, min_eq_left hJ.le, zero_div, rounded_zero]

/-- The first height is one step, or nothing. -/
theorem hasValue_first (hJ : HasValue x J) (hJ1 : 1 ≤ J) (first : Bool) :
    HasValue (if first then 1 / x else 0) (heightOf J (index first false 0)) := by
  have hJ0 : 0 < J := zero_lt_one.trans_le hJ1
  rw [index_false, Int.floor_zero, Int.cast_zero]
  cases first with
  | false =>
    rw [heightOf_of_nonpos hJ0 (by simp [raised])]
    exact hasValue_zero
  | true =>
    have hone : raised true 0 = 1 := by simp [raised, rounded_of_representable representable_one]
    have hstep : heightOf J 1 = rounded (1 / J) := by
      rw [heightOf, max_eq_left zero_le_one, min_eq_left hJ1]
    rw [hone, hstep]
    refine hasValue_one.div hJ hJ0.ne' ?_
    rw [← hstep, abs_of_nonneg (heightOf_nonneg hJ0 1)]
    exact (heightOf_le_one hJ0 1).trans_lt (one_lt_two.trans two_lt_limit)

/-- The heights climb if the last index reaches the number of jumps. -/
theorem Counted.climbs (h : s.Counted N J) (hJ : HasValue (Float.ofInt s.jumpCount) J) (hJ1 : 1 ≤ J)
    (hN : (⌊N⌋ : ℚ) = N) (hreach : J ≤ raised s.jumpsFirst N) : s.Climbs := by
  have hJ0 : 0 < J := zero_lt_one.trans_le hJ1
  have hzero := h.hasValue_eval hasValue_zero le_rfl zero_le_one
  have hone := h.hasValue_eval hasValue_one zero_le_one le_rfl
  rw [one_mul, rounded_of_representable h.count.representable] at hone
  rw [zero_mul, rounded_zero] at hzero
  constructor
  case bottom =>
    rw [(hzero true).beq_iff hasValue_zero, heightOf_of_nonpos hJ0 (index_true_zero _)]
  case top =>
    rw [(hone false).beq_iff hasValue_one, index_false, hN, heightOf_of_le hJ0 hreach]
  case first =>
    rw [(hzero false).beq_iff (hasValue_first hJ hJ1 s.jumpsFirst)]
  case mono =>
    intro x y before hx0 hx1 hy0 hy1 hxy
    obtain ⟨p, hp, hp0, hp1⟩ := hasValue_zero.between hasValue_one hx0 hx1
    obtain ⟨q, hq, hq0, hq1⟩ := hasValue_zero.between hasValue_one hy0 hy1
    have hpq : rounded (p * N) ≤ rounded (q * N) :=
      rounded_mono (mul_le_mul_of_nonneg_right ((hp.le_iff hq).mp hxy) h.count_nonneg)
    have hx := h.hasValue_eval hp hp0 hp1 before
    have hy := h.hasValue_eval hq hq0 hq1 before
    rw [hasValue_zero.le_iff hx, hx.le_iff hy, hy.le_iff hasValue_one]
    exact ⟨heightOf_nonneg hJ0 _,
      heightOf_mono hJ0 (index_mono _ before (representable_rounded _) hpq),
      heightOf_le_one hJ0 _⟩
  case below =>
    intro x h0 h1
    obtain ⟨q, hq, hq0, hq1⟩ := hasValue_zero.between hasValue_one h0 h1
    rw [(h.hasValue_eval hq hq0 hq1 true).le_iff (h.hasValue_eval hq hq0 hq1 false)]
    exact heightOf_mono hJ0 (index_le _ (representable_rounded _))

theorem hasValue_jumpCount (hs : s.fault? = none) :
    HasValue (Float.ofInt s.jumpCount) (rounded s.jumpCount) := by
  obtain ⟨-, hjumps⟩ := one_le_jumpCount hs
  have hle := s.jumpCount_le
  have habs : |(s.jumpCount : ℚ)| ≤ 2 ^ 63 := by
    exact_mod_cast abs_le.mpr ⟨by omega, by omega⟩
  exact hasValue_ofInt _ ((abs_rounded_le_pow habs).trans_lt (pow_lt_limit (by norm_num)))

/-- With a jump at both ends, the number of jumps is reached if the raised count does not fall short
of it. -/
theorem reaches_iff (hs : s.fault? = none) (hp : s.position = .known .jumpBoth) :
    s.Reaches ↔ s.jumpCount ≤ 9223372036854775807 ∧
      rounded s.jumpCount ≤ raised s.jumpsFirst (rounded s.count) := by
  have hcounted := counted hs
  have hcount : s.jumpCount = s.count + 1 := by rw [jumpCount, hp]
  have hfirst : s.jumpsFirst = true := by rw [jumpsFirst, hp]
  have hjumps := hasValue_jumpCount hs
  have hraised : HasValue (Float.ofInt s.count + 1) (raised true (rounded s.count)) := by
    refine hcounted.count.add hasValue_one
      (lt_of_le_of_lt ?_ (pow_lt_limit (k := 64) (by norm_num)))
    refine abs_rounded_le_pow (abs_le.mpr ⟨?_, ?_⟩)
    · linarith [hcounted.count_nonneg]
    · have := hcounted.count_le
      norm_num at this ⊢
      linarith
  rw [hcount] at hjumps ⊢
  rw [Reaches, hp, hfirst, ← hjumps.le_iff hraised]
  constructor
  · intro h
    obtain ⟨hlt, hle⟩ := h rfl
    exact ⟨by omega, hle⟩
  · rintro ⟨hle, hreach⟩ -
    exact ⟨by omega, hreach⟩

/-- Only a jump at both ends may lead beyond the numbers that can be counted. -/
theorem Reaches.le_raised (hs : s.fault? = none) (h : s.Reaches) :
    s.jumpCount ≤ 9223372036854775807 ∧ rounded s.jumpCount ≤
    raised s.jumpsFirst (rounded s.count) := by
  have hle := s.le_greatest
  obtain ⟨p, hp, -⟩ := exists_position hs
  cases p with
  | jumpBoth => exact (reaches_iff hs hp).mp h
  | jumpNone =>
    rw [jumpCount, jumpsFirst, hp]
    exact ⟨by dsimp only; omega, rounded_mono (by push_cast; linarith)⟩
  | jumpEnd | finish =>
    rw [jumpCount, jumpsFirst, hp]
    exact ⟨hle, le_rfl⟩
  | jumpStart | start =>
    rw [jumpCount, jumpsFirst, hp]
    exact ⟨hle, Staircase.le_raised true (representable_rounded _)⟩

theorem Reaches.climbs (hs : s.fault? = none) (h : s.Reaches) : s.Climbs := by
  obtain ⟨hle, hreach⟩ := h.le_raised hs
  obtain ⟨-, hjumps⟩ := one_le_jumpCount hs
  have hcounted := counted hs
  rw [Word.signed_of_le (by omega) hle] at hcounted
  have hone : 1 ≤ rounded s.jumpCount := le_rounded representable_one (by exact_mod_cast hjumps)
  exact hcounted.climbs (hasValue_jumpCount hs) hone (floor_rounded_intCast _) hreach

/-- A number of jumps that is no word becomes the least one, and every height is one. -/
theorem Climbs.jumpCount_le (hs : s.fault? = none) (h : s.Climbs) :
    s.jumpCount ≤ 9223372036854775807 := by
  by_contra hgt
  have hcount : s.jumpCount = 9223372036854775808 := by
    have := s.jumpCount_le
    omega
  have hcounted := counted hs
  have hword : rounded (Word.signed s.jumpCount) ≤ -1 := by
    rw [hcount]
    refine rounded_le representable_one.neg ?_
    exact_mod_cast (by decide : Word.signed 9223372036854775808 ≤ -1)
  have hzero := hcounted.hasValue_eval hasValue_zero le_rfl zero_le_one true
  generalize rounded (Word.signed s.jumpCount) = J at hword hzero
  have hbottom := (hzero.beq_iff hasValue_zero).mp h.bottom
  rw [heightOf, min_eq_right (le_max_of_le_right (by linarith)), div_self (by linarith),
    rounded_of_representable representable_one] at hbottom
  exact one_ne_zero hbottom

/-- Where the last index falls short of the number of jumps, the last height falls short of one. -/
theorem Climbs.le_raised (hs : s.fault? = none) (h : s.Climbs) :
    rounded s.jumpCount ≤ raised s.jumpsFirst (rounded s.count) := by
  have hcounted := counted hs
  obtain ⟨hcount, hjumps⟩ := one_le_jumpCount hs
  rw [Word.signed_of_le (by omega) (h.jumpCount_le hs)] at hcounted
  by_contra hlt
  have hlt := not_le.mp hlt
  have hrepr := representable_raised s.jumpsFirst (representable_rounded s.count)
  have hpos : 0 < raised s.jumpsFirst (rounded s.count) := by
    refine lt_of_lt_of_le ?_ (Staircase.le_raised _ (representable_rounded _))
    exact zero_lt_one.trans_le (le_rounded representable_one (by exact_mod_cast hcount))
  have hone := hcounted.hasValue_eval hasValue_one zero_le_one le_rfl false
  rw [one_mul, rounded_of_representable (representable_rounded _), index_false,
    floor_rounded_intCast, heightOf, max_eq_left hpos.le, min_eq_left hlt.le] at hone
  exact (rounded_div_lt_one hrepr (representable_rounded _) hpos hlt).ne
    ((hone.beq_iff hasValue_one).mp h.top)

theorem reaches_of_count_le (hs : s.fault? = none)
    (h : s.count ≤ 9007199254740992) : s.Reaches := by
  intro hp
  refine (reaches_iff hs hp).mpr ?_ hp
  obtain ⟨hcount, -⟩ := one_le_jumpCount hs
  have hexact : rounded s.count = s.count :=
    rounded_of_representable (representable_intCast (abs_le.mpr ⟨by omega, h⟩))
  rw [jumpCount, jumpsFirst, hp, hexact]
  refine ⟨by dsimp only; omega, ?_⟩
  simp [raised]

/-- A usable step function climbs from zero to one exactly if its last index reaches the number of
jumps, which can only fail with a jump at both ends and more than `2 ^ 53` steps. -/
theorem climbs_iff (hs : s.fault? = none) :
    (s.Climbs ↔ s.Reaches) ∧ (s.count ≤ 9007199254740992 → s.Climbs) := by
  refine ⟨⟨fun h hp => ?_, fun h => h.climbs hs⟩, fun h => (reaches_of_count_le hs h).climbs hs⟩
  exact (reaches_iff hs hp).mpr ⟨h.jumpCount_le hs, h.le_raised hs⟩ hp

/-- Steps with a jump at both ends. -/
def bothEnds (n : ℤ) : Staircase := ofCount n (.known .jumpBoth)

theorem climbs_bothEnds :
    (bothEnds 9007199254740995).fault? = none ∧ (bothEnds 9007199254740995).Climbs := by
  have hs : (bothEnds 9007199254740995).fault? = none := by decide
  refine ⟨hs, (climbs_iff hs).1.mpr fun _ => ⟨by decide, ?_⟩⟩
  decide +kernel

/-- With the greatest count, the number of jumps is negative and the first height is one; one step
more than `2 ^ 53`, the last height is less than one. -/
theorem not_climbs_mostSteps :
    (bothEnds 9223372036854775807).fault? = none ∧ ¬ (bothEnds 9223372036854775807).Climbs ∧
      (bothEnds 9007199254740993).fault? = none ∧ ¬ (bothEnds 9007199254740993).Climbs := by
  refine ⟨by decide, fun h => ?_, by decide, fun h => ?_⟩
  · exact absurd h.bottom (by decide +kernel)
  · exact absurd h.top (by decide +kernel)

end Staircase

end EffectTiming
