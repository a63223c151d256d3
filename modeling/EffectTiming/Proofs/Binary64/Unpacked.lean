import Mathlib
import EffectTiming.Proofs.Binary64.Nearest

/-!
# Unpacked numbers

Arithmetic on binary64 numbers is defined on signs, significands and exponents: an exact result is
shifted to the exponent that the format wants, keeping a round bit and a sticky bit, and then
rounded. Here this is shown to compute `rounded` of the exact result. `IsNumber u q` says that `u`
stands for the rational number `q` and is written in the one way in which the format writes it.
-/

namespace EffectTiming.Binary64

open Float.Model Float.Model.UnpackedFloat

/-! ### Round and sticky bits -/

/-- What an accuracy says of the part that was cut off, in units of the last place. -/
def CutOff : Accuracy → ℚ → Prop
  | .exact, f => f = 0
  | .inexact .lt, f => 0 < f ∧ f < 1 / 2
  | .inexact .eq, f => f = 1 / 2
  | .inexact .gt, f => 1 / 2 < f ∧ f < 1

theorem CutOff.nonneg {a : Accuracy} {f : ℚ} (h : CutOff a f) : 0 ≤ f := by
  rcases a with _ | (_ | _ | _) <;> simp only [CutOff] at h
  · exact h.ge
  · exact h.1.le
  · rw [h]; norm_num
  · linarith [h.1]

theorem CutOff.lt_one {a : Accuracy} {f : ℚ} (h : CutOff a f) : f < 1 := by
  rcases a with _ | (_ | _ | _) <;> simp only [CutOff] at h
  · rw [h]; norm_num
  · linarith [h.2]
  · rw [h]; norm_num
  · exact h.2

/-- Rounding a significand by its accuracy finds the nearest whole number. -/
theorem roundToNearestEven_eq {a : Accuracy} {m : ℕ} {v : ℚ} (h : CutOff a (v - m)) :
    (a.roundToNearestEven m : ℤ) = nearestEven v := by
  symm
  rcases a with _ | (_ | _ | _) <;> simp only [CutOff] at h <;> apply nearestEven_eq
  · left
    simp [Accuracy.roundToNearestEven, h]
  · left
    rw [Accuracy.roundToNearestEven, abs_lt]
    push_cast
    exact ⟨by linarith [h.1], h.2⟩
  · -- a tie: `m` itself if it is even, else the next number
    right
    rw [Accuracy.roundToNearestEven]
    rcases Nat.even_or_odd m with heven | hodd
    · rw [Nat.even_iff.mp heven, add_zero]
      push_cast
      exact ⟨by rw [h]; norm_num, by exact_mod_cast heven⟩
    · rw [Nat.odd_iff.mp hodd]
      push_cast
      refine ⟨?_, by exact_mod_cast hodd.add_one⟩
      rw [show v - (m + 1) = -(1 / 2) by linarith]
      norm_num
  · left
    rw [Accuracy.roundToNearestEven, abs_lt]
    push_cast
    exact ⟨by linarith [h.1], by linarith [h.2]⟩

/-- The worth of a round bit, in units of the last place. -/
def halfBit : Bool → ℚ
  | true => 1 / 2
  | false => 0

/-- An extended significand describes `v` in units of its last place: the round bit stands for a
half, and the sticky bit is set exactly if something below the half is left. -/
def Describes (em : ExtendedMantissa) (v : ℚ) : Prop :=
  ∃ f : ℚ, v = em.mantissa + halfBit em.roundBit + f ∧ 0 ≤ f ∧ f < 1 / 2 ∧
    (em.stickyBit = true ↔ f ≠ 0)

theorem Describes.of_accuracy {a : Accuracy} {m : ℕ} {v : ℚ} (h : CutOff a (v - m)) :
    Describes (ExtendedMantissa.ofMantissaAndAccuracy m a) v := by
  rcases a with _ | (_ | _ | _) <;> simp only [CutOff] at h
  · exact ⟨0, show v = m + 0 + 0 by linarith, le_rfl, by norm_num,
      by simp [ExtendedMantissa.ofMantissaAndAccuracy]⟩
  · exact ⟨v - m, show v = m + 0 + (v - m) by ring, h.1.le, h.2,
      by simp [ExtendedMantissa.ofMantissaAndAccuracy, h.1.ne']⟩
  · exact ⟨0, show v = m + 1 / 2 + 0 by linarith, le_rfl, by norm_num,
      by simp [ExtendedMantissa.ofMantissaAndAccuracy]⟩
  · have hpos : 0 < v - m - 1 / 2 := by linarith [h.1]
    exact ⟨v - m - 1 / 2, show v = m + 1 / 2 + (v - m - 1 / 2) by ring, hpos.le, by linarith [h.2],
      iff_of_true rfl hpos.ne'⟩

theorem Describes.cutOff {em : ExtendedMantissa} {v : ℚ} (h : Describes em v) :
    CutOff em.accuracy (v - em.mantissa) := by
  obtain ⟨m, r, s⟩ := em
  obtain ⟨f, rfl, h0, h1, hs⟩ := h
  simp only at hs
  have hf : (m : ℚ) + halfBit r + f - m = halfBit r + f := by ring
  show CutOff (ExtendedMantissa.accuracy ⟨m, r, s⟩) ((m : ℚ) + halfBit r + f - m)
  rw [hf]
  cases s with
  | false =>
    have hzero : f = 0 := by
      by_contra hne
      exact absurd (hs.mpr hne) (by simp)
    subst hzero
    cases r
    · show (0 : ℚ) + 0 = 0
      norm_num
    · show (1 / 2 : ℚ) + 0 = 1 / 2
      norm_num
  | true =>
    have hpos : 0 < f := lt_of_le_of_ne h0 (hs.mp rfl).symm
    cases r
    · show 0 < 0 + f ∧ 0 + f < 1 / 2
      exact ⟨by linarith, by linarith⟩
    · show 1 / 2 < 1 / 2 + f ∧ 1 / 2 + f < 1
      exact ⟨by linarith, by linarith⟩

/-- A shift by one place halves what is described. -/
theorem Describes.shiftRightOne {em : ExtendedMantissa} {v : ℚ} (h : Describes em v) :
    Describes em.shiftRightOne (v / 2) := by
  obtain ⟨m, r, s⟩ := em
  obtain ⟨f, rfl, h0, h1, hs⟩ := h
  simp only at hs
  have hg0 : 0 ≤ halfBit r := by cases r <;> simp [halfBit]
  have hg1 : halfBit r ≤ 1 / 2 := by cases r <;> simp [halfBit]
  have hsplit : (2 * (m / 2 : ℕ) + (m % 2 : ℕ) : ℚ) = m := by exact_mod_cast Nat.div_add_mod m 2
  have hbit : halfBit (m % 2 != 0) = (m % 2 : ℕ) / 2 := by
    rcases Nat.mod_two_eq_zero_or_one m with h | h <;> rw [h]
    · show (0 : ℚ) = (0 : ℕ) / 2
      norm_num
    · show (1 / 2 : ℚ) = (1 : ℕ) / 2
      norm_num
  -- the old round bit moves below the new one
  refine ⟨(halfBit r + f) / 2, ?_, by linarith, by linarith, ?_⟩
  · show (m + halfBit r + f) / 2 = (m / 2 : ℕ) + halfBit (m % 2 != 0) + (halfBit r + f) / 2
    rw [hbit]
    linarith
  · show (r || s) = true ↔ (halfBit r + f) / 2 ≠ 0
    cases r
    · rw [Bool.false_or, hs]
      simp [halfBit]
    · have : (halfBit true + f) / 2 ≠ 0 := by
        have : halfBit true = 1 / 2 := rfl
        linarith
      simp [this]

theorem Describes.shiftRight {em : ExtendedMantissa} {v : ℚ} (h : Describes em v) (n : ℕ) :
    Describes (em >>> n) (v / 2 ^ n) := by
  show Describes (n.repeat ExtendedMantissa.shiftRightOne em) (v / 2 ^ n)
  induction n with
  | zero => simpa [Nat.repeat] using h
  | succ n ih =>
    have hhalf := ih.shiftRightOne
    rw [div_div, ← pow_succ] at hhalf
    exact hhalf

theorem Describes.roundedMantissa {em : ExtendedMantissa} {v : ℚ} (h : Describes em v) :
    (em.roundedMantissa : ℤ) = nearestEven v :=
  roundToNearestEven_eq h.cutOff

/-! ### Numbers in canonical form -/

/-- Gives a magnitude its sign. -/
def signed : Sign → ℚ → ℚ
  | .negative, q => -q
  | .positive, q => q

/-- The rational number behind an unpacked one; zero where there is none. -/
def unpackedValue : UnpackedFloat → ℚ
  | .finite s m e _ => signed s (m * 2 ^ e)
  | _ => 0

/-- The significand is as long as the format allows, or the exponent as small. -/
def Canonical : UnpackedFloat → Prop
  | .finite _ m e _ =>
    m < 9007199254740992 ∧ -1074 ≤ e ∧ (4503599627370496 ≤ m ∨ e = -1074)
  | _ => True

/-- `u` stands for `q`, in the form in which the format writes it. -/
structure IsNumber (u : UnpackedFloat) (q : ℚ) : Prop where
  canonical : Canonical u
  finite : u.isFinite = true
  value : unpackedValue u = q

theorem isNumber_zero (s : Sign) : IsNumber (.zero s) 0 := ⟨trivial, rfl, rfl⟩

theorem signed_rounded (s : Sign) (q : ℚ) : signed s (rounded q) = rounded (signed s q) := by
  cases s
  · exact (rounded_neg q).symm
  · rfl

theorem IsNumber.representable {u : UnpackedFloat} {q : ℚ} (h : IsNumber u q) :
    Representable q := by
  obtain ⟨hc, -, rfl⟩ := h
  cases u with
  | finite s m e hm =>
    obtain ⟨hlt, he, -⟩ := hc
    have hmag : Representable ((m : ℚ) * 2 ^ e) := by
      refine ⟨m, e, ?_, he, by push_cast; ring⟩
      rw [Nat.abs_cast]
      exact_mod_cast hlt
    cases s
    · exact hmag.neg
    · exact hmag
  | _ => exact representable_zero

/-! ### Rounding a significand -/

/-- The exponent that the format wants for a significand. -/
theorem targetExponent_eq (m : ℕ) (e : ℤ) :
    Format.binary64.targetExponent (totalExponent m e) = max (m.log2 + e - 52) (-1074) := by
  show max ((m.log2 : ℤ) + 1 + e - (1 + 52 : ℕ)) (3 - 2 ^ (11 - 1) - (1 + 52 : ℕ)) = _
  norm_num
  congr 1
  ring

/-- A number between `m` and `m + 1` lies in the binade of `m`. -/
theorem log_of_significand {m : ℕ} {v : ℚ} (hm : 0 < m) (hlo : (m : ℚ) ≤ v) (hhi : v < m + 1)
    (e : ℤ) : Int.log 2 |v * 2 ^ e| = m.log2 + e := by
  have hv : 0 < v := lt_of_lt_of_le (by exact_mod_cast hm) hlo
  have hpos : 0 < v * 2 ^ e := mul_pos hv (zpow_pos (by norm_num) e)
  rw [abs_of_pos hpos]
  have hlow : (2 : ℚ) ^ (m.log2 + e : ℤ) ≤ v * 2 ^ e := by
    rw [zpow_add₀ (by norm_num), zpow_natCast]
    apply mul_le_mul_of_nonneg_right _ (zpow_nonneg (by norm_num) _)
    refine le_trans ?_ hlo
    exact_mod_cast Nat.log2_self_le hm.ne'
  have hhigh : v * 2 ^ e < (2 : ℚ) ^ (m.log2 + e + 1 : ℤ) := by
    rw [show (m.log2 + e + 1 : ℤ) = (m.log2 + 1 : ℕ) + e by push_cast; ring,
      zpow_add₀ (by norm_num), zpow_natCast]
    apply mul_lt_mul_of_pos_right _ (zpow_pos (by norm_num) _)
    refine lt_of_lt_of_le hhi ?_
    exact_mod_cast Nat.lt_log2_self
  have h1 := (Int.zpow_le_iff_le_log (b := 2) (by norm_num) hpos).mp (by exact_mod_cast hlow)
  have h2 := (Int.lt_zpow_iff_log_lt (b := 2) (by norm_num) hpos).mp (by exact_mod_cast hhigh)
  omega

theorem gridExponent_of_significand {m : ℕ} {v : ℚ} (hm : 0 < m) (hlo : (m : ℚ) ≤ v)
    (hhi : v < m + 1) (e : ℤ) :
    gridExponent (v * 2 ^ e) = Format.binary64.targetExponent (totalExponent m e) := by
  rw [gridExponent, log_of_significand hm hlo hhi, targetExponent_eq]

/-- Shifting up to an exponent keeps the described number. -/
theorem shiftToExponent_describes {a : Accuracy} {m : ℕ} {v : ℚ} {e t : ℤ}
    (h : CutOff a (v - m)) (he : e ≤ t) :
    Describes (shiftToExponent m e a t).1 (v * 2 ^ e / 2 ^ t) ∧
    (shiftToExponent m e a t).2 = t := by
  have hn : ((t - e).toNat : ℤ) = t - e := Int.toNat_of_nonneg (by omega)
  constructor
  · have hshift := (Describes.of_accuracy h).shiftRight (t - e).toNat
    have hpow : v * 2 ^ e / 2 ^ t = v / 2 ^ (t - e).toNat := by
      rw [← zpow_natCast, hn, mul_div_assoc, ← zpow_sub₀ (by norm_num), div_eq_mul_inv, ← zpow_neg]
      congr 2
      ring
    rw [hpow]
    exact hshift
  · show e + ((t - e).toNat : ℤ) = t
    omega

/-- A significand of at most fifty-three places stays as it is. -/
theorem shiftToTarget_of_lt {r : ℕ} {t : ℤ} (hr : r < 9007199254740992) (ht : -1074 ≤ t) :
    (shiftToTargetExponent .binary64 r t .exact).1.mantissa = r ∧
      (shiftToTargetExponent .binary64 r t .exact).2 = t := by
  have hlog : r.log2 ≤ 52 := by
    rcases Nat.eq_zero_or_pos r with rfl | hpos
    · simp
    · have : r.log2 < 53 := (Nat.log2_lt hpos.ne').mpr hr
      omega
  have hshift : (Format.binary64.targetExponent (totalExponent r t) - t).toNat = 0 := by
    rw [targetExponent_eq]
    omega
  simp only [shiftToTargetExponent, shiftToExponent, hshift]
  exact ⟨rfl, by simp⟩

/-- A significand that was rounded up to `2 ^ 53` is halved. -/
theorem shiftToTarget_of_eq {t : ℤ} (ht : -1074 ≤ t) :
    (shiftToTargetExponent .binary64 9007199254740992 t .exact).1.mantissa = 4503599627370496 ∧
      (shiftToTargetExponent .binary64 9007199254740992 t .exact).2 = t + 1 := by
  have hlog : Nat.log2 9007199254740992 = 53 := by decide +kernel
  have hshift :
      (Format.binary64.targetExponent (totalExponent 9007199254740992 t) - t).toNat = 1 := by
    rw [targetExponent_eq, hlog]
    omega
  simp only [shiftToTargetExponent, shiftToExponent, hshift]
  exact ⟨rfl, rfl⟩

/-- What the last shift makes of a rounded significand is a number in canonical form. -/
theorem settled_isNumber {r : ℕ} {t : ℤ} (s : Sign) (hr : r ≤ 9007199254740992) (ht : -1074 ≤ t)
    (hlong : r = 0 ∨ 4503599627370496 ≤ r ∨ t = -1074) :
    IsNumber
      (if h : (shiftToTargetExponent .binary64 r t .exact).1.mantissa = 0 then .zero s
        else .finite s (shiftToTargetExponent .binary64 r t .exact).1.mantissa
          (shiftToTargetExponent .binary64 r t .exact).2 (Nat.pos_of_ne_zero h))
      (signed s (r * 2 ^ t)) := by
  rcases hr.lt_or_eq with hlt | rfl
  · obtain ⟨hm, he⟩ := shiftToTarget_of_lt hlt ht
    split
    · next hzero =>
      rw [hm] at hzero
      have hval : signed s ((r : ℚ) * 2 ^ t) = 0 := by
        rw [hzero]
        cases s <;> simp [signed]
      rw [hval]
      exact isNumber_zero s
    · next hne =>
      rw [hm] at hne
      refine ⟨⟨by rwa [hm], by rwa [he], ?_⟩, rfl, ?_⟩
      · rw [hm, he]
        exact hlong.resolve_left hne
      · show signed s (_ * 2 ^ _) = _
        rw [hm, he]
  · -- rounding up has made the significand one place longer
    obtain ⟨hm, he⟩ := shiftToTarget_of_eq ht
    rw [dif_neg (by rw [hm]; norm_num)]
    refine ⟨⟨by rw [hm]; norm_num, by rw [he]; omega, Or.inl (by rw [hm])⟩, rfl, ?_⟩
    show signed s (_ * 2 ^ _) = _
    rw [hm, he, zpow_add₀ (by norm_num), zpow_one]
    congr 1
    push_cast
    ring

/-- **Rounding is correct.** A significand with an accuracy that describes `v` is rounded to the
number of the format nearest to `v · 2 ^ e`, provided that no place of it is missing. -/
theorem roundWithAccuracy_isNumber {a : Accuracy} {m : ℕ} {v : ℚ} {e : ℤ} (s : Sign)
    (h : CutOff a (v - m)) (he : e ≤ Format.binary64.targetExponent (totalExponent m e))
    (hgrid : gridExponent (v * 2 ^ e) = Format.binary64.targetExponent (totalExponent m e)) :
    IsNumber (roundWithAccuracy .binary64 s m e a) (signed s (rounded (v * 2 ^ e))) := by
  obtain ⟨hdesc, hexp⟩ := shiftToExponent_describes h he
  rw [← hgrid] at hdesc hexp
  set q := v * 2 ^ e with hq
  set em := (shiftToExponent m e a (gridExponent q)).1
  have hr : (em.roundedMantissa : ℤ) = nearestEven (q / 2 ^ gridExponent q) := hdesc.roundedMantissa
  have hround : rounded q = em.roundedMantissa * 2 ^ gridExponent q := by
    rw [rounded, ← hr]
    rfl
  have hnonneg : 0 ≤ q / 2 ^ gridExponent q := by
    have hv : 0 ≤ v := by linarith [h.nonneg, Nat.cast_nonneg (α := ℚ) m]
    exact div_nonneg (mul_nonneg hv (zpow_nonneg (by norm_num) _)) (zpow_nonneg (by norm_num) _)
  have hrle : em.roundedMantissa ≤ 9007199254740992 := by
    have := nearestEven_le (k := 9007199254740992) (le_of_lt (abs_lt.mp (abs_div_grid_lt q)).2)
    omega
  have hlong : em.roundedMantissa = 0 ∨ 4503599627370496 ≤ em.roundedMantissa ∨
      gridExponent q = -1074 := by
    rcases eq_or_ne q 0 with hq0 | hq0
    · left
      rw [hq0, zero_div, nearestEven_zero] at hr
      exact_mod_cast hr
    · right
      by_cases hfine : gridExponent q = -1074
      · exact Or.inr hfine
      · left
        have hplaces := le_abs_div_grid hq0 hfine
        rw [abs_of_nonneg hnonneg] at hplaces
        have := le_nearestEven (k := 4503599627370496) (by exact_mod_cast hplaces)
        omega
  have hfirst : shiftToTargetExponent .binary64 m e a = (em, gridExponent q) := by
    show shiftToExponent m e a _ = _
    rw [← hgrid]
    exact Prod.ext rfl hexp
  rw [hround, roundWithAccuracy, hfirst]
  exact settled_isNumber s hrle (neg_le_gridExponent q) hlong

/-- A number below one unit of a fine grid has the finest one. -/
theorem gridExponent_of_lt {q : ℚ} {e : ℤ} (hpos : 0 < q) (hlt : q < 2 ^ e) (he : e ≤ -1022) :
    gridExponent q = -1074 := by
  have hlog := (Int.lt_zpow_iff_log_lt (b := 2) (by norm_num) hpos).mp (by exact_mod_cast hlt)
  rw [gridExponent, abs_of_pos hpos, max_eq_right]
  omega

/-- No place is missing if there are fifty-three of them, or if the last one is the last of all. -/
theorem roundWithAccuracy_of_long {a : Accuracy} {m : ℕ} {v : ℚ} {e : ℤ} (s : Sign)
    (h : CutOff a (v - m)) (hv : 0 < v) (hlong : 4503599627370496 ≤ v ∨ e ≤ -1074) :
    IsNumber (roundWithAccuracy .binary64 s m e a) (signed s (rounded (v * 2 ^ e))) := by
  have hlow := h.nonneg
  have hhigh := h.lt_one
  rcases Nat.eq_zero_or_pos m with rfl | hm
  · -- only what was cut off is left
    rw [Nat.cast_zero, sub_zero] at hlow hhigh
    have he : e ≤ -1074 := hlong.resolve_left (by linarith)
    have htarget : Format.binary64.targetExponent (totalExponent 0 e) = -1074 := by
      rw [targetExponent_eq, Nat.log2_zero, max_eq_right]
      push_cast
      omega
    apply roundWithAccuracy_isNumber s h (by rw [htarget]; exact he)
    rw [htarget]
    have hpow : (0 : ℚ) < 2 ^ e := zpow_pos (by norm_num) e
    exact gridExponent_of_lt (mul_pos hv hpow) (by nlinarith) (by omega)
  · apply roundWithAccuracy_isNumber s h
    · rw [targetExponent_eq]
      rcases hlong with hlong | hlong
      · have : 4503599627370496 ≤ m := by
          have : (4503599627370496 : ℚ) < (m + 1 : ℕ) := by
            push_cast
            linarith
          have := Nat.lt_succ_iff.mp (by exact_mod_cast this)
          exact this
        have : 52 ≤ m.log2 := (Nat.le_log2 hm.ne').mpr this
        omega
      · omega
    · exact gridExponent_of_significand hm (by linarith) (by linarith) e

/-- An exact significand with all its places. -/
theorem roundWithAccuracy_exact {m : ℕ} {e : ℤ} (s : Sign) (hm : 0 < m)
    (hlong : 4503599627370496 ≤ m ∨ e ≤ -1074) :
    IsNumber (roundWithAccuracy .binary64 s m e .exact) (signed s (rounded (m * 2 ^ e))) :=
  roundWithAccuracy_of_long s (sub_self (m : ℚ)) (by exact_mod_cast hm)
    (hlong.imp_left fun h => by exact_mod_cast h)

/-! ### Exact significands -/

/-- Lowering the exponent keeps the number. -/
theorem decreaseExponent_value (m : ℕ) {e t : ℤ} (h : t ≤ e) :
    ((decreaseExponent m e t).1 : ℚ) * 2 ^ t = m * 2 ^ e := by
  have hn : ((e - t).toNat : ℤ) = e - t := Int.toNat_of_nonneg (by omega)
  show ((m <<< (e - t).toNat : ℕ) : ℚ) * 2 ^ t = m * 2 ^ e
  rw [Nat.shiftLeft_eq]
  push_cast
  rw [mul_assoc, ← zpow_natCast, hn, ← zpow_add₀ (by norm_num)]
  congr 2
  ring

theorem log2_shiftLeft {m : ℕ} (hm : 0 < m) (n : ℕ) : (m <<< n).log2 = m.log2 + n := by
  obtain ⟨hlo, hhi⟩ := (Nat.log2_eq_iff hm.ne').mp rfl
  have hpos : 0 < 2 ^ n := Nat.two_pow_pos n
  rw [Nat.shiftLeft_eq, Nat.log2_eq_iff (Nat.mul_pos hm hpos).ne']
  refine ⟨?_, ?_⟩
  · rw [pow_add]
    exact Nat.mul_le_mul_right _ hlo
  · rw [show m.log2 + n + 1 = m.log2 + 1 + n by ring, pow_add]
    exact Nat.mul_lt_mul_of_pos_right hhi hpos

/-- Places below the point may be added before rounding. -/
theorem round_isNumber {m : ℕ} (s : Sign) (hm : 0 < m) (e : ℤ) :
    IsNumber (UnpackedFloat.round .binary64 s m e) (signed s (rounded (m * 2 ^ e))) := by
  set t := Format.binary64.targetExponent (totalExponent m e) with ht
  rw [targetExponent_eq] at ht
  show IsNumber (roundWithAccuracy .binary64 s (m <<< (e - t).toNat) (e - (e - t).toNat) .exact) _
  have hpos : 0 < m <<< (e - t).toNat := by
    rw [Nat.shiftLeft_eq]
    positivity
  have hval : ((m <<< (e - t).toNat : ℕ) : ℚ) * 2 ^ (e - (e - t).toNat : ℤ) = m * 2 ^ e := by
    rw [Nat.shiftLeft_eq]
    push_cast
    rw [mul_assoc, ← zpow_natCast, ← zpow_add₀ (by norm_num)]
    congr 2
    ring
  rw [← hval]
  apply roundWithAccuracy_exact s hpos
  by_cases hfine : e - (e - t).toNat ≤ -1074
  · exact Or.inr hfine
  · left
    apply (Nat.le_log2 (k := 52) hpos.ne').mp
    rw [log2_shiftLeft hm]
    omega

/-- A signed significand is rounded with its sign. -/
theorem normalize_isNumber (m e : ℤ) (z : Sign) :
    IsNumber (UnpackedFloat.normalize .binary64 m e z) (rounded (m * 2 ^ e)) := by
  rw [UnpackedFloat.normalize]
  rcases lt_trichotomy m 0 with hneg | rfl | hpos
  · rw [compare_lt_iff_lt.mpr hneg]
    have hcast : ((-m).toNat : ℚ) = -m := by
      have : ((-m).toNat : ℤ) = -m := Int.toNat_of_nonneg (by omega)
      exact_mod_cast this
    have := round_isNumber .negative (show 0 < (-m).toNat by omega) e
    rw [hcast, signed, ← rounded_neg] at this
    convert this using 2
    ring
  · rw [compare_eq_iff_eq.mpr rfl, Int.cast_zero, zero_mul, rounded_zero]
    exact isNumber_zero z
  · rw [compare_gt_iff_gt.mpr hpos]
    have hcast : (m.toNat : ℚ) = m := by
      have : (m.toNat : ℤ) = m := Int.toNat_of_nonneg hpos.le
      exact_mod_cast this
    have := round_isNumber .positive (show 0 < m.toNat by omega) e
    rw [hcast] at this
    exact this

end EffectTiming.Binary64
