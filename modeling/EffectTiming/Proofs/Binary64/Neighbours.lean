import Mathlib
import EffectTiming.Proofs.Binary64.Near

/-!
# Neighbours in the format

A number of the format with a fraction is below `2 ^ 52`, so a whole number is rounded to a whole
number. The divisors of a whole number of the format are numbers of the format, since they have no
more places. Two numbers of the format lie apart in proportion to their size, so their quotient does
not round to one. What lies between two numbers is neither infinite nor missing.
-/

namespace EffectTiming.Binary64

open Float.Model

variable {x y z : Float} {p q r : ℚ}

/-- A number of the format with a fraction leaves places for it. -/
theorem Representable.abs_lt_of_not_whole (h : Representable q) (hq : (⌊q⌋ : ℚ) ≠ q) :
    |q| < 4503599627370496 := by
  obtain ⟨m, e, hm, -, rfl⟩ := h
  have he : e < 0 := by
    by_contra hnonneg
    obtain ⟨k, rfl⟩ := Int.eq_ofNat_of_zero_le (not_lt.mp hnonneg)
    apply hq
    have hwhole : (m : ℚ) * 2 ^ (k : ℤ) = ((m * 2 ^ k : ℤ) : ℚ) := by
      push_cast
      rw [zpow_natCast]
    rw [hwhole, Int.floor_intCast]
  have hhalf : (2 : ℚ) ^ e ≤ 1 / 2 := by
    calc (2 : ℚ) ^ e ≤ 2 ^ (-1 : ℤ) := zpow_le_zpow_right₀ (by norm_num) (by omega)
      _ = 1 / 2 := by norm_num
  have hm' : |(m : ℚ)| < 9007199254740992 := by exact_mod_cast hm
  rw [abs_mul, abs_of_pos (zpow_pos (by norm_num) e : (0 : ℚ) < 2 ^ e)]
  nlinarith [abs_nonneg (m : ℚ)]

theorem representable_floor (h : Representable q) : Representable (⌊q⌋ : ℚ) := by
  by_cases hwhole : (⌊q⌋ : ℚ) = q
  · rwa [hwhole]
  · have := abs_lt.mp (h.abs_lt_of_not_whole hwhole)
    have h1 : (-4503599627370496 : ℤ) ≤ ⌊q⌋ := Int.le_floor.mpr (by push_cast; linarith)
    have h2 : ⌊q⌋ < (4503599627370496 : ℤ) := Int.floor_lt.mpr (by push_cast; linarith)
    exact representable_intCast (abs_le.mpr ⟨by omega, by omega⟩)

theorem floor_rounded_intCast (n : ℤ) : (⌊rounded n⌋ : ℚ) = rounded n := by
  by_contra hne
  have hsmall := (representable_rounded n).abs_lt_of_not_whole hne
  rcases le_or_gt |n| 9007199254740992 with hn | hn
  · rw [rounded_of_representable (representable_intCast hn), Int.floor_intCast] at hne
    exact hne rfl
  · -- a large whole number is not rounded to a small one
    have hbound : Representable 9007199254740992 := by
      exact_mod_cast representable_intCast (m := 9007199254740992) (by norm_num)
    have hn' : (9007199254740992 : ℚ) < |(n : ℚ)| := by exact_mod_cast hn
    have hsmall := abs_lt.mp hsmall
    rcases lt_abs.mp hn' with hpos | hneg
    · have := le_rounded hbound hpos.le
      linarith
    · have := rounded_le hbound.neg (q := n) (by linarith)
      linarith

/-- A whole number of the format is one of at most fifty-three places, moved up. -/
theorem Representable.exists_whole {b : ℤ} (h : Representable b) :
    ∃ (m : ℤ) (k : ℕ), |m| ≤ 9007199254740992 ∧ b = m * 2 ^ k := by
  obtain ⟨m, e, hm, -, hb⟩ := h
  rcases le_total 0 e with he | he
  · obtain ⟨k, rfl⟩ := Int.eq_ofNat_of_zero_le he
    refine ⟨m, k, hm.le, ?_⟩
    rw [zpow_natCast] at hb
    exact_mod_cast hb
  · -- places below the point only make the number smaller than its significand
    refine ⟨b, 0, ?_, by rw [pow_zero, mul_one]⟩
    have hle : |(b : ℚ)| ≤ |(m : ℚ)| := by
      rw [hb, abs_mul, abs_of_pos (zpow_pos (by norm_num) e : (0 : ℚ) < 2 ^ e)]
      exact mul_le_of_le_one_right (abs_nonneg _) (zpow_le_one_of_nonpos₀ (by norm_num) he)
    have hle' : |b| ≤ |m| := by exact_mod_cast hle
    omega

theorem Representable.half {b : ℤ} (h : Representable b) : Representable (b * (1 / 2)) := by
  obtain ⟨m, k, hm, rfl⟩ := h.exists_whole
  have hrepr := representable_of_le (m := m) (e := k - 1) hm (by omega)
  rw [zpow_sub₀ (by norm_num), zpow_natCast, zpow_one] at hrepr
  convert hrepr using 1
  push_cast
  ring

/-- A divisor has no more places than what it divides: its odd part divides the significand. -/
theorem Representable.of_dvd {a b : ℤ} (h : Representable b) (hdvd : a ∣ b) (hb : b ≠ 0) :
    Representable a := by
  obtain ⟨m, k, hm, rfl⟩ := h.exists_whole
  have hm0 : m ≠ 0 := left_ne_zero_of_mul hb
  have ha0 : a ≠ 0 := by
    rintro rfl
    exact hb (zero_dvd_iff.mp hdvd)
  obtain ⟨j, c, hodd, ha⟩ := Nat.exists_eq_two_pow_mul_odd (Int.natAbs_ne_zero.mpr ha0)
  have hc : (c : ℤ) ∣ m := by
    have hca : (c : ℤ) ∣ a := Int.natCast_dvd.mpr ⟨2 ^ j, by rw [ha, mul_comm]⟩
    have hcoprime : IsCoprime (c : ℤ) (2 ^ k) := by
      refine IsCoprime.pow_right ?_
      exact Nat.isCoprime_iff_coprime.mpr (Nat.coprime_two_right.mpr hodd)
    exact hcoprime.dvd_of_dvd_mul_right (hca.trans hdvd)
  have hsize : |(c : ℤ)| ≤ 9007199254740992 :=
    (Int.le_of_dvd (abs_pos.mpr hm0) ((abs_dvd_abs _ _).mpr hc)).trans hm
  have hrepr : Representable ((c : ℤ) * 2 ^ (j : ℤ)) := representable_of_le hsize (by omega)
  have hvalue : ((c : ℤ) : ℚ) * 2 ^ (j : ℤ) = |(a : ℚ)| := by
    rw [zpow_natCast, ← Int.cast_abs, Int.abs_eq_natAbs, ha]
    push_cast
    ring
  rw [hvalue] at hrepr
  rcases abs_choice (a : ℚ) with habs | habs
  · rwa [habs] at hrepr
  · rw [habs] at hrepr
    simpa using hrepr.neg

/-- Two numbers of the format lie apart in proportion to their size. -/
theorem Representable.le_of_lt (hp : Representable p) (hq : Representable q)
    (hpos : 0 < p) (h : p < q) :
    p ≤ (1 - roundoff) * q := by
  obtain ⟨m, e, hm, -, rfl⟩ := hp
  obtain ⟨n, f, hn, -, rfl⟩ := hq
  -- both are whole multiples of one power of two, and the smaller multiple is below `2 ^ 53`
  obtain ⟨g, k, r, hk, hr, hk53⟩ : ∃ (g k r : ℤ), (m : ℚ) * 2 ^ e = k * 2 ^ g ∧
      (n : ℚ) * 2 ^ f = r * 2 ^ g ∧ (k < r → k < 9007199254740992) := by
    have hn' := (abs_lt.mp hn).2
    have hm' := (abs_lt.mp hm).2
    rcases le_total f e with hle | hle
    · refine ⟨f, m * 2 ^ (e - f).toNat, n, ?_, rfl, fun _ => by omega⟩
      push_cast
      rw [mul_assoc, ← zpow_natCast, ← zpow_add₀ (by norm_num)]
      congr 2
      omega
    · refine ⟨e, m, n * 2 ^ (f - e).toNat, rfl, ?_, fun _ => hm'⟩
      push_cast
      rw [mul_assoc, ← zpow_natCast, ← zpow_add₀ (by norm_num)]
      congr 2
      omega
  have hgrid : (0 : ℚ) < 2 ^ g := zpow_pos (by norm_num) g
  rw [hk, hr] at h ⊢
  rw [hk] at hpos
  have hkr : k < r := by exact_mod_cast lt_of_mul_lt_mul_right h hgrid.le
  have hk53 := hk53 hkr
  have hbound : (k : ℚ) ≤ (1 - roundoff) * r := by
    have h1 : (k : ℚ) + 1 ≤ r := by exact_mod_cast hkr
    have h2 : (k : ℚ) + 1 ≤ 9007199254740992 := by exact_mod_cast hk53
    rw [roundoff]
    linarith
  rw [← mul_assoc]
  gcongr

/-- A quotient of two different numbers does not round up to one. -/
theorem rounded_div_lt_one (hp : Representable p) (hq : Representable q)
    (hpos : 0 < p) (h : p < q) :
    rounded (p / q) < 1 := by
  have hq0 : 0 < q := hpos.trans h
  have hrepr : Representable (1 - roundoff) := by
    have := representable_of_le (m := 9007199254740991) (e := -53) (by norm_num) (by norm_num)
    rw [← roundoff_eq, roundoff] at this
    rw [roundoff]
    convert this using 1
    norm_num
  have hle : rounded (p / q) ≤ 1 - roundoff := by
    refine rounded_le hrepr ?_
    rw [div_le_iff₀ hq0]
    exact hp.le_of_lt hq hpos h
  have : 0 < roundoff := by norm_num [roundoff]
  linarith

/-- What lies between two numbers is a number. -/
theorem HasValue.between (hx : HasValue x p) (hz : HasValue z r) (hxy : x ≤ y) (hyz : y ≤ z) :
    ∃ q, HasValue y q ∧ p ≤ q ∧ q ≤ r := by
  have hnumber : ∀ q, HasValue y q → ∃ q, HasValue y q ∧ p ≤ q ∧ q ≤ r := by
    intro q hq
    exact ⟨q, hq, (hx.le_iff hq).mp hxy, (hq.le_iff hz).mp hyz⟩
  have hle : ∀ {x y : Float}, x ≤ y →
      UnpackedFloat.le x.toModel.unpack y.toModel.unpack = true := by
    intro x y h
    change Float.le x y = true at h
    rwa [Float.le, decide_eq_true_eq] at h
  have hlow := hle hxy
  have hhigh := hle hyz
  cases hy : y.toModel.unpack with
  | notANumber =>
    rw [hy, UnpackedFloat.le, compare_notANumber] at hlow
    cases hlow
  | zero s => exact hnumber 0 (by rw [HasValue, hy]; exact isNumber_zero s)
  | finite s m e hm => exact hnumber _ (hasValue_of_unpack hy)
  | infinity s =>
    rw [hy] at hlow hhigh
    cases s with
    | positive =>
      rcases IsNumber.cases hz with ⟨s, hz, -⟩ | ⟨s, m, e, hm, hz, -⟩ <;>
        rw [hz] at hhigh <;> cases hhigh
    | negative =>
      rcases IsNumber.cases hx with ⟨s, hx, -⟩ | ⟨s, m, e, hm, hx, -⟩ <;>
        rw [hx] at hlow <;> cases hlow

end EffectTiming.Binary64
