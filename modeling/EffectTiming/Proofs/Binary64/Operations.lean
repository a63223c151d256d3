import Mathlib
import EffectTiming.Proofs.Binary64.Unpacked

/-!
# Operations on unpacked numbers

Each operation on numbers of the format gives `rounded` of the exact result. The cases with a zero
keep a number as it is, which agrees with rounding it once more.
-/

namespace EffectTiming.Binary64

open Float.Model Float.Model.UnpackedFloat

variable {a b : UnpackedFloat} {x y : ℚ}

theorem cast_apply (s : Sign) (m : ℕ) : ((s.apply m : ℤ) : ℚ) = signed s m := by
  cases s
  · show ((-(m : ℤ) : ℤ) : ℚ) = -m
    push_cast
    rfl
  · rfl

theorem signed_mul_right (s : Sign) (p q : ℚ) : signed s p * q = signed s (p * q) := by
  cases s
  · exact neg_mul p q
  · rfl

theorem signed_mul_signed (s t : Sign) (p q : ℚ) :
    signed s p * signed t q = signed (s * t) (p * q) := by
  cases s <;> cases t
  · exact neg_mul_neg p q
  · exact neg_mul p q
  · exact mul_neg p q
  · rfl

theorem signed_div_signed (s t : Sign) (p q : ℚ) :
    signed s p / signed t q = signed (s / t) (p / q) := by
  cases s <;> cases t
  · exact neg_div_neg_eq p q
  · exact neg_div q p
  · exact div_neg p
  · rfl

theorem signed_neg (s : Sign) (q : ℚ) : signed (-s) q = -signed s q := by
  cases s
  · exact (neg_neg q).symm
  · rfl

@[simp]
theorem signed_zero (s : Sign) : signed s 0 = 0 := by
  cases s
  · exact neg_zero
  · rfl

/-- A number is a zero, or a significand with an exponent. -/
theorem IsNumber.cases (h : IsNumber a x) :
    (∃ s, a = .zero s ∧ x = 0) ∨
      ∃ s m e, ∃ hm : 0 < m, a = .finite s m e hm ∧ x = signed s (m * 2 ^ e) := by
  obtain ⟨hc, hf, rfl⟩ := h
  cases a with
  | infinity s => cases hf
  | notANumber => cases hf
  | zero s => exact Or.inl ⟨s, rfl, rfl⟩
  | finite s m e hm => exact Or.inr ⟨s, m, e, hm, rfl, rfl⟩

/-! ### Signs -/

theorem IsNumber.neg (h : IsNumber a x) : IsNumber a.neg (-x) := by
  rcases h.cases with ⟨s, rfl, rfl⟩ | ⟨s, m, e, hm, rfl, rfl⟩
  · rw [neg_zero]
    exact isNumber_zero (-s)
  · exact ⟨h.canonical, rfl, signed_neg s _⟩

theorem IsNumber.abs (h : IsNumber a x) : IsNumber a.abs |x| := by
  rcases h.cases with ⟨s, rfl, rfl⟩ | ⟨s, m, e, hm, rfl, rfl⟩
  · rw [abs_zero]
    exact isNumber_zero .positive
  · refine ⟨h.canonical, rfl, ?_⟩
    have hpos : (0 : ℚ) ≤ m * 2 ^ e := mul_nonneg (Nat.cast_nonneg m) (zpow_nonneg (by norm_num) e)
    show (m : ℚ) * 2 ^ e = |signed s (m * 2 ^ e)|
    cases s
    · rw [signed, abs_neg, abs_of_nonneg hpos]
    · rw [signed, abs_of_nonneg hpos]

/-! ### Sums -/

/-- A significand brought to a lower exponent, with its sign. -/
theorem aligned_value (s : Sign) (m : ℕ) {e t : ℤ} (h : t ≤ e) :
    ((s.apply ((decreaseExponent m e t).1 : ℕ) : ℤ) : ℚ) * 2 ^ t = signed s (m * 2 ^ e) := by
  rw [cast_apply, signed_mul_right, decreaseExponent_value m h]

theorem IsNumber.add (ha : IsNumber a x) (hb : IsNumber b y) :
    IsNumber (UnpackedFloat.add .binary64 a b) (rounded (x + y)) := by
  rcases ha.cases with ⟨s, rfl, rfl⟩ | ⟨s, m, e, hm, rfl, rfl⟩
  · rw [zero_add, rounded_of_representable hb.representable]
    rcases hb.cases with ⟨t, rfl, rfl⟩ | ⟨t, n, f, hn, rfl, rfl⟩
    · rw [UnpackedFloat.add]
      split
      · exact isNumber_zero _
      · exact isNumber_zero _
    · exact hb
  · rcases hb.cases with ⟨t, rfl, rfl⟩ | ⟨t, n, f, hn, rfl, rfl⟩
    · rw [add_zero, rounded_of_representable ha.representable]
      exact ha
    · rw [← aligned_value s m (min_le_left e f), ← aligned_value t n (min_le_right e f), ← add_mul,
        ← Int.cast_add]
      exact normalize_isNumber _ _ _

/-- Subtraction is addition of the negated number. -/
theorem unpacked_sub_eq (a b : UnpackedFloat) :
    UnpackedFloat.sub .binary64 a b = UnpackedFloat.add .binary64 a b.neg := by
  have happly : ∀ (s : Sign) (n : ℤ), (-s).apply n = -s.apply n := by
    intro s n
    cases s
    · exact (neg_neg n).symm
    · rfl
  cases a with
  | notANumber => cases b <;> rfl
  | infinity s => cases b <;> rfl
  | zero s => cases b <;> rfl
  | finite s m e hm =>
    cases b with
    | finite t n f hn =>
      simp only [UnpackedFloat.sub, UnpackedFloat.add, UnpackedFloat.neg,
        happly, Int.sub_eq_add_neg]
    | _ => rfl

theorem IsNumber.sub (ha : IsNumber a x) (hb : IsNumber b y) :
    IsNumber (UnpackedFloat.sub .binary64 a b) (rounded (x - y)) := by
  rw [unpacked_sub_eq, sub_eq_add_neg]
  exact ha.add hb.neg

/-! ### Products -/

/-- The product of two significands in canonical form has all its places. -/
theorem product_long {s t : Sign} {m n : ℕ} {e f : ℤ} {hm : 0 < m} {hn : 0 < n}
    (ha : Canonical (.finite s m e hm)) (hb : Canonical (.finite t n f hn)) :
    4503599627370496 ≤ m * n ∨ e + f ≤ -1074 := by
  obtain ⟨-, -, hm'⟩ := ha
  obtain ⟨-, -, hn'⟩ := hb
  rcases hm' with hm' | rfl
  · exact Or.inl (hm'.trans (Nat.le_mul_of_pos_right m hn))
  rcases hn' with hn' | rfl
  · exact Or.inl (hn'.trans (Nat.le_mul_of_pos_left n hm))
  · exact Or.inr (by norm_num)

theorem product_isNumber (s t : Sign) {m n : ℕ} {e f : ℤ} (hm : 0 < m) (hn : 0 < n)
    (hlong : 4503599627370496 ≤ m * n ∨ e + f ≤ -1074) :
    IsNumber (UnpackedFloat.mul .binary64 (.finite s m e hm) (.finite t n f hn))
      (rounded (signed s (m * 2 ^ e) * signed t (n * 2 ^ f))) := by
  have hround := roundWithAccuracy_exact (s * t) (Nat.mul_pos hm hn) hlong
  have hval : (m : ℚ) * 2 ^ e * (n * 2 ^ f) = (m * n : ℕ) * 2 ^ (e + f) := by
    rw [zpow_add₀ (by norm_num)]
    push_cast
    ring
  rw [signed_mul_signed, hval, ← signed_rounded]
  exact hround

theorem IsNumber.mul (ha : IsNumber a x) (hb : IsNumber b y) :
    IsNumber (UnpackedFloat.mul .binary64 a b) (rounded (x * y)) := by
  rcases ha.cases with ⟨s, rfl, rfl⟩ | ⟨s, m, e, hm, rfl, rfl⟩
  · rw [zero_mul, rounded_zero]
    rcases hb.cases with ⟨t, rfl, rfl⟩ | ⟨t, n, f, hn, rfl, rfl⟩
    · exact isNumber_zero _
    · exact isNumber_zero _
  · rcases hb.cases with ⟨t, rfl, rfl⟩ | ⟨t, n, f, hn, rfl, rfl⟩
    · rw [mul_zero, rounded_zero]
      exact isNumber_zero _
    · exact product_isNumber s t hm hn (product_long ha.canonical hb.canonical)

/-! ### Quotients -/

/-- What is left of a division, as a part of the divisor. -/
theorem cutOff_accuracyOfFraction {r n : ℕ} (hr : r < n) :
    CutOff (accuracyOfFraction r n) ((r : ℚ) / n) := by
  have hn : (0 : ℚ) < n := by exact_mod_cast (Nat.zero_lt_of_lt hr)
  rw [accuracyOfFraction]
  split
  · next h0 =>
    rw [h0]
    simp [CutOff]
  · next h0 =>
    have hpos : (0 : ℚ) < r := by exact_mod_cast Nat.pos_of_ne_zero h0
    rcases lt_trichotomy (2 * r) n with h | h | h
    · rw [compare_lt_iff_lt.mpr h]
      have : (2 * r : ℚ) < n := by exact_mod_cast h
      refine ⟨div_pos hpos hn, ?_⟩
      rw [div_lt_iff₀ hn]
      linarith
    · rw [compare_eq_iff_eq.mpr h]
      have : (2 * r : ℚ) = n := by exact_mod_cast h
      show (r : ℚ) / n = 1 / 2
      rw [div_eq_iff hn.ne']
      linarith
    · rw [compare_gt_iff_gt.mpr h]
      have h1 : (n : ℚ) < 2 * r := by exact_mod_cast h
      have h2 : (r : ℚ) < n := by exact_mod_cast hr
      refine ⟨?_, ?_⟩
      · rw [lt_div_iff₀ hn]
        linarith
      · rw [div_lt_one hn]
        exact h2

/-- A quotient lies less than one binade below the difference of the binades. -/
theorem zpow_lt_quotient {m n : ℕ} (hm : 0 < m) (hn : 0 < n) (e f : ℤ) :
    (2 : ℚ) ^ (m.log2 + e - (n.log2 + f) - 1 : ℤ) < m * 2 ^ e / (n * 2 ^ f) := by
  have hnpos : (0 : ℚ) < n * 2 ^ f := mul_pos (by exact_mod_cast hn) (zpow_pos (by norm_num) f)
  rw [lt_div_iff₀ hnpos]
  have hlow : (2 : ℚ) ^ m.log2 ≤ m := by exact_mod_cast Nat.log2_self_le hm.ne'
  have hhigh : (n : ℚ) < 2 ^ (n.log2 + 1) := by exact_mod_cast Nat.lt_log2_self
  have he : (0 : ℚ) < 2 ^ e := zpow_pos (by norm_num) e
  calc (2 : ℚ) ^ (m.log2 + e - (n.log2 + f) - 1 : ℤ) * (n * 2 ^ f)
      < 2 ^ (m.log2 + e - (n.log2 + f) - 1 : ℤ) * (2 ^ (n.log2 + 1) * 2 ^ f) := by
        apply mul_lt_mul_of_pos_left _ (zpow_pos (by norm_num) _)
        exact mul_lt_mul_of_pos_right hhigh (zpow_pos (by norm_num) f)
    _ = 2 ^ m.log2 * 2 ^ e := by
        rw [← zpow_natCast, ← zpow_natCast, ← zpow_add₀ (by norm_num), ← zpow_add₀ (by norm_num),
          ← zpow_add₀ (by norm_num)]
        congr 1
        push_cast
        ring
    _ ≤ m * 2 ^ e := mul_le_mul_of_nonneg_right hlow he.le

/-- What a whole quotient cuts off is the remainder. -/
theorem cutOff_quotient (d : ℕ) {n : ℕ} (hn : 0 < n) :
    CutOff (accuracyOfFraction (d % n) n) ((d : ℚ) / n - (d / n : ℕ)) := by
  have hsplit : (d : ℚ) / n - (d / n : ℕ) = (d % n : ℕ) / n := by
    have hn' : (n : ℚ) ≠ 0 := by exact_mod_cast hn.ne'
    have hd : (d : ℚ) = n * (d / n : ℕ) + (d % n : ℕ) := by
      exact_mod_cast (Nat.div_add_mod d n).symm
    rw [div_sub' hn', div_left_inj' hn']
    linarith
  rw [hsplit]
  exact cutOff_accuracyOfFraction (Nat.mod_lt d hn)

/-- A dividend is lengthened by as many places as its exponent is lowered. -/
theorem lengthened_quotient {m n : ℕ} (hn : 0 < n) {e f k : ℤ} (hk : k ≤ e - f) :
    ((m <<< (e - f - k).toNat : ℕ) : ℚ) / n * 2 ^ k = m * 2 ^ e / (n * 2 ^ f) := by
  have hshift : ((e - f - k).toNat : ℤ) = e - f - k := Int.toNat_of_nonneg (by omega)
  have hk' : (2 : ℚ) ^ k ≠ 0 := zpow_ne_zero _ (by norm_num)
  have hf : (2 : ℚ) ^ f ≠ 0 := zpow_ne_zero _ (by norm_num)
  have hn' : (n : ℚ) ≠ 0 := by exact_mod_cast hn.ne'
  rw [Nat.shiftLeft_eq]
  push_cast
  rw [← zpow_natCast, hshift, zpow_sub₀ (by norm_num), zpow_sub₀ (by norm_num)]
  field_simp

/-- The dividend is lengthened until the quotient of the significands has all its places. -/
theorem quotient_isNumber (s t : Sign) {m n : ℕ} (hm : 0 < m) (hn : 0 < n) (e f : ℤ) :
    IsNumber (UnpackedFloat.div .binary64 (.finite s m e hm) (.finite t n f hn))
      (rounded (signed s (m * 2 ^ e) / signed t (n * 2 ^ f))) := by
  rw [signed_div_signed, ← signed_rounded]
  set q : ℚ := m * 2 ^ e / (n * 2 ^ f) with hq
  have hqlow := zpow_lt_quotient hm hn e f
  rw [← hq] at hqlow
  have hqpos : 0 < q := lt_trans (zpow_pos (by norm_num) _) hqlow
  -- the exponent that is taken, and the dividend lengthened for it
  set k :=
    min (e - f) (Format.binary64.targetExponent (totalExponent m e - totalExponent n f)) with hk
  set d := m <<< (e - f - k).toNat with hd
  have hkle : k ≤ m.log2 + e - (n.log2 + f) - 53 ∨ k ≤ -1074 := by
    have htarget : Format.binary64.targetExponent (totalExponent m e - totalExponent n f) =
        max (m.log2 + e - (n.log2 + f) - 53) (-1074) := by
      show max ((m.log2 + 1 + e : ℤ) - (n.log2 + 1 + f) - (1 + 52 : ℕ))
        (3 - 2 ^ (11 - 1) - (1 + 52 : ℕ)) = _
      norm_num
      congr 1
      ring
    rw [htarget] at hk
    omega
  have hval : (d : ℚ) / n * 2 ^ k = q := lengthened_quotient hn (by omega)
  show IsNumber (roundWithAccuracy .binary64 (s / t) (d / n) k (accuracyOfFraction (d % n) n)) _
  rw [← hval]
  have hpow : (0 : ℚ) < 2 ^ k := zpow_pos (by norm_num) k
  apply roundWithAccuracy_of_long _ (cutOff_quotient d hn)
    (by rw [← hval] at hqpos; exact pos_of_mul_pos_left hqpos hpow.le)
  refine hkle.imp_left fun hk => ?_
  rw [← hval, ← div_lt_iff₀ hpow, ← zpow_sub₀ (by norm_num)] at hqlow
  refine le_trans ?_ hqlow.le
  calc (4503599627370496 : ℚ) = 2 ^ (52 : ℤ) := by norm_num
    _ ≤ 2 ^ (m.log2 + e - (n.log2 + f) - 1 - k : ℤ) :=
      zpow_le_zpow_right₀ (by norm_num) (by omega)

theorem IsNumber.div (ha : IsNumber a x) (hb : IsNumber b y) (hy : y ≠ 0) :
    IsNumber (UnpackedFloat.div .binary64 a b) (rounded (x / y)) := by
  rcases hb.cases with ⟨t, rfl, rfl⟩ | ⟨t, n, f, hn, rfl, rfl⟩
  · exact absurd rfl hy
  rcases ha.cases with ⟨s, rfl, rfl⟩ | ⟨s, m, e, hm, rfl, rfl⟩
  · rw [zero_div, rounded_zero]
    exact isNumber_zero _
  · exact quotient_isNumber s t hm hn e f

end EffectTiming.Binary64
