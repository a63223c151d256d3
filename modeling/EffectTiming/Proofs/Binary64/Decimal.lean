import Mathlib
import EffectTiming.Binary64.Numeral
import EffectTiming.Proofs.Binary64.Shortest

/-!
# Decimals and numbers

A decimal within range is read as its rounded value, so the shortest digits of a number are read as
the number itself. A number is known from its value, but for the sign of a zero.

## Main statements

* `HasValue.eq_of_ne_zero`: numbers with the same value are equal unless they are zeros.
* `hasValue_ofDecimal`: a decimal is read as the nearest number.
* `hasValue_of_shortest`: the shortest digits of a number are read back.
-/

namespace EffectTiming.Binary64

open Float.Model.UnpackedFloat (Sign)

variable {x y : Float} {m : ℕ} {e : ℤ} {q : ℚ}

/-! ### Numbers from their parts -/

/-- A word is made of its three fields. -/
theorem word_eq_fields {b : ℕ} (hb : b < 18446744073709551616) :
    b = (if Word.half ≤ b then 9223372036854775808 else 0) + b / hiddenBit % 2048 * hiddenBit +
      b % hiddenBit := by
  show b = (if 9223372036854775808 ≤ b then 9223372036854775808 else 0) +
    b / 4503599627370496 % 2048 * 4503599627370496 + b % 4503599627370496
  split <;> omega

/-- The fields of the word behind finite parts. -/
theorem fields_of_parts {negative : Bool} (h : parts x = .finite negative m e) :
    negative = decide (Word.half ≤ x.toBits.toNat) ∧
      x.toBits.toNat / hiddenBit % 2048 = (if m < hiddenBit then 0 else (e + 1075).toNat) ∧
      x.toBits.toNat % hiddenBit = (if m < hiddenBit then m else m - hiddenBit) := by
  have hmod : x.toBits.toNat % hiddenBit < hiddenBit := Nat.mod_lt _ (by norm_num)
  rw [parts] at h
  split at h
  · split at h <;> cases h
  · split at h
    · rename_i hzero
      cases h
      rw [if_pos hmod, if_pos hmod]
      exact ⟨rfl, hzero, rfl⟩
    · cases h
      rw [if_neg (by omega), if_neg (by omega)]
      exact ⟨rfl, by omega, by omega⟩

/-- The fields of the word behind an infinity. -/
theorem fields_of_infinite {negative : Bool} (h : parts x = .infinite negative) :
    negative = decide (Word.half ≤ x.toBits.toNat) ∧ x.toBits.toNat / hiddenBit % 2048 = 2047 ∧
      x.toBits.toNat % hiddenBit = 0 := by
  rw [parts] at h
  split at h
  · rename_i htop
    split at h
    · rename_i hzero
      cases h
      exact ⟨rfl, htop, hzero⟩
    · cases h
  · split at h <;> cases h

theorem eq_of_fields
    (hs : decide (Word.half ≤ x.toBits.toNat) = decide (Word.half ≤ y.toBits.toNat))
    (he : x.toBits.toNat / hiddenBit % 2048 = y.toBits.toNat / hiddenBit % 2048)
    (hm : x.toBits.toNat % hiddenBit = y.toBits.toNat % hiddenBit) : x = y := by
  have hbits : x.toBits.toNat = y.toBits.toNat := by
    rw [word_eq_fields x.toBits.toNat_lt, word_eq_fields y.toBits.toNat_lt, he, hm]
    simp only [decide_eq_decide.mp hs]
  obtain ⟨⟨bx, hbx⟩⟩ := x
  obtain ⟨⟨bY, hby⟩⟩ := y
  obtain rfl : bx = bY := UInt64.toNat_inj.mp hbits
  rfl

/-- A finite number is known from its parts. -/
theorem eq_of_parts {negative : Bool} (hx : parts x = .finite negative m e)
    (hy : parts y = .finite negative m e) : x = y := by
  obtain ⟨hxs, hxe, hxm⟩ := fields_of_parts hx
  obtain ⟨hys, hye, hym⟩ := fields_of_parts hy
  exact eq_of_fields (hxs.symm.trans hys) (hxe.trans hye.symm) (hxm.trans hym.symm)

/-- There is one positive infinity. -/
theorem IsInfinite.eq (hx : IsInfinite x) (hy : IsInfinite y) : x = y := by
  have hparts : ∀ {z : Float}, IsInfinite z → parts z = .infinite false := by
    intro z hz
    rw [parts_eq, hz]
    rfl
  obtain ⟨hxs, hxe, hxm⟩ := fields_of_infinite (hparts hx)
  obtain ⟨hys, hye, hym⟩ := fields_of_infinite (hparts hy)
  exact eq_of_fields (hxs.symm.trans hys) (hxe.trans hye.symm) (hxm.trans hym.symm)

/-- The parts of a finite number are those of a zero, or a stored significand. -/
theorem HasValue.cases_parts (h : HasValue x q) :
    (∃ s : Sign, Binary64.parts x = .finite (s == .negative) 0 (-1074) ∧ q = 0) ∨
      ∃ (s : Sign) (m : ℕ) (e : ℤ), Binary64.parts x = .finite (s == .negative) m e ∧
        q = signed s (m * 2 ^ e) ∧ IsStored m e := by
  have hcanonical := h.canonical
  have hstored : Stored x.toModel.unpack := (canonical_unpack x.toModel.toBits.toBitVec).2
  rw [parts_eq]
  rcases h.cases with ⟨s, hx, rfl⟩ | ⟨s, m, e, hm, hx, rfl⟩
  · exact Or.inl ⟨s, by rw [hx, unpackedParts], rfl⟩
  · rw [hx] at hcanonical hstored
    obtain ⟨hlt, hleast, hfull⟩ := hcanonical
    exact Or.inr ⟨s, m, e, by rw [hx, unpackedParts], rfl, ⟨hm, hlt, hleast, hstored, hfull⟩⟩

/-- The stored form of a number is known from its value: the exponent is that of its last place. -/
theorem gridExponent_of_isStored (h : IsStored m e) : gridExponent (m * 2 ^ e) = e := by
  have hpos : (0 : ℚ) < 2 ^ e := zpow_pos (by norm_num) e
  have hm : (0 : ℚ) < m := by exact_mod_cast h.pos
  apply gridExponent_eq _ _ h.least
  · refine h.full.imp (fun hfull => ?_) fun he => ⟨he, mul_pos hm hpos⟩
    rw [zpow_add₀ (by norm_num)]
    apply mul_le_mul_of_nonneg_right _ hpos.le
    norm_num
    exact_mod_cast hfull
  · rw [zpow_add₀ (by norm_num)]
    apply mul_lt_mul_of_pos_right _ hpos
    norm_num
    exact_mod_cast h.lt

/-- Numbers with the same value are equal unless they are zeros. -/
theorem HasValue.eq_of_ne_zero (hx : HasValue x q) (hy : HasValue y q) (hq : q ≠ 0) : x = y := by
  rcases hx.cases_parts with ⟨s, -, h0⟩ | ⟨s, m, e, hx, hxq, hm⟩
  · exact absurd h0 hq
  rcases hy.cases_parts with ⟨t, -, h0⟩ | ⟨t, n, f, hy, hyq, hn⟩
  · exact absurd h0 hq
  have habs : (m : ℚ) * 2 ^ e = n * 2 ^ f := by
    rw [← abs_signed_significand s m e, ← abs_signed_significand t n f, ← hxq, ← hyq]
  obtain rfl : e = f := by rw [← gridExponent_of_isStored hm, ← gridExponent_of_isStored hn, habs]
  have hpos : (0 : ℚ) < 2 ^ e := zpow_pos (by norm_num) e
  obtain rfl : m = n := by exact_mod_cast mul_right_cancel₀ hpos.ne' habs
  have hmpos : (0 : ℚ) < m * 2 ^ e := mul_pos (by exact_mod_cast hm.pos) hpos
  obtain rfl : s = t := by
    rw [hxq] at hyq
    cases s <;> cases t
    · rfl
    · rw [signed, signed] at hyq
      linarith
    · rw [signed, signed] at hyq
      linarith
    · rfl
  exact eq_of_parts hx hy

/-! ### The size of a decimal -/

theorem lt_ten_pow_length (n : ℕ) : n < 10 ^ (toString n).length := by
  rw [Nat.toString_eq_repr]
  exact (Nat.length_repr_le_iff Nat.length_repr_pos).mp le_rfl

theorem ten_pow_length_le {n : ℕ} (hn : 0 < n) : 10 ^ ((toString n).length - 1) ≤ n := by
  rw [Nat.toString_eq_repr]
  have hlen := Nat.length_repr_pos (n := n)
  rcases Nat.eq_zero_or_pos (n.repr.length - 1) with h0 | hpos
  · rw [h0]
    exact hn
  · by_contra hlt
    have := (Nat.length_repr_le_iff hpos).mpr (not_le.mp hlt)
    omega

theorem length_toString_pos (n : ℕ) : 0 < (toString n).length := by
  rw [Nat.toString_eq_repr]
  exact Nat.length_repr_pos

theorem Decimal.value_pos {d : Decimal} : 0 < d.value ↔ 0 < d.digits := by
  rw [value, mul_pos_iff_of_pos_right (zpow_pos (by norm_num) _), Nat.cast_pos]

theorem Decimal.ten_zpow_scientific_le {d : Decimal} (hd : 0 < d.digits) :
    (10 : ℚ) ^ d.scientific ≤ d.value := by
  have hlen : 0 < d.text.length := length_toString_pos d.digits
  calc (10 : ℚ) ^ d.scientific = 10 ^ ((d.text.length - 1 : ℕ) : ℤ) * 10 ^ d.exponent := by
        rw [← zpow_add₀ (by norm_num), scientific]
        congr 1
        omega
    _ ≤ d.value := by
        apply mul_le_mul_of_nonneg_right _ (zpow_nonneg (by norm_num) _)
        rw [zpow_natCast]
        exact_mod_cast ten_pow_length_le hd

theorem Decimal.value_lt (d : Decimal) : d.value < 10 ^ (d.scientific + 1) := by
  calc d.value < 10 ^ (d.text.length : ℤ) * 10 ^ d.exponent := by
        apply mul_lt_mul_of_pos_right _ (zpow_pos (by norm_num) _)
        rw [zpow_natCast]
        exact_mod_cast lt_ten_pow_length d.digits
    _ = 10 ^ (d.scientific + 1) := by
        rw [← zpow_add₀ (by norm_num), scientific]
        congr 1
        ring

/-- A decimal in the range of the numbers has an exponent of at most three digits. -/
theorem Decimal.scientific_bounds {d : Decimal} (hlow : 2 ^ (-1075 : ℤ) ≤ d.value)
    (hhigh : d.value < limit) : -325 < d.scientific ∧ d.scientific < 309 := by
  have hpos : 0 < d.digits := value_pos.mp (lt_of_lt_of_le (zpow_pos (by norm_num) _) hlow)
  constructor
  · have hbase : 2 ^ 1075 ≤ 10 ^ 324 := by decide +kernel
    have hten : (10 : ℚ) ^ (-324 : ℤ) ≤ 2 ^ (-1075 : ℤ) := by
      rw [zpow_neg, zpow_neg]
      apply inv_anti₀ (by positivity)
      exact_mod_cast hbase
    have := (zpow_lt_zpow_iff_right₀ (by norm_num)).mp ((hten.trans hlow).trans_lt d.value_lt)
    omega
  · have hbase : 2 ^ 1024 ≤ 10 ^ 309 := by decide +kernel
    have hten : limit ≤ (10 : ℚ) ^ (309 : ℤ) := by
      rw [limit_eq]
      exact_mod_cast hbase
    exact (zpow_lt_zpow_iff_right₀ (by norm_num)).mp
      (((ten_zpow_scientific_le hpos).trans_lt hhigh).trans_le hten)

/-! ### Reading a decimal -/

/-- A decimal within range is read as the nearest number. -/
theorem hasValue_ofDecimal {d : Decimal} (hlow : 2 ^ (-1075 : ℤ) ≤ d.value)
    (hhigh : d.value < limit) (hsize : |rounded d.value| < limit) :
    HasValue (ofDecimal d.digits d.exponent) (rounded d.value) := by
  obtain ⟨hleast, hgreatest⟩ := d.scientific_bounds hlow hhigh
  have hpos : 0 < d.digits := Decimal.value_pos.mp (lt_of_lt_of_le (zpow_pos (by norm_num) _) hlow)
  have hlen : 0 < (toString d.digits).length := length_toString_pos d.digits
  -- there are at most as many decimal places as binary ones
  have hlog : (toString d.digits).length - 1 ≤ d.digits.log2 := by
    rw [Nat.le_log2 hpos.ne']
    exact (Nat.pow_le_pow_left (by norm_num) _).trans (ten_pow_length_le hpos)
  have htop : ((toString d.digits).length : ℤ) + d.exponent = d.scientific + 1 := by
    show _ = ((toString d.digits).length : ℤ) - 1 + d.exponent + 1
    ring
  unfold ofDecimal
  rw [if_neg hpos.ne']
  simp only [htop]
  rw [if_neg (by omega), if_neg (by omega)]
  split
  · rename_i hexp
    exact hasValue_ofScientific (by simpa using (Int.toNat_of_nonneg hexp).symm)
      (by omega) (by omega) hsize
  · rename_i hexp
    refine hasValue_ofScientific ?_ (by omega) (by omega) hsize
    rw [if_pos rfl]
    omega

theorem IsStored.lt_limit (h : IsStored m e) : (2 : ℚ) ^ (53 + e) ≤ limit := by
  rw [limit_eq]
  exact zpow_le_zpow_right₀ (by norm_num) (by have := h.greatest; omega)

/-- The shortest digits of a number are within range. -/
theorem shortest_bounds (h : IsStored m e) :
    2 ^ (-1075 : ℤ) ≤ (shortest m e).value ∧ (shortest m e).value < limit := by
  have hholds := holds_shortest h
  refine ⟨le_trans ?_ (holds_pos h.pos hholds), (holds_lt h.lt hholds).trans_le h.lt_limit⟩
  exact zpow_le_zpow_right₀ (by norm_num) (by have := h.least; omega)

/-- The shortest digits of a number are read as the number. -/
theorem hasValue_of_shortest (h : IsStored m e) {d : Decimal}
    (hd : d.value = (shortest m e).value) :
    HasValue (ofDecimal d.digits d.exponent) (m * 2 ^ e) := by
  obtain ⟨hlow, hhigh⟩ := shortest_bounds h
  rw [← hd] at hlow hhigh
  have hround : rounded d.value = m * 2 ^ e := by rw [hd, rounded_shortest h]
  have hsize : |rounded d.value| < limit := by
    have hpos : (0 : ℚ) < 2 ^ e := zpow_pos (by norm_num) e
    rw [hround, abs_of_nonneg (by positivity)]
    refine lt_of_lt_of_le ?_ h.lt_limit
    rw [zpow_add₀ (by norm_num)]
    apply mul_lt_mul_of_pos_right _ hpos
    norm_num
    exact_mod_cast h.lt
  rw [← hround]
  exact hasValue_ofDecimal hlow hhigh hsize

end EffectTiming.Binary64
