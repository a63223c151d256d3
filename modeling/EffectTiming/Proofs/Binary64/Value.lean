import Mathlib
import EffectTiming.Binary64.Parts
import EffectTiming.Proofs.Binary64.Operations

/-!
# The value of a binary64 number

`HasValue x q` says that `x` is finite and stands for the rational number `q`. An operation on
numbers with values has the rounded exact result as its value, as long as that stays below `2 ^
1024`; from there on it is infinite. Comparisons compare the values.

## Main statements

* `hasValue_pack`, `unpack_pack_of_le`: a rounded result is kept or becomes infinite.
* `HasValue.add` and its companions: one statement for each operation.
* `parts_eq`: the parts of a number are those of its unpacked form.
* `HasValue.lt_iff` and its companions: comparisons.
-/

namespace EffectTiming.Binary64

open Float.Model (Format UnpackedFloat)
open Float.Model.UnpackedFloat

/-! ### Packing -/

/-- The exponent is small enough to be stored. -/
def Stored : UnpackedFloat → Prop
  | .finite _ _ e _ => e ≤ 971
  | _ => True

theorem unpack_packedInfinity (s : Sign) :
    unpack .binary64 (packedInfinity .binary64 s) = .infinity s := by
  simp [unpack, packedInfinity]

/-- A full significand is stored without its first bit. -/
theorem unpack_packComponents_normal {s : Sign} {m b : ℕ} (hlow : 4503599627370496 ≤ m)
    (hhigh : m < 9007199254740992) (hb : 0 < b) (hb' : b < 2047) :
    unpack .binary64 (packComponents .binary64 s (BitVec.ofNat 11 b) (BitVec.ofNat 52 m)) =
      .finite s m (b - 1075) (by omega) := by
  have hexp : (BitVec.ofNat 11 b).toNat = b := by
    rw [BitVec.toNat_ofNat]
    exact Nat.mod_eq_of_lt (by omega)
  have hmant : (1#1 ++ BitVec.ofNat 52 m).toNat = m := by
    rw [BitVec.toNat_append, BitVec.toNat_ofNat, BitVec.toNat_ofNat,
      ← Nat.shiftLeft_add_eq_or_of_lt]
    · rw [Nat.shiftLeft_eq]
      omega
    · exact Nat.mod_lt _ (by norm_num)
  have htop : BitVec.ofNat 11 b ≠ -1#11 := by
    intro h
    have := congrArg BitVec.toNat h
    rw [hexp] at this
    exact absurd this (by rw [show (-1#11).toNat = 2047 from rfl]; omega)
  have hzero : BitVec.ofNat 11 b ≠ 0#11 := by
    intro h
    have := congrArg BitVec.toNat h
    rw [hexp] at this
    exact absurd this (by rw [show (0#11).toNat = 0 from rfl]; omega)
  unfold unpack
  simp only [unpackMantissa_packComponents, unpackExponent_packComponents,
    unpackSign_packComponents, Sign.ofBitVec_toBitVec]
  rw [if_neg htop, if_neg hzero]
  congr 1
  rw [hexp]
  rfl

/-- A short significand is stored as it is, under the least exponent. -/
theorem unpack_packComponents_subnormal {s : Sign} {m : ℕ} (hm : 0 < m)
    (hhigh : m < 4503599627370496) :
    unpack .binary64 (packComponents .binary64 s 0#11 (BitVec.ofNat 52 m)) =
      .finite s m (-1074) hm := by
  have hmant : (BitVec.ofNat 52 m).toNat = m := by
    rw [BitVec.toNat_ofNat]
    exact Nat.mod_eq_of_lt hhigh
  have hzero : BitVec.ofNat 52 m ≠ 0#52 := by
    intro h
    have := congrArg BitVec.toNat h
    rw [hmant] at this
    exact hm.ne' this
  unfold unpack
  simp only [unpackMantissa_packComponents, unpackExponent_packComponents,
    unpackSign_packComponents, Sign.ofBitVec_toBitVec]
  rw [if_neg (by decide), if_pos trivial, dif_neg hzero]
  congr 1

theorem unpack_pack {u : UnpackedFloat} (hc : Canonical u) (hs : Stored u) :
    unpack .binary64 (pack .binary64 u) = u := by
  cases u with
  | infinity s => exact unpack_packedInfinity s
  | notANumber => exact unpack_packedNaN
  | zero s => exact unpack_packedZero
  | finite s m e hm =>
    obtain ⟨hlt, he, hlong⟩ := hc
    have he' : e ≤ 971 := hs
    have hbias :
      (e + Format.binary64.exponentBias + Format.binary64.mantissaBitsWithoutImplicit).toNat
        = (e + 1075).toNat := by
      show (e + (1023 : ℕ) + (52 : ℕ)).toNat = _
      congr 1
      ring
    unfold pack
    simp only [hbias]
    rw [if_neg (by show ¬ 2048 ≤ _; omega)]
    by_cases hfull : 4503599627370496 ≤ m
    · have hlog : m.log2 + 1 = Format.binary64.mantissaBits := by
        have : m.log2 = 52 := (Nat.log2_eq_iff hm.ne').mpr ⟨hfull, hlt⟩
        rw [this]
        rfl
      rw [if_pos hlog]
      refine (unpack_packComponents_normal hfull hlt (by omega) (by omega)).trans ?_
      congr 1
      omega
    · have hlog : m.log2 + 1 ≠ Format.binary64.mantissaBits := by
        have : m.log2 < 52 := (Nat.log2_lt hm.ne').mpr (by omega)
        show m.log2 + 1 ≠ 53
        omega
      rw [if_neg hlog]
      obtain rfl : e = -1074 := by omega
      exact unpack_packComponents_subnormal hm (by omega)

/-- An exponent that is too large to be stored makes an infinity. -/
theorem unpack_pack_of_not_stored {s : Sign} {m : ℕ} {e : ℤ} (hm : 0 < m) (he : 971 < e) :
    unpack .binary64 (pack .binary64 (.finite s m e hm)) = .infinity s := by
  unfold pack
  have : 2 ^ Format.binary64.exponentBits ≤
      (e + Format.binary64.exponentBias + Format.binary64.mantissaBitsWithoutImplicit).toNat +
      1 := by
    show 2048 ≤ (e + (1023 : ℕ) + (52 : ℕ)).toNat + 1
    omega
  simp only [this, if_true]
  exact unpack_packedInfinity s

/-- What is read from bits is in canonical form, and its exponent was stored. -/
theorem canonical_unpack (b : BitVec 64) :
    Canonical (unpack .binary64 b) ∧ Stored (unpack .binary64 b) := by
  have hmant : (@unpackMantissa .binary64 b).toNat < 4503599627370496 :=
    (@unpackMantissa .binary64 b).isLt
  have hexp : (@unpackExponent .binary64 b).toNat < 2048 :=
    (@unpackExponent .binary64 b).isLt
  unfold unpack
  simp only
  split
  · -- the top exponent is that of the infinities and of what is no number
    split
    · exact ⟨trivial, trivial⟩
    · exact ⟨trivial, trivial⟩
  · rename_i htop
    have htop : (@unpackExponent .binary64 b).toNat ≠ 2047 := fun h =>
      htop (BitVec.eq_of_toNat_eq h)
    split
    · rename_i hzero
      split
      · exact ⟨trivial, trivial⟩
      · rw [hzero]
        refine ⟨⟨by omega, by decide, Or.inr rfl⟩, ?_⟩
        show (0 : ℤ) - ((1023 : ℕ) + (52 : ℕ)) + 1 ≤ 971
        decide
    · -- any other exponent has the hidden bit in front of the significand
      rename_i hzero
      have hzero : (@unpackExponent .binary64 b).toNat ≠ 0 := fun h =>
        hzero (BitVec.eq_of_toNat_eq h)
      have happend : (1#1 ++ @unpackMantissa .binary64 b).toNat =
          4503599627370496 + (@unpackMantissa .binary64 b).toNat := by
        rw [BitVec.toNat_append, ← Nat.shiftLeft_add_eq_or_of_lt (BitVec.isLt _)]
        rfl
      refine ⟨⟨?_, ?_, Or.inl ?_⟩, ?_⟩
      · show (1#1 ++ @unpackMantissa .binary64 b).toNat < _
        omega
      · show -1074 ≤ ((@unpackExponent .binary64 b).toNat : ℤ) - ((1023 : ℕ) + (52 : ℕ))
        omega
      · show _ ≤ (1#1 ++ @unpackMantissa .binary64 b).toNat
        omega
      · show ((@unpackExponent .binary64 b).toNat : ℤ) - ((1023 : ℕ) + (52 : ℕ)) ≤ 971
        omega

/-! ### Values -/

/-- `x` is finite and stands for `q`. -/
def HasValue (x : Float) (q : ℚ) : Prop := IsNumber x.toModel.unpack q

variable {x y : Float} {p q : ℚ}

theorem HasValue.unique (h : HasValue x p) (h' : HasValue x q) : p = q :=
  h.value.symm.trans h'.value

/-- The value of a finite number, and zero for all others. -/
def value (x : Float) : ℚ := unpackedValue x.toModel.unpack

theorem HasValue.value_eq (h : HasValue x q) : value x = q := IsNumber.value h

theorem HasValue.representable (h : HasValue x q) : Representable q := IsNumber.representable h

theorem abs_signed_significand (s : Sign) (m : ℕ) (e : ℤ) :
    |signed s ((m : ℚ) * 2 ^ e)| = m * 2 ^ e := by
  have : (0 : ℚ) ≤ m * 2 ^ e := by positivity
  cases s
  · rw [signed, abs_neg, abs_of_nonneg this]
  · rw [signed, abs_of_nonneg this]

/-- One unit of the coarsest grid. -/
def topUnit : ℚ := 2 ^ (971 : ℤ)

/-- The first power of two that is out of range, `2 ^ 1024`. -/
def limit : ℚ := 9007199254740992 * topUnit

theorem topUnit_pos : 0 < topUnit := zpow_pos (by norm_num) _

theorem limit_eq : limit = 2 ^ (1024 : ℤ) := by
  rw [limit, topUnit, show (1024 : ℤ) = 53 + 971 by norm_num, zpow_add₀ (by norm_num)]
  norm_num

theorem zpow_lt_limit {e : ℤ} (he : e < 1024) : (2 : ℚ) ^ e < limit := by
  rw [limit_eq]
  exact zpow_lt_zpow_right₀ (by norm_num) he

/-- A value stays below the limit by at least one unit of the coarsest grid. -/
theorem HasValue.abs_le (h : HasValue x q) : |q| ≤ limit - topUnit := by
  have hstored := (canonical_unpack x.toModel.toBits.toBitVec).2
  have hunit := topUnit_pos
  change Stored x.toModel.unpack at hstored
  have hcanonical := h.canonical
  rcases h.cases with ⟨s, hx, rfl⟩ | ⟨s, m, e, hm, hx, rfl⟩
  · rw [abs_zero, limit]
    linarith
  · rw [hx] at hstored hcanonical
    have hstored : e ≤ 971 := hstored
    have hm' : (m : ℚ) ≤ 9007199254740991 := by exact_mod_cast Nat.lt_succ_iff.mp hcanonical.1
    rw [abs_signed_significand]
    calc (m : ℚ) * 2 ^ e ≤ 9007199254740991 * topUnit :=
          mul_le_mul hm' (zpow_le_zpow_right₀ (by norm_num) hstored) (by positivity) (by norm_num)
      _ = limit - topUnit := by
          rw [limit]
          ring

theorem HasValue.abs_lt (h : HasValue x q) : |q| < limit := by
  have := h.abs_le
  have := topUnit_pos
  linarith

/-- A result in range is stored as it is. -/
theorem hasValue_pack {u : UnpackedFloat} (h : IsNumber u q) (hq : |q| < limit) :
    HasValue ⟨Float.Model.pack u⟩ q := by
  have hstored : Stored u := by
    rcases h.cases with ⟨s, rfl, rfl⟩ | ⟨s, m, e, hm, rfl, rfl⟩
    · trivial
    · obtain ⟨-, -, hlong⟩ := h.canonical
      show e ≤ 971
      by_contra hlarge
      rw [abs_signed_significand] at hq
      have hm' : (4503599627370496 : ℚ) ≤ m := by exact_mod_cast hlong.resolve_right (by omega)
      have hgrid : 2 * topUnit ≤ 2 ^ e := by
        rw [topUnit, ← zpow_one_add₀ (by norm_num)]
        exact zpow_le_zpow_right₀ (by norm_num) (by omega)
      have : 4503599627370496 * (2 * topUnit) ≤ m * 2 ^ e :=
        mul_le_mul hm' hgrid (by linarith [topUnit_pos]) (by positivity)
      rw [limit] at hq
      linarith
  show IsNumber (unpack .binary64 (pack .binary64 u)) q
  rwa [unpack_pack h.canonical hstored]

/-- A significand needs a large exponent to be out of range. -/
theorem lt_exponent_of_limit_le {m : ℕ} {e : ℤ} (hm : m < 9007199254740992)
    (h : limit ≤ m * 2 ^ e) : 971 < e := by
  by_contra hsmall
  have hpow : (2 : ℚ) ^ e ≤ topUnit := zpow_le_zpow_right₀ (by norm_num) (not_lt.mp hsmall)
  have hm' : (m : ℚ) < 9007199254740992 := by exact_mod_cast hm
  have hlt : (m : ℚ) * 2 ^ e < limit := mul_lt_mul hm' hpow (zpow_pos (by norm_num) e) (by norm_num)
  linarith

/-- A result out of range becomes an infinity of its sign. -/
theorem unpack_pack_of_limit_le {u : UnpackedFloat} (h : IsNumber u q) (hq : limit ≤ q) :
    (⟨Float.Model.pack u⟩ : Float).toModel.unpack = .infinity .positive := by
  have hlimit : 0 < limit := by
    rw [limit]
    linarith [topUnit_pos]
  rcases h.cases with ⟨s, rfl, rfl⟩ | ⟨s, m, e, hm, rfl, rfl⟩
  · linarith
  · cases s with
    | negative =>
      have : (0 : ℚ) ≤ m * 2 ^ e := by positivity
      rw [signed] at hq
      linarith
    | positive => exact unpack_pack_of_not_stored hm (lt_exponent_of_limit_le h.canonical.1 hq)

theorem hasValue_of_unpack {s : Sign} {m : ℕ} {e : ℤ} {hm : 0 < m}
    (h : x.toModel.unpack = .finite s m e hm) : HasValue x (signed s (m * 2 ^ e)) := by
  have hc := (canonical_unpack x.toModel.toBits.toBitVec).1
  change Canonical x.toModel.unpack at hc
  rw [h] at hc
  rw [HasValue, h]
  exact ⟨hc, rfl, rfl⟩

/-- Rounding stays in range for numbers that are nearer to the greatest one than to `limit`. -/
theorem abs_rounded_lt (hq : |q| < limit - topUnit / 2) : |rounded q| < limit := by
  have hgrid : gridExponent q ≤ 971 := by
    rw [gridExponent]
    rcases eq_or_ne q 0 with rfl | hq0
    · rw [abs_zero, Int.log_zero_right]
      norm_num
    · have hlt : |q| < ((2 : ℕ) : ℚ) ^ (1024 : ℤ) := by
        rw [Nat.cast_ofNat, ← limit_eq]
        linarith [topUnit_pos]
      have := (Int.lt_zpow_iff_log_lt (b := 2) (by norm_num) (abs_pos.mpr hq0)).mp hlt
      omega
  have herr := abs_rounded_sub_le_half_grid q
  have hle : (2 : ℚ) ^ gridExponent q ≤ topUnit := zpow_le_zpow_right₀ (by norm_num) hgrid
  calc |rounded q| = |q + (rounded q - q)| := by ring_nf
    _ ≤ |q| + |rounded q - q| := abs_add_le _ _
    _ < limit := by linarith

/-! ### Operations -/

theorem HasValue.add (hx : HasValue x p) (hy : HasValue y q) (h : |rounded (p + q)| < limit) :
    HasValue (x + y) (rounded (p + q)) :=
  hasValue_pack (IsNumber.add hx hy) h

theorem HasValue.sub (hx : HasValue x p) (hy : HasValue y q) (h : |rounded (p - q)| < limit) :
    HasValue (x - y) (rounded (p - q)) :=
  hasValue_pack (IsNumber.sub hx hy) h

theorem HasValue.mul (hx : HasValue x p) (hy : HasValue y q) (h : |rounded (p * q)| < limit) :
    HasValue (x * y) (rounded (p * q)) :=
  hasValue_pack (IsNumber.mul hx hy) h

theorem HasValue.div (hx : HasValue x p) (hy : HasValue y q) (hq : q ≠ 0)
    (h : |rounded (p / q)| < limit) : HasValue (x / y) (rounded (p / q)) :=
  hasValue_pack (IsNumber.div hx hy hq) h

theorem HasValue.neg (hx : HasValue x p) : HasValue (-x) (-p) :=
  hasValue_pack (IsNumber.neg hx) ((abs_neg p).trans_lt hx.abs_lt)

theorem HasValue.abs (hx : HasValue x p) : HasValue x.abs |p| :=
  hasValue_pack (IsNumber.abs hx) ((abs_abs p).trans_lt hx.abs_lt)

/-! ### Sizes -/

/-- `x` is finite and at most `2 ^ k` in size. -/
def AtMost (x : Float) (k : ℕ) : Prop := ∃ v, HasValue x v ∧ |v| ≤ 2 ^ k

variable {j k : ℕ}

theorem AtMost.mono (h : AtMost x j) (hjk : j ≤ k) : AtMost x k := by
  obtain ⟨v, hv, hle⟩ := h
  exact ⟨v, hv, hle.trans (pow_le_pow_right₀ (by norm_num) hjk)⟩

/-- Rounding respects powers of two. -/
theorem abs_rounded_le_pow (hq : |q| ≤ 2 ^ k) : |rounded q| ≤ 2 ^ k := by
  refine abs_rounded_le ?_ hq
  rw [← zpow_natCast]
  exact representable_zpow (by omega)

theorem pow_lt_limit (hk : k < 1024) : (2 : ℚ) ^ k < limit := by
  rw [← zpow_natCast]
  exact zpow_lt_limit (by omega)

theorem AtMost.add (hx : AtMost x k) (hy : AtMost y k) (hk : k < 1000) :
    AtMost (x + y) (k + 1) := by
  obtain ⟨v, hv, hvle⟩ := hx
  obtain ⟨w, hw, hwle⟩ := hy
  have hsum : |rounded (v + w)| ≤ 2 ^ (k + 1) := by
    apply abs_rounded_le_pow
    rw [pow_succ]
    linarith [abs_add_le v w]
  exact ⟨_, hv.add hw (hsum.trans_lt (pow_lt_limit (by omega))), hsum⟩

theorem AtMost.sub (hx : AtMost x k) (hy : AtMost y k) (hk : k < 1000) :
    AtMost (x - y) (k + 1) := by
  obtain ⟨v, hv, hvle⟩ := hx
  obtain ⟨w, hw, hwle⟩ := hy
  have hdiff : |rounded (v - w)| ≤ 2 ^ (k + 1) := by
    apply abs_rounded_le_pow
    rw [pow_succ]
    linarith [abs_sub v w]
  exact ⟨_, hv.sub hw (hdiff.trans_lt (pow_lt_limit (by omega))), hdiff⟩

theorem AtMost.mul (hx : AtMost x j) (hy : AtMost y k) (hjk : j + k < 1000) :
    AtMost (x * y) (j + k) := by
  obtain ⟨v, hv, hvle⟩ := hx
  obtain ⟨w, hw, hwle⟩ := hy
  have hprod : |rounded (v * w)| ≤ 2 ^ (j + k) := by
    apply abs_rounded_le_pow
    rw [abs_mul, pow_add]
    gcongr
  exact ⟨_, hv.mul hw (hprod.trans_lt (pow_lt_limit (by omega))), hprod⟩

/-- Division by one or more does not make a number larger. -/
theorem AtMost.div (hx : AtMost x k) (hy : HasValue y q) (hq : 1 ≤ |q|) (hk : k < 1000) :
    AtMost (x / y) k := by
  obtain ⟨v, hv, hvle⟩ := hx
  have hquot : |rounded (v / q)| ≤ 2 ^ k := by
    apply abs_rounded_le_pow
    rw [abs_div]
    exact (div_le_self (abs_nonneg v) hq).trans hvle
  have hq0 : q ≠ 0 := abs_pos.mp (by linarith)
  exact ⟨_, hv.div hy hq0 (hquot.trans_lt (pow_lt_limit (by omega))), hquot⟩

/-! ### Whole numbers -/

theorem isNumber_ofInt (n : ℤ) : IsNumber (UnpackedFloat.ofInt .binary64 n) (rounded n) := by
  have := normalize_isNumber n 0 .positive
  rwa [zpow_zero, mul_one] at this

theorem pow_ten_pos (n : ℕ) : 0 < 10 ^ n := Nat.pow_pos (by norm_num)

/-- A decimal is rounded once, from its own places and fifty-three more or from an exact
quotient. -/
theorem isNumber_ofScientific {n : ℕ} {k : ℤ} (hlow : -(2048 + n.log2) ≤ k) (hhigh : k ≤ 2048) :
    IsNumber (UnpackedFloat.ofScientific .binary64 n k) (rounded (n * 10 ^ k)) := by
  rcases Nat.eq_zero_or_pos n with rfl | hn
  · rw [Nat.cast_zero, zero_mul, rounded_zero]
    exact isNumber_zero .positive
  have hbits : (2 : ℤ) ^ Format.binary64.exponentBits = 2048 := rfl
  unfold UnpackedFloat.ofScientific
  rw [dif_neg hn.ne', hbits, if_neg (by omega), if_neg (by omega)]
  split
  · rename_i hk
    have hpos : 0 < n <<< 53 := by
      rw [Nat.shiftLeft_eq]
      positivity
    have hlong : 4503599627370496 ≤ (n <<< 53) * 10 ^ k.toNat := by
      refine le_trans ?_ (Nat.le_mul_of_pos_right _ (pow_ten_pos k.toNat))
      rw [Nat.shiftLeft_eq]
      omega
    have h := product_isNumber (e := -53) (f := 0) .positive .positive hpos (pow_ten_pos k.toNat)
      (Or.inl hlong)
    have hval : signed .positive ((n <<< 53 : ℕ) * 2 ^ (-53 : ℤ)) *
        signed .positive ((10 ^ k.toNat : ℕ) * 2 ^ (0 : ℤ)) = n * 10 ^ k := by
      have hten : ((10 ^ k.toNat : ℕ) : ℚ) = 10 ^ k := by
        rw [Nat.cast_pow, ← zpow_natCast, Int.toNat_of_nonneg hk, Nat.cast_ofNat]
      have htwo : (2 : ℚ) ^ (-53 : ℤ) = (2 ^ 53)⁻¹ := by norm_num
      rw [signed, signed, Nat.shiftLeft_eq, hten, htwo]
      push_cast
      ring
    rwa [hval] at h
  · rename_i hk
    have h := quotient_isNumber .positive .positive hn (pow_ten_pos (-k).toNat) 0 0
    have hval : signed .positive (n * 2 ^ (0 : ℤ)) /
        signed .positive ((10 ^ (-k).toNat : ℕ) * 2 ^ (0 : ℤ)) = n * 10 ^ k := by
      have hten : ((10 ^ (-k).toNat : ℕ) : ℚ) = (10 ^ k)⁻¹ := by
        rw [Nat.cast_pow, ← zpow_natCast, Int.toNat_of_nonneg (by omega), zpow_neg, Nat.cast_ofNat]
      rw [signed, signed, hten, zpow_zero, mul_one, mul_one, div_inv_eq_mul]
    rwa [hval] at h

/-- A significand that fits is converted without loss. -/
theorem hasValue_toFloat_of_lt {n : ℕ} (hn : n < 9007199254740992) :
    HasValue n.toUInt64.toFloat n := by
  have hword : n.toUInt64.toNat = n := Nat.mod_eq_of_lt (by omega)
  have hsmall : |(n : ℤ)| ≤ 9007199254740992 := by
    rw [Nat.abs_cast]
    exact_mod_cast hn.le
  have hexact : rounded n = n := by
    have := rounded_of_representable (representable_intCast hsmall)
    exact_mod_cast this
  have h : IsNumber (UnpackedFloat.ofUInt64 .binary64 n.toUInt64) (rounded n) := by
    show IsNumber (UnpackedFloat.ofInt .binary64 (n.toUInt64.toNat : ℤ)) _
    rw [hword]
    exact isNumber_ofInt n
  rw [hexact] at h
  apply hasValue_pack h
  rw [Nat.abs_cast]
  calc (n : ℚ) < 2 ^ (53 : ℤ) := by exact_mod_cast hn
    _ < limit := zpow_lt_limit (by norm_num)

/-- The unpacked number is the whole number `n`. -/
def standsFor (n : ℕ) : UnpackedFloat → Bool
  | .finite .positive m e _ => m * 2 ^ e.toNat == n * 2 ^ (-e).toNat
  | _ => false

theorem hasValue_of_standsFor {n : ℕ} (h : standsFor n x.toModel.unpack = true) : HasValue x n := by
  cases hx : x.toModel.unpack with
  | finite s m e hm =>
    rw [hx] at h
    cases s with
    | negative => cases h
    | positive =>
      have hcast : (m : ℚ) * 2 ^ e.toNat = n * 2 ^ (-e).toNat := by exact_mod_cast beq_iff_eq.mp h
      have hval : (m : ℚ) * 2 ^ e = n := by
        have hpos : (2 : ℚ) ^ (-e).toNat ≠ 0 := by positivity
        rw [← mul_left_inj' hpos, ← hcast, mul_assoc, ← zpow_natCast, ← zpow_natCast,
          ← zpow_add₀ (by norm_num)]
        congr 2
        omega
      have := hasValue_of_unpack hx
      rwa [signed, hval] at this
  | infinity s =>
    rw [hx] at h
    cases h
  | notANumber =>
    rw [hx] at h
    cases h
  | zero s =>
    rw [hx] at h
    cases h

/-- The tabulated powers of ten are exact. -/
theorem hasValue_powerOfTen {i : ℕ} (hi : i < Float.exactlyRepresentablePowersOfTen.size) :
    HasValue Float.exactlyRepresentablePowersOfTen[i] (10 ^ i) := by
  have htable : ∀ i : Fin 23,
      standsFor (10 ^ (i : ℕ)) Float.exactlyRepresentablePowersOfTen[i].toModel.unpack = true := by
    decide +kernel
  have := hasValue_of_standsFor (htable ⟨i, hi⟩)
  rwa [Nat.cast_pow, Nat.cast_ofNat] at this

/-- A decimal is rounded once, also where it is computed from a table. -/
theorem hasValue_ofScientific {n i : ℕ} {s : Bool} {k : ℤ} (hk : k = if s then -(i : ℤ) else i)
    (hlow : -(2048 + n.log2) ≤ k) (hhigh : k ≤ 2048) (hsize : |rounded (n * 10 ^ k)| < limit) :
    HasValue (Float.ofScientific n s i) (rounded (n * 10 ^ k)) := by
  unfold Float.ofScientific
  split
  · rename_i hsmall
    have hn := hasValue_toFloat_of_lt hsmall.1
    have hten := hasValue_powerOfTen (i := i) (Nat.lt_succ_iff.mpr hsmall.2)
    simp only
    split
    · rename_i hs
      rw [hk, if_pos hs, zpow_neg, zpow_natCast, ← div_eq_mul_inv] at hsize ⊢
      exact hn.div hten (by positivity) hsize
    · rename_i hs
      rw [hk, if_neg hs, zpow_natCast] at hsize ⊢
      exact hn.mul hten hsize
  · have hexp : (if s = true then Int.negOfNat i else Int.ofNat i) = k := by
      rw [hk, Int.negOfNat_eq]
      rfl
    simp only [hexp]
    exact hasValue_pack (isNumber_ofScientific hlow hhigh) hsize

theorem hasValue_ofNat (n : ℕ) (hn : |rounded n| < limit) :
    HasValue (Float.ofNat n) (rounded n) := by
  have h :=
    hasValue_ofScientific (n := n) (i := 0) (s := false) (k := 0) rfl (by omega) (by norm_num)
  rw [zpow_zero, mul_one] at h
  exact h hn

theorem hasValue_ofInt (n : ℤ) (hn : |rounded n| < limit) :
    HasValue (Float.ofInt n) (rounded n) := by
  cases n with
  | ofNat n => exact hasValue_ofNat n hn
  | negSucc n =>
    have hcast : ((Int.negSucc n : ℤ) : ℚ) = -((n + 1 : ℕ) : ℚ) := by
      rw [Int.cast_negSucc]
    rw [hcast, rounded_neg, abs_neg] at hn
    rw [hcast, rounded_neg]
    exact (hasValue_ofNat (n + 1) hn).neg

/-- Small whole numbers are exact. -/
theorem hasValue_ofNat_of_le {n : ℕ} (hn : n ≤ 9007199254740992) : HasValue (Float.ofNat n) n := by
  have hexact : rounded n = n := by
    refine rounded_of_representable ?_
    have := representable_intCast (m := n) (by
      rw [Nat.abs_cast]
      exact_mod_cast hn)
    exact_mod_cast this
  have hsize : |rounded n| ≤ 2 ^ 53 := abs_rounded_le_pow (by
    rw [Nat.abs_cast]
    exact_mod_cast hn)
  have := hasValue_ofNat n (hsize.trans_lt (pow_lt_limit (by norm_num)))
  rwa [hexact] at this

/-- Powers of two are exact. -/
theorem hasValue_two_pow (hk : k < 1024) : HasValue (Float.ofNat (2 ^ k)) (2 ^ k) := by
  have hexact : rounded ((2 ^ k : ℕ) : ℚ) = 2 ^ k := by
    rw [Nat.cast_pow, Nat.cast_ofNat]
    refine rounded_of_representable ?_
    rw [← zpow_natCast]
    exact representable_zpow (by omega)
  have h := hasValue_ofNat (2 ^ k) (by
    rw [hexact, abs_of_pos (by positivity)]
    exact pow_lt_limit hk)
  rwa [hexact] at h

theorem hasValue_zero : HasValue 0 0 := by
  exact_mod_cast hasValue_ofNat_of_le (n := 0) (by norm_num)

theorem hasValue_one : HasValue 1 1 := by
  exact_mod_cast hasValue_ofNat_of_le (n := 1) (by norm_num)

theorem atMost_zero (k : ℕ) : AtMost 0 k := ⟨0, hasValue_zero, by rw [abs_zero]; positivity⟩

theorem atMost_one (k : ℕ) : AtMost 1 k :=
  ⟨1, hasValue_one, by rw [abs_one]; exact one_le_pow₀ (by norm_num)⟩

theorem atMost_ofInt {n : ℤ} (hn : |n| ≤ 2 ^ k) (hk : k < 1000) : AtMost (Float.ofInt n) k := by
  have hsize : |rounded n| ≤ 2 ^ k := abs_rounded_le_pow (by exact_mod_cast hn)
  exact ⟨_, hasValue_ofInt n (hsize.trans_lt (pow_lt_limit (by omega))), hsize⟩

/-! ### Comparisons -/

/-- Numbers in canonical form are ordered by the exponent first. -/
theorem compare_significands {s t : Sign} {m n : ℕ} {e f : ℤ} {hm : 0 < m} {hn : 0 < n}
    (ha : Canonical (.finite s m e hm)) (hb : Canonical (.finite t n f hn)) :
    (compare e f).then (compare m n) = compare ((m : ℚ) * 2 ^ e) (n * 2 ^ f) := by
  have key : ∀ {m n : ℕ} {e f : ℤ}, m < 9007199254740992 → -1074 ≤ e →
      (4503599627370496 ≤ n ∨ f = -1074) → e < f → (m : ℚ) * 2 ^ e < n * 2 ^ f := by
    intro m n e f hm he hn hef
    have hn : 4503599627370496 ≤ n := hn.resolve_right (by omega)
    have hlt : (m : ℚ) < 2 * n := by
      have : m < 2 * n := by omega
      exact_mod_cast this
    calc (m : ℚ) * 2 ^ e < 2 * n * 2 ^ e := by gcongr
      _ = n * 2 ^ (e + 1) := by
          rw [zpow_add_one₀ (by norm_num)]
          ring
      _ ≤ n * 2 ^ f := by
          gcongr
          · norm_num
          · omega
  obtain ⟨hm, he, hm'⟩ := ha
  obtain ⟨hn, hf, hn'⟩ := hb
  rcases lt_trichotomy e f with hlt | rfl | hgt
  · rw [compare_lt_iff_lt.mpr hlt, compare_lt_iff_lt.mpr (key hm he hn' hlt)]
    rfl
  · have hpow : (0 : ℚ) < 2 ^ e := zpow_pos (by norm_num) e
    rw [compare_eq_iff_eq.mpr rfl]
    show compare m n = _
    rcases lt_trichotomy m n with h | rfl | h
    · rw [compare_lt_iff_lt.mpr h, compare_lt_iff_lt.mpr (by gcongr)]
    · rw [compare_eq_iff_eq.mpr rfl, compare_eq_iff_eq.mpr rfl]
    · rw [compare_gt_iff_gt.mpr h, compare_gt_iff_gt.mpr (by show _ > _; gcongr)]
  · rw [compare_gt_iff_gt.mpr hgt, compare_gt_iff_gt.mpr (key hn hf hm' hgt)]
    rfl

theorem compare_neg_neg (p q : ℚ) : compare (-p) (-q) = (compare p q).swap := by
  rcases lt_trichotomy p q with h | rfl | h
  · rw [compare_lt_iff_lt.mpr h, compare_gt_iff_gt.mpr (neg_lt_neg h)]
    rfl
  · rw [compare_eq_iff_eq.mpr rfl, compare_eq_iff_eq.mpr rfl]
    rfl
  · rw [compare_gt_iff_gt.mpr h, compare_lt_iff_lt.mpr (neg_lt_neg h)]
    rfl

/-- Numbers are compared by their values. -/
theorem IsNumber.compare_eq {a b : UnpackedFloat} (ha : IsNumber a p) (hb : IsNumber b q) :
    UnpackedFloat.compare a b = some (compare p q) := by
  have hca := ha.canonical
  have hcb := hb.canonical
  have hpos : ∀ {m : ℕ} {e : ℤ}, 0 < m → 0 < signed .positive ((m : ℚ) * 2 ^ e) := fun hm =>
    mul_pos (by exact_mod_cast hm) (zpow_pos (by norm_num) _)
  have hneg : ∀ {m : ℕ} {e : ℤ}, 0 < m → signed .negative ((m : ℚ) * 2 ^ e) < 0 := fun hm =>
    neg_neg_of_pos (hpos hm)
  rcases ha.cases with ⟨s, rfl, rfl⟩ | ⟨s, m, e, hm, rfl, rfl⟩ <;>
    rcases hb.cases with ⟨t, rfl, rfl⟩ | ⟨t, n, f, hn, rfl, rfl⟩
  · rw [compare_eq_iff_eq.mpr rfl]
    rfl
  · cases t
    · rw [compare_gt_iff_gt.mpr (hneg hn)]
      rfl
    · rw [compare_lt_iff_lt.mpr (hpos hn)]
      rfl
  · cases s
    · rw [compare_lt_iff_lt.mpr (hneg hm)]
      rfl
    · rw [compare_gt_iff_gt.mpr (hpos hm)]
      rfl
  · have hcompare := compare_significands hca hcb
    cases s <;> cases t
    · show some (((compare e f).then (compare m n)).swap) = _
      rw [hcompare, signed, signed, compare_neg_neg]
    · rw [compare_lt_iff_lt.mpr ((hneg hm).trans (hpos hn))]
      rfl
    · rw [compare_gt_iff_gt.mpr ((hneg hn).trans (hpos hm))]
      rfl
    · exact congrArg some hcompare

theorem HasValue.lt_iff (hx : HasValue x p) (hy : HasValue y q) : x < y ↔ p < q := by
  show Float.lt x y = true ↔ _
  rw [Float.lt, decide_eq_true_eq]
  show UnpackedFloat.lt x.toModel.unpack y.toModel.unpack = true ↔ _
  rw [UnpackedFloat.lt, IsNumber.compare_eq hx hy, beq_iff_eq, Option.some_inj, compare_lt_iff_lt]

theorem HasValue.le_iff (hx : HasValue x p) (hy : HasValue y q) : x ≤ y ↔ p ≤ q := by
  show Float.le x y = true ↔ _
  rw [Float.le, decide_eq_true_eq]
  show UnpackedFloat.le x.toModel.unpack y.toModel.unpack = true ↔ _
  rw [UnpackedFloat.le, IsNumber.compare_eq hx hy]
  exact Ordering.isLE_iff_ne_gt.trans compare_le_iff_le

theorem HasValue.beq_iff (hx : HasValue x p) (hy : HasValue y q) : (x == y) = true ↔ p = q := by
  show UnpackedFloat.beq x.toModel.unpack y.toModel.unpack = true ↔ _
  rw [UnpackedFloat.beq, IsNumber.compare_eq hx hy, beq_iff_eq, Option.some_inj, compare_eq_iff_eq]

/-! ### Infinities -/

/-- `x` is positive infinity. -/
def IsInfinite (x : Float) : Prop := x.toModel.unpack = .infinity .positive

theorem IsInfinite.value_eq (hx : IsInfinite x) : value x = 0 := by
  rw [value, hx]
  rfl

theorem IsInfinite.lt (hx : IsInfinite x) (hy : HasValue y q) : y < x := by
  show Float.lt y x = true
  rw [Float.lt, decide_eq_true_eq]
  show UnpackedFloat.lt y.toModel.unpack x.toModel.unpack = true
  rw [hx]
  rcases hy.cases with ⟨s, hy, -⟩ | ⟨s, m, e, hm, hy, -⟩ <;> rw [hy] <;> cases s <;> rfl

theorem IsInfinite.le (hx : IsInfinite x) (hy : HasValue y q) : y ≤ x := by
  show Float.le y x = true
  rw [Float.le, decide_eq_true_eq]
  show UnpackedFloat.le y.toModel.unpack x.toModel.unpack = true
  rw [hx]
  rcases hy.cases with ⟨s, hy, -⟩ | ⟨s, m, e, hm, hy, -⟩ <;> rw [hy] <;> cases s <;> rfl

theorem IsInfinite.not_lt (hx : IsInfinite x) (hy : HasValue y q) : ¬ x < y := by
  show ¬ Float.lt x y = true
  rw [Float.lt, decide_eq_true_eq]
  show ¬ UnpackedFloat.lt x.toModel.unpack y.toModel.unpack = true
  rw [hx]
  rcases hy.cases with ⟨s, hy, -⟩ | ⟨s, m, e, hm, hy, -⟩ <;> rw [hy] <;> cases s <;>
    exact Bool.false_ne_true

theorem IsInfinite.beq (hx : IsInfinite x) (hy : HasValue y q) : (x == y) = false := by
  show UnpackedFloat.beq x.toModel.unpack y.toModel.unpack = false
  rw [hx]
  rcases hy.cases with ⟨s, hy, -⟩ | ⟨s, m, e, hm, hy, -⟩ <;> rw [hy] <;> rfl

theorem HasValue.beq_infinite (hx : HasValue x p) (hy : IsInfinite y) : (x == y) = false := by
  show UnpackedFloat.beq x.toModel.unpack y.toModel.unpack = false
  rw [hy]
  rcases hx.cases with ⟨s, hx, -⟩ | ⟨s, m, e, hm, hx, -⟩ <;> rw [hx] <;> cases s <;> rfl

theorem HasValue.isNaN (hx : HasValue x p) : x.isNaN = false := by
  show x.toModel.unpack.isNaN = false
  rcases hx.cases with ⟨s, hx, -⟩ | ⟨s, m, e, hm, hx, -⟩ <;> rw [hx] <;> rfl

theorem HasValue.isInf (hx : HasValue x p) : x.isInf = false := by
  show x.toModel.unpack.isInf = false
  rcases hx.cases with ⟨s, hx, -⟩ | ⟨s, m, e, hm, hx, -⟩ <;> rw [hx] <;> rfl

theorem IsInfinite.isNaN (hx : IsInfinite x) : x.isNaN = false := by
  show x.toModel.unpack.isNaN = false
  rw [hx]
  rfl

theorem IsInfinite.isInf (hx : IsInfinite x) : x.isInf = true := by
  show x.toModel.unpack.isInf = true
  rw [hx]
  rfl

/-- A positive number times infinity. -/
theorem HasValue.mul_infinite (hx : HasValue x p) (hp : 0 < p) (hy : IsInfinite y) :
    IsInfinite (x * y) := by
  have hprod : UnpackedFloat.mul .binary64 x.toModel.unpack y.toModel.unpack =
      .infinity .positive := by
    rw [hy]
    rcases hx.cases with ⟨s, hu, rfl⟩ | ⟨s, m, e, hm, hu, rfl⟩
    · exact absurd hp (lt_irrefl 0)
    · rw [hu]
      cases s with
      | positive => rfl
      | negative =>
        have : (0 : ℚ) ≤ m * 2 ^ e := by positivity
        rw [signed] at hp
        linarith
  show unpack .binary64 (pack .binary64 _) = _
  rw [hprod]
  exact unpack_packedInfinity .positive

/-- A product out of range is infinite. -/
theorem HasValue.mul_isInfinite (hx : HasValue x p) (hy : HasValue y q)
    (h : limit ≤ rounded (p * q)) : IsInfinite (x * y) :=
  unpack_pack_of_limit_le (IsNumber.mul hx hy) h

theorem HasValue.div_isInfinite (hx : HasValue x p) (hy : HasValue y q) (hq : q ≠ 0)
    (h : limit ≤ rounded (p / q)) : IsInfinite (x / y) :=
  unpack_pack_of_limit_le (IsNumber.div hx hy hq) h

/-- A number that is there and not negative has a value, or is infinite. -/
theorem exists_of_not_neg (hnan : x.isNaN = false) (hneg : ¬ x < 0) :
    (∃ q, HasValue x q ∧ 0 ≤ q) ∨ IsInfinite x := by
  have hc := (canonical_unpack x.toModel.toBits.toBitVec).1
  change Canonical x.toModel.unpack at hc
  change x.toModel.unpack.isNaN = false at hnan
  have hfinite : ∀ q, HasValue x q → (∃ q, HasValue x q ∧ 0 ≤ q) ∨ IsInfinite x := by
    intro q hq
    rw [hq.lt_iff hasValue_zero, not_lt] at hneg
    exact Or.inl ⟨q, hq, hneg⟩
  cases hx : x.toModel.unpack with
  | notANumber =>
    rw [hx] at hnan
    exact absurd hnan (by decide)
  | zero s => exact hfinite 0 (by rw [HasValue, hx]; exact isNumber_zero s)
  | finite s m e hm => exact hfinite _ (hasValue_of_unpack hx)
  | infinity s =>
    cases s with
    | positive => exact Or.inr hx
    | negative =>
      refine absurd ?_ hneg
      show Float.lt x 0 = true
      rw [Float.lt, decide_eq_true_eq]
      show UnpackedFloat.lt x.toModel.unpack (0 : Float).toModel.unpack = true
      rw [hx]
      rfl

/-! ### The number that equals nothing -/

theorem unpack_notANumber : notANumber.toModel.unpack = .notANumber := unpack_packedNaN

theorem pack_notANumber : (⟨Float.Model.pack .notANumber⟩ : Float) = notANumber := rfl

@[simp]
theorem notANumber_add (x : Float) : notANumber + x = notANumber := rfl

@[simp]
theorem add_notANumber (x : Float) : x + notANumber = notANumber := by
  show (⟨Float.Model.pack (UnpackedFloat.add .binary64 x.toModel.unpack
    notANumber.toModel.unpack)⟩ :
    Float) = _
  rw [unpack_notANumber, ← pack_notANumber]
  cases x.toModel.unpack <;> rfl

@[simp]
theorem notANumber_sub (x : Float) : notANumber - x = notANumber := rfl

@[simp]
theorem sub_notANumber (x : Float) : x - notANumber = notANumber := by
  show (⟨Float.Model.pack (UnpackedFloat.sub .binary64 x.toModel.unpack
    notANumber.toModel.unpack)⟩ :
    Float) = _
  rw [unpack_notANumber, ← pack_notANumber]
  cases x.toModel.unpack <;> rfl

@[simp]
theorem notANumber_mul (x : Float) : notANumber * x = notANumber := rfl

@[simp]
theorem mul_notANumber (x : Float) : x * notANumber = notANumber := by
  show (⟨Float.Model.pack (UnpackedFloat.mul .binary64 x.toModel.unpack
    notANumber.toModel.unpack)⟩ :
    Float) = _
  rw [unpack_notANumber, ← pack_notANumber]
  cases x.toModel.unpack <;> rfl

@[simp]
theorem notANumber_div (x : Float) : notANumber / x = notANumber := rfl

@[simp]
theorem abs_notANumber : notANumber.abs = notANumber := rfl

theorem compare_notANumber (u : UnpackedFloat) : UnpackedFloat.compare u .notANumber = none := by
  cases u <;> rfl

@[simp]
theorem not_notANumber_lt (x : Float) : ¬ notANumber < x := by
  show ¬ Float.lt notANumber x = true
  rw [Float.lt, decide_eq_true_eq]
  exact Bool.false_ne_true

@[simp]
theorem not_lt_notANumber (x : Float) : ¬ x < notANumber := by
  show ¬ Float.lt x notANumber = true
  rw [Float.lt, decide_eq_true_eq]
  show ¬ UnpackedFloat.lt x.toModel.unpack notANumber.toModel.unpack = true
  rw [unpack_notANumber, UnpackedFloat.lt, compare_notANumber]
  exact Bool.false_ne_true

@[simp]
theorem not_notANumber_le (x : Float) : ¬ notANumber ≤ x := by
  show ¬ Float.le notANumber x = true
  rw [Float.le, decide_eq_true_eq]
  exact Bool.false_ne_true

@[simp]
theorem not_le_notANumber (x : Float) : ¬ x ≤ notANumber := by
  show ¬ Float.le x notANumber = true
  rw [Float.le, decide_eq_true_eq]
  show ¬ UnpackedFloat.le x.toModel.unpack notANumber.toModel.unpack = true
  rw [unpack_notANumber, UnpackedFloat.le, compare_notANumber]
  exact Bool.false_ne_true

@[simp]
theorem notANumber_beq (x : Float) : (notANumber == x) = false := rfl

end EffectTiming.Binary64
