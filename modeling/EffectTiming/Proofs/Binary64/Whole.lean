import Mathlib
import EffectTiming.Proofs.Binary64.Value

/-!
# Whole parts and fractions

The parts of a number are those of its unpacked form. The whole part, the floor, the nearest whole
number and the fraction of a number with a value are the exact ones, and none of them is rounded.
-/

namespace EffectTiming.Binary64

open Float.Model (Format UnpackedFloat)
open Float.Model.UnpackedFloat

variable {x : Float} {q : ℚ}

/-! ### Parts -/

/-- The parts of an unpacked number. -/
def unpackedParts : UnpackedFloat → Parts
  | .finite s m e _ => .finite (s == .negative) m e
  | .zero s => .finite (s == .negative) 0 (-1074)
  | .infinity s => .infinite (s == .negative)
  | .notANumber => .nan

theorem unpackExponent_toNat (b : BitVec 64) :
    (@unpackExponent .binary64 b).toNat = b.toNat / hiddenBit % 2048 := by
  rw [unpackExponent_def, BitVec.extractLsb'_toNat, Nat.shiftRight_eq_div_pow]
  rfl

theorem unpackMantissa_toNat (b : BitVec 64) :
    (@unpackMantissa .binary64 b).toNat = b.toNat % hiddenBit := by
  rw [unpackMantissa_def, BitVec.extractLsb'_toNat, Nat.shiftRight_zero]
  rfl

theorem unpackSign_negative (b : BitVec 64) :
    (Sign.ofBitVec (@unpackSign .binary64 b) == .negative) = decide (Word.half ≤ b.toNat) := by
  have hlt : b.toNat < 18446744073709551616 := b.isLt
  have hsign : (@unpackSign .binary64 b).toNat = b.toNat / 9223372036854775808 := by
    rw [unpackSign_def, BitVec.extractLsb'_toNat, Nat.shiftRight_eq_div_pow]
    show b.toNat / 9223372036854775808 % 2 = _
    omega
  have hcases : ∀ c : BitVec 1, (Sign.ofBitVec c == .negative) = decide (c.toNat = 1) := by decide
  rw [hcases, hsign]
  congr 1
  apply propext
  show _ ↔ 9223372036854775808 ≤ b.toNat
  omega

theorem parts_eq (x : Float) : parts x = unpackedParts x.toModel.unpack := by
  show parts x = unpackedParts (unpack .binary64 x.toModel.toBits.toBitVec)
  have hbits : x.toBits.toNat = x.toModel.toBits.toBitVec.toNat := rfl
  rw [parts, hbits]
  generalize x.toModel.toBits.toBitVec = b
  have htop : @unpackExponent .binary64 b = -1#11 ↔ b.toNat / hiddenBit % 2048 = 2047 := by
    rw [← unpackExponent_toNat, ← BitVec.toNat_inj]
    rfl
  have hlow : @unpackExponent .binary64 b = 0#11 ↔ b.toNat / hiddenBit % 2048 = 0 := by
    rw [← unpackExponent_toNat, ← BitVec.toNat_inj]
    rfl
  have hmant : @unpackMantissa .binary64 b = 0#52 ↔ b.toNat % hiddenBit = 0 := by
    rw [← unpackMantissa_toNat, ← BitVec.toNat_inj]
    rfl
  have happend : (1#1 ++ @unpackMantissa .binary64 b).toNat = b.toNat % hiddenBit + hiddenBit := by
    rw [BitVec.toNat_append, ← Nat.shiftLeft_add_eq_or_of_lt (BitVec.isLt _), unpackMantissa_toNat,
      Nat.add_comm]
    rfl
  -- both sides ask the same three questions, once of words and once of numbers
  unfold unpack
  simp only
  split
  · rename_i h1
    rw [if_pos (htop.mpr h1)]
    split
    · rename_i h2
      rw [if_pos (hmant.mpr h2), unpackedParts, unpackSign_negative]
    · rename_i h2
      rw [if_neg (mt hmant.mp h2), unpackedParts]
  · rename_i h1
    rw [if_neg (mt htop.mp h1)]
    split
    · rename_i h2
      rw [if_pos (hlow.mpr h2)]
      split
      · rename_i h3
        rw [unpackedParts, unpackSign_negative, hmant.mp h3]
      · rw [unpackedParts, unpackSign_negative, unpackMantissa_toNat, hlow.mpr h2]
        rfl
    · rename_i h2
      rw [if_neg (mt hlow.mp h2), unpackedParts, unpackSign_negative, happend, unpackExponent_toNat]
      rfl

theorem HasValue.parts (h : HasValue x q) :
    ∃ s m e, parts x = .finite (s == .negative) m e ∧ q = signed s (m * 2 ^ e) ∧
      m < 9007199254740992 ∧ -1074 ≤ e := by
  have hc := h.canonical
  rcases h.cases with ⟨s, hx, rfl⟩ | ⟨s, m, e, hm, hx, rfl⟩
  · refine ⟨s, 0, -1074, ?_, by simp, by norm_num, le_rfl⟩
    rw [parts_eq, hx, unpackedParts]
  · rw [hx] at hc
    exact ⟨s, m, e, by rw [parts_eq, hx, unpackedParts], rfl, hc.1, hc.2.1⟩

theorem isFinite_iff : isFinite x = true ↔ ∃ q, HasValue x q := by
  constructor
  · intro h
    refine ⟨_, (canonical_unpack x.toModel.toBits.toBitVec).1, ?_, rfl⟩
    rw [isFinite, parts_eq] at h
    revert h
    cases x.toModel.unpack <;> simp [unpackedParts, UnpackedFloat.isFinite]
  · rintro ⟨q, h⟩
    obtain ⟨s, m, e, hx, -⟩ := h.parts
    rw [isFinite, hx]

theorem HasValue.isFinite (h : HasValue x q) : isFinite x = true := isFinite_iff.mpr ⟨q, h⟩

/-! ### Whole parts -/

/-- The whole number next to `q` on the side of zero. -/
def towardZero (q : ℚ) : ℤ := if 0 ≤ q then ⌊q⌋ else ⌈q⌉

theorem towardZero_of_nonneg (h : 0 ≤ q) : towardZero q = ⌊q⌋ := if_pos h

theorem towardZero_of_nonpos (h : q ≤ 0) : towardZero q = ⌈q⌉ := by
  rcases h.lt_or_eq with h | rfl
  · exact if_neg (not_le.mpr h)
  · simp [towardZero]

theorem towardZero_neg (q : ℚ) : towardZero (-q) = -towardZero q := by
  rcases le_total 0 q with h | h
  · rw [towardZero_of_nonneg h, towardZero_of_nonpos (neg_nonpos.mpr h), Int.ceil_neg]
  · rw [towardZero_of_nonpos h, towardZero_of_nonneg (neg_nonneg.mpr h), Int.floor_neg]

theorem towardZero_signed (s : Sign) (q : ℚ) :
    (towardZero (signed s q) : ℚ) = signed s (towardZero q) := by
  cases s
  · rw [signed, signed, towardZero_neg, Int.cast_neg]
  · rfl

theorem towardZero_lt {n : ℤ} (hn : 0 < n) (h : q < n) : towardZero q < n := by
  rcases le_total 0 q with hq | hq
  · rw [towardZero_of_nonneg hq]
    exact Int.floor_lt.mpr h
  · rw [towardZero_of_nonpos hq]
    have : ⌈q⌉ ≤ 0 := Int.ceil_le.mpr (by simpa using hq)
    omega

theorem le_towardZero {n : ℤ} (hn : n ≤ 0) (h : n ≤ q) : n ≤ towardZero q := by
  rcases le_total 0 q with hq | hq
  · rw [towardZero_of_nonneg hq]
    exact hn.trans (Int.floor_nonneg.mpr hq)
  · rw [towardZero_of_nonpos hq]
    exact_mod_cast h.trans (Int.le_ceil q)

/-- What lies between a number and zero is less than one away. -/
theorem abs_sub_towardZero_lt (q : ℚ) : |q - towardZero q| < 1 := by
  rcases le_total 0 q with h | h
  · rw [towardZero_of_nonneg h, Int.self_sub_floor, abs_of_nonneg (Int.fract_nonneg q)]
    exact Int.fract_lt_one q
  · rw [towardZero_of_nonpos h, abs_sub_comm, abs_of_nonneg (sub_nonneg.mpr (Int.le_ceil q))]
    linarith [Int.ceil_lt_add_one q]

theorem wholePart_eq (m : ℕ) (e : ℤ) : (wholePart m e : ℤ) = ⌊(m : ℚ) * 2 ^ e⌋ := by
  rw [wholePart]
  split
  · rename_i he
    obtain ⟨k, rfl⟩ := Int.eq_ofNat_of_zero_le he
    rw [zpow_natCast, Int.toNat_natCast]
    have : (m : ℚ) * 2 ^ k = ((m * 2 ^ k : ℕ) : ℚ) := by push_cast; rfl
    rw [this, Int.floor_natCast]
    rfl
  · rename_i he
    obtain ⟨k, hk⟩ := Int.eq_ofNat_of_zero_le (show 0 ≤ -e by omega)
    obtain rfl : e = -(k : ℤ) := by omega
    rw [neg_neg, Int.toNat_natCast, zpow_neg, zpow_natCast, ← div_eq_mul_inv]
    have : (m : ℚ) / 2 ^ k = ((m : ℤ) : ℚ) / ((2 ^ k : ℕ) : ℚ) := by push_cast; rfl
    rw [this, Rat.floor_intCast_div_natCast]
    push_cast
    rfl

theorem HasValue.truncate (h : HasValue x q) : truncate x = towardZero q := by
  obtain ⟨s, m, e, hx, rfl, -⟩ := h.parts
  have hnonneg : (0 : ℚ) ≤ m * 2 ^ e := by positivity
  rw [Binary64.truncate, hx]
  cases s
  · show -(wholePart m e : ℤ) = towardZero (-((m : ℚ) * 2 ^ e))
    rw [towardZero_neg, towardZero_of_nonneg hnonneg, wholePart_eq]
  · show (wholePart m e : ℤ) = towardZero ((m : ℚ) * 2 ^ e)
    rw [towardZero_of_nonneg hnonneg, wholePart_eq]

/-! ### Fractions and floors -/

theorem hasValue_signedZero (negative : Bool) : HasValue (signedZero negative) 0 := by
  cases negative
  · exact isNumber_zero .positive
  · exact isNumber_zero .negative

theorem HasValue.withSign (h : HasValue x q) (s : Sign) :
    HasValue (withSign (s == .negative) x) (signed s q) := by
  cases s
  · exact h.neg
  · exact h

theorem towardZero_intCast (n : ℤ) : towardZero n = n := by
  simp [towardZero]

theorem unit_mul_zpow {e : ℤ} (he : e < 0) : ((Nat.pow 2 (-e).toNat : ℕ) : ℚ) * 2 ^ e = 1 := by
  have hexponent : ((-e).toNat : ℤ) = -e := Int.toNat_of_nonneg (by omega)
  rw [Nat.pow_eq, Nat.cast_pow, Nat.cast_ofNat, ← zpow_natCast, hexponent,
    ← zpow_add₀ (by norm_num), neg_add_cancel, zpow_zero]

/-- Below the point, a significand is its whole part and what is left of it. -/
theorem significand_split (m : ℕ) {e : ℤ} (he : e < 0) :
    (m : ℚ) * 2 ^ e = (m / Nat.pow 2 (-e).toNat : ℕ) + (m % Nat.pow 2 (-e).toNat : ℕ) * 2 ^ e := by
  have hone := unit_mul_zpow he
  generalize Nat.pow 2 (-e).toNat = unit at hone ⊢
  calc (m : ℚ) * 2 ^ e = ((unit * (m / unit) + m % unit : ℕ) : ℚ) * 2 ^ e := by rw [Nat.div_add_mod]
    _ = (unit * 2 ^ e) * (m / unit : ℕ) + (m % unit : ℕ) * 2 ^ e := by
        push_cast
        ring
    _ = (m / unit : ℕ) + (m % unit : ℕ) * 2 ^ e := by rw [hone, one_mul]

/-- A significand whose places all lie above the point is a whole number. -/
theorem exists_intCast_eq (s : Sign) {m : ℕ} {e : ℤ}
    (h : 0 ≤ e ∨ m % Nat.pow 2 (-e).toNat = 0) : ∃ n : ℤ, signed s ((m : ℚ) * 2 ^ e) = n := by
  have hmagnitude : ∃ k : ℕ, (m : ℚ) * 2 ^ e = k := by
    by_cases he : 0 ≤ e
    · obtain ⟨k, rfl⟩ := Int.eq_ofNat_of_zero_le he
      exact ⟨m * 2 ^ k, by push_cast; rfl⟩
    · refine ⟨m / Nat.pow 2 (-e).toNat, ?_⟩
      rw [significand_split m (by omega), h.resolve_left he, Nat.cast_zero, zero_mul, add_zero]
  obtain ⟨k, hk⟩ := hmagnitude
  rw [hk]
  cases s
  · exact ⟨-k, by rw [signed]; push_cast; rfl⟩
  · exact ⟨k, by rw [signed]; push_cast; rfl⟩

theorem floor_significand (m : ℕ) {e : ℤ} (he : e < 0) :
    ⌊(m : ℚ) * 2 ^ e⌋ = (m / Nat.pow 2 (-e).toNat : ℕ) := by
  rw [← wholePart_eq, wholePart, if_neg (by omega)]

/-- The fraction is exact. -/
theorem HasValue.fraction (h : HasValue x q) : HasValue (fraction x) (q - towardZero q) := by
  obtain ⟨s, m, e, hx, rfl, hm, he⟩ := h.parts
  rw [Binary64.fraction, hx]
  simp only
  by_cases hwhole : 0 ≤ e ∨ m % Nat.pow 2 (-e).toNat = 0
  · obtain ⟨n, hn⟩ := exists_intCast_eq s hwhole
    rw [hn, towardZero_intCast, sub_self]
    split_ifs with h1 h2
    · exact hasValue_signedZero _
    · exact hasValue_signedZero _
    · exact absurd hwhole (by tauto)
  · push Not at hwhole
    obtain ⟨hneg, hrest⟩ := hwhole
    rw [if_neg (by omega), if_neg hrest]
    set k := m / Nat.pow 2 (-e).toNat with hk
    set r := m % Nat.pow 2 (-e).toNat with hr
    have hk' : HasValue (Float.ofNat k) k := hasValue_ofNat_of_le (by
      have : k ≤ m := Nat.div_le_self _ _
      omega)
    have hwhole : (towardZero ((m : ℚ) * 2 ^ e) : ℚ) = k := by
      rw [towardZero_of_nonneg (by positivity), floor_significand m hneg, Int.cast_natCast]
    have hexact : signed s ((m : ℚ) * 2 ^ e) - signed s k = signed s (r * 2 ^ e) := by
      have hsplit := significand_split m hneg
      rw [← hk, ← hr] at hsplit
      rw [hsplit]
      cases s
      · simp only [signed]
        ring
      · simp only [signed]
        ring
    -- what is left needs no more places than the significand has
    have hrepr : Representable (signed s ((r : ℚ) * 2 ^ e)) := by
      have hr' : r < 9007199254740992 := (Nat.mod_le _ _).trans_lt hm
      have := representable_of_le (m := r) (e := e) (by rw [Nat.abs_cast]; omega) he
      cases s
      · exact_mod_cast this.neg
      · exact_mod_cast this
    have hsub := h.sub (hk'.withSign s) (by
      rw [hexact, rounded_of_representable hrepr, abs_signed_significand]
      refine lt_of_le_of_lt ?_ h.abs_lt
      rw [abs_signed_significand]
      gcongr
      exact Nat.mod_le _ _)
    rwa [hexact, rounded_of_representable hrepr, ← hexact, ← hwhole, ← towardZero_signed] at hsub

theorem HasValue.fraction_abs_lt (h : HasValue x q) :
    ∃ f, HasValue (Binary64.fraction x) f ∧ |f| < 1 :=
  ⟨_, h.fraction, abs_sub_towardZero_lt q⟩

/-- The floor is exact. -/
theorem HasValue.floor (h : HasValue x q) : HasValue (floor x) ⌊q⌋ := by
  obtain ⟨s, m, e, hx, hq, hm, he⟩ := h.parts
  rw [Binary64.floor, hx]
  simp only
  by_cases hwhole : 0 ≤ e ∨ m % Nat.pow 2 (-e).toNat = 0
  · obtain ⟨n, hn⟩ := exists_intCast_eq s hwhole
    rw [hq, hn] at h
    rw [hq, hn, Int.floor_intCast]
    split_ifs with h1 h2 h3
    · exact h
    · exact h
    · exact absurd hwhole (by tauto)
    · exact absurd hwhole (by tauto)
  · push Not at hwhole
    obtain ⟨hneg, hrest⟩ := hwhole
    rw [if_neg (by omega), if_neg hrest, hq]
    have hsplit := significand_split m hneg
    have hfloor := floor_significand m hneg
    set k := m / Nat.pow 2 (-e).toNat with hk
    have hkm : k ≤ m := Nat.div_le_self _ _
    cases s
    · have hrest' : (0 : ℚ) < (m % Nat.pow 2 (-e).toNat : ℕ) * 2 ^ e :=
        mul_pos (by exact_mod_cast Nat.pos_of_ne_zero hrest) (zpow_pos (by norm_num) e)
      have hlt := Int.lt_floor_add_one ((m : ℚ) * 2 ^ e)
      rw [hfloor] at hlt
      have hneg : ⌊signed .negative ((m : ℚ) * 2 ^ e)⌋ = -((k + 1 : ℕ) : ℤ) := by
        rw [signed, Int.floor_eq_iff]
        push_cast at hlt ⊢
        constructor
        · linarith
        · linarith
      rw [hneg]
      have := (hasValue_ofNat_of_le (n := k + 1) (by omega)).neg
      exact_mod_cast this
    · rw [signed, hfloor]
      have := hasValue_ofNat_of_le (n := k) (by omega)
      exact_mod_cast this

theorem AtMost.floor {k : ℕ} (h : AtMost x k) : AtMost (Binary64.floor x) k := by
  obtain ⟨v, hv, hle⟩ := h
  obtain ⟨hlow, hhigh⟩ := abs_le.mp hle
  refine ⟨_, hv.floor, abs_le.mpr ⟨?_, (Int.floor_le v).trans hhigh⟩⟩
  have : -(2 ^ k : ℤ) ≤ ⌊v⌋ := Int.le_floor.mpr (by push_cast; exact hlow)
  exact_mod_cast this

/-! ### Nearest whole numbers -/

/-- The whole number nearest to `q`; a half goes away from zero. -/
def nearestAway (q : ℚ) : ℤ := if 0 ≤ q then ⌊q + 1 / 2⌋ else ⌈q - 1 / 2⌉

theorem nearestAway_of_nonneg (h : 0 ≤ q) : nearestAway q = ⌊q + 1 / 2⌋ := if_pos h

theorem nearestAway_of_neg (h : q < 0) : nearestAway q = ⌈q - 1 / 2⌉ := if_neg (not_le.mpr h)

@[simp]
theorem nearestAway_intCast (n : ℤ) : nearestAway n = n := by
  rcases le_or_gt 0 (n : ℚ) with h | h
  · rw [nearestAway_of_nonneg h, Int.floor_intCast_add]
    norm_num
  · rw [nearestAway_of_neg h, Int.ceil_eq_iff]
    constructor <;> linarith

theorem nearestAway_neg (q : ℚ) : nearestAway (-q) = -nearestAway q := by
  rcases lt_trichotomy q 0 with h | rfl | h
  · rw [nearestAway_of_neg h, nearestAway_of_nonneg (by linarith), ← Int.floor_neg]
    congr 1
    ring
  · rw [neg_zero, ← Int.cast_zero, nearestAway_intCast, neg_zero]
  · rw [nearestAway_of_nonneg h.le, nearestAway_of_neg (by linarith), ← Int.ceil_neg]
    congr 1
    ring

theorem nearestAway_nonneg (h : 0 ≤ q) : 0 ≤ nearestAway q := by
  rw [nearestAway_of_nonneg h]
  exact Int.floor_nonneg.mpr (by linarith)

theorem nearestAway_mono {p : ℚ} (h : p ≤ q) : nearestAway p ≤ nearestAway q := by
  rcases le_or_gt 0 p with hp | hp
  · rw [nearestAway_of_nonneg hp, nearestAway_of_nonneg (hp.trans h)]
    exact Int.floor_le_floor (by linarith)
  · rcases le_or_gt 0 q with hq | hq
    · have hneg : 0 ≤ nearestAway (-p) := nearestAway_nonneg (by linarith)
      rw [nearestAway_neg] at hneg
      have := nearestAway_nonneg hq
      omega
    · rw [nearestAway_of_neg hp, nearestAway_of_neg hq]
      exact Int.ceil_le_ceil (by linarith)

theorem abs_nearestAway_le {n : ℤ} (h : |q| ≤ n) : |nearestAway q| ≤ n := by
  obtain ⟨hlow, hhigh⟩ := abs_le.mp h
  apply abs_le.mpr
  constructor
  · rw [← nearestAway_intCast (-n)]
    exact nearestAway_mono (by exact_mod_cast hlow)
  · rw [← nearestAway_intCast n]
    exact nearestAway_mono hhigh

theorem nearestAway_significand (m : ℕ) {e : ℤ} (he : e < 0) :
    nearestAway ((m : ℚ) * 2 ^ e) = (m / Nat.pow 2 (-e).toNat +
      if Nat.pow 2 (-e).toNat ≤ 2 * (m % Nat.pow 2 (-e).toNat) then 1 else 0 : ℕ) := by
  have hpos : (0 : ℚ) < 2 ^ e := zpow_pos (by norm_num) e
  have hone := unit_mul_zpow he
  have hlt : m % Nat.pow 2 (-e).toNat < Nat.pow 2 (-e).toNat :=
    Nat.mod_lt m (Nat.pow_pos (by norm_num))
  rw [nearestAway_of_nonneg (by positivity), significand_split m he, Int.floor_eq_iff]
  generalize m / Nat.pow 2 (-e).toNat = k
  generalize m % Nat.pow 2 (-e).toNat = r at hlt ⊢
  generalize Nat.pow 2 (-e).toNat = unit at hone hlt ⊢
  -- the rest is compared with a half of the unit
  have hrest : (r : ℚ) * 2 ^ e < 1 := by
    rw [← hone]
    exact mul_lt_mul_of_pos_right (by exact_mod_cast hlt) hpos
  have hnonneg : 0 ≤ (r : ℚ) * 2 ^ e := by positivity
  split
  · rename_i hup
    have hup' : (unit : ℚ) * 2 ^ e ≤ 2 * r * 2 ^ e :=
      mul_le_mul_of_nonneg_right (by exact_mod_cast hup) hpos.le
    push_cast
    constructor <;> linarith
  · rename_i hdown
    have hdown' : 2 * (r : ℚ) * 2 ^ e < unit * 2 ^ e :=
      mul_lt_mul_of_pos_right (by exact_mod_cast not_le.mp hdown) hpos
    push_cast
    constructor <;> linarith

theorem nearestAway_signed (s : Sign) (q : ℚ) :
    (nearestAway (signed s q) : ℚ) = signed s (nearestAway q) := by
  cases s
  · rw [signed, signed, nearestAway_neg, Int.cast_neg]
  · rfl

/-- The nearest whole number is exact. -/
theorem HasValue.round (h : HasValue x q) : HasValue (round x) (nearestAway q) := by
  obtain ⟨s, m, e, hx, hq, hm, -⟩ := h.parts
  rw [Binary64.round, hx]
  simp only
  by_cases he : 0 ≤ e
  · obtain ⟨n, hn⟩ := exists_intCast_eq (m := m) s (Or.inl he)
    rw [if_pos he, hq, hn, nearestAway_intCast, ← hn, ← hq]
    exact h
  · rw [if_neg he, hq, nearestAway_signed, nearestAway_significand m (by omega)]
    refine HasValue.withSign ?_ s
    have hle : m / Nat.pow 2 (-e).toNat ≤ m := Nat.div_le_self _ _
    refine hasValue_ofNat_of_le ?_
    split <;> omega

/-! ### Not finite -/

theorem IsInfinite.isFinite (h : IsInfinite x) : Binary64.isFinite x = false := by
  rw [Binary64.isFinite, parts_eq, h]
  rfl

/-- A sum of numbers that are not negative has the rounded sum as its value, or is not finite. -/
theorem HasValue.add_cases {y : Float} {p : ℚ} (hx : HasValue x p) (hy : HasValue y q) (hp : 0 ≤ p)
    (hq : 0 ≤ q) : HasValue (x + y) (rounded (p + q)) ∨ Binary64.isFinite (x + y) = false := by
  rcases lt_or_ge (rounded (p + q)) limit with hlt | hge
  · refine Or.inl (hx.add hy ?_)
    rwa [abs_of_nonneg (rounded_nonneg (add_nonneg hp hq))]
  · exact Or.inr (IsInfinite.isFinite (unpack_pack_of_limit_le (IsNumber.add hx hy) hge))

theorem fraction_of_not_finite (h : isFinite x = false) : fraction x = notANumber := by
  rw [isFinite] at h
  rw [fraction]
  split at h
  · exact absurd h (by decide)
  · rfl

theorem not_isFinite_notANumber : isFinite notANumber = false := by decide

@[simp]
theorem floor_notANumber : floor notANumber = notANumber := by
  rw [floor, parts_eq, unpack_notANumber]
  rfl

end EffectTiming.Binary64
