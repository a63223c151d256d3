import Mathlib
import EffectTiming.Proofs.Binary64.Value

/-!
# Accumulated rounding errors

`Near x q b n` says that the number `x` was computed for the exact number `q`, that `q` is at most
`b` in size, and that at most `n` roundings of numbers of that size lie between them. Operations add
up the roundings of their arguments and two of their own, one of which pays for all products of
errors.
-/

namespace EffectTiming.Binary64

/-- The error of one rounding, relative to the size of the number. -/
def roundoff : ℚ := 1 / 9007199254740992

theorem roundoff_eq : roundoff = 2 ^ (-53 : ℤ) := by
  norm_num [roundoff]

theorem leastNormal_le_one : (2 : ℚ) ^ (-1022 : ℤ) ≤ 1 := by
  calc (2 : ℚ) ^ (-1022 : ℤ) ≤ 2 ^ (0 : ℤ) := zpow_le_zpow_right₀ (by norm_num) (by norm_num)
    _ = 1 := zpow_zero 2

/-- One rounding of a number that is not subnormal. -/
theorem rounded_bounds {q : ℚ} (hq : 2 ^ (-1022 : ℤ) ≤ q) :
    (1 - roundoff) * q ≤ rounded q ∧ rounded q ≤ (1 + roundoff) * q := by
  have hpos : 0 < q := lt_of_lt_of_le (zpow_pos (by norm_num) _) hq
  have hclose := abs_le.mp (abs_rounded_sub_le (abs_of_pos hpos).le hq)
  rw [← roundoff_eq] at hclose
  constructor <;> linarith [hclose.1, hclose.2]

/-- A whole part gains no more by rounding than the number itself: what is too small to be rounded
in proportion has no whole part. -/
theorem floor_rounded_le {q : ℚ} (hq : 0 ≤ q) : (⌊rounded q⌋ : ℚ) ≤ (1 + roundoff) * q := by
  rcases le_total (2 ^ (-1022 : ℤ)) q with hnormal | hsmall
  · exact (Int.floor_le _).trans (rounded_bounds hnormal).2
  · have hle : rounded q ≤ 2 ^ (-1022 : ℤ) := rounded_le (representable_zpow (by norm_num)) hsmall
    have hlt : (2 : ℚ) ^ (-1022 : ℤ) < 1 := zpow_lt_one_of_neg₀ (by norm_num) (by norm_num)
    have hfloor : ⌊rounded q⌋ = 0 :=
      Int.floor_eq_zero_iff.mpr ⟨rounded_nonneg hq, hle.trans_lt hlt⟩
    rw [hfloor, Int.cast_zero]
    exact mul_nonneg (by norm_num [roundoff]) hq

theorem rounded_intCast_le {k : ℤ} (hk : 0 ≤ k) : rounded k ≤ (1 + roundoff) * k := by
  rcases hk.eq_or_lt with rfl | hpos
  · simp
  · exact (rounded_bounds (leastNormal_le_one.trans (by exact_mod_cast hpos))).2

/-- `x` stands for `q`, up to `n` roundings of numbers that are at most `b` in size. -/
structure Near (x : Float) (q b : ℚ) (n : ℕ) : Prop where
  one_le : 1 ≤ b
  abs_le : |q| ≤ b
  close : ∃ v, HasValue x v ∧ |v - q| ≤ n * roundoff * b

variable {x y : Float} {p q b c : ℚ} {n m : ℕ}

theorem HasValue.near (h : HasValue x q) (hb : 1 ≤ b) (hq : |q| ≤ b) : Near x q b 0 :=
  ⟨hb, hq, q, h, by simp⟩

/-- One more rounding. -/
theorem abs_rounded_sub_le_of_close {z k : ℚ} (hz : |z - q| ≤ k * roundoff * b) (hq : |q| ≤ b)
    (hb : 1 ≤ b) (hk : k ≤ 4000) (hroom : b ≤ limit / 4) :
    |rounded z| < limit ∧ |rounded z - q| ≤ (k + 3 / 2) * roundoff * b := by
  have hsize : |z| ≤ 3 / 2 * b := by
    have hsmall : k * roundoff ≤ 1 / 2 := by
      rw [roundoff]
      linarith
    have : k * roundoff * b ≤ 1 / 2 * b := by gcongr
    calc |z| = |q + (z - q)| := by ring_nf
      _ ≤ |q| + |z - q| := abs_add_le _ _
      _ ≤ 3 / 2 * b := by linarith
  have hround := abs_rounded_sub_le hsize (leastNormal_le_one.trans (by linarith))
  rw [← roundoff_eq] at hround
  constructor
  · apply abs_rounded_lt
    have := topUnit_pos
    rw [limit] at hroom ⊢
    linarith
  · calc |rounded z - q| = |(rounded z - z) + (z - q)| := by ring_nf
      _ ≤ |rounded z - z| + |z - q| := abs_add_le _ _
      _ ≤ (k + 3 / 2) * roundoff * b := by linarith

theorem Near.mul (hx : Near x p b n) (hy : Near y q c m) (hroom : b * c ≤ limit / 4 := by linarith)
    (hn : n ≤ 1000 := by norm_num) (hm : m ≤ 1000 := by norm_num) :
    Near (x * y) (p * q) (b * c) (n + m + 2) := by
  obtain ⟨hb, hp, v, hv, hvp⟩ := hx
  obtain ⟨hc, hq, w, hw, hwq⟩ := hy
  have hn' : (n : ℚ) ≤ 1000 := by exact_mod_cast hn
  have hm' : (m : ℚ) ≤ 1000 := by exact_mod_cast hm
  have hsize : |p * q| ≤ b * c := by
    rw [abs_mul]
    gcongr
  have hone : 1 ≤ b * c := by nlinarith
  -- the error of the product is the errors of the factors, times the other factor
  have hclose : |v * w - p * q| ≤ (n + m + 1 / 2) * roundoff * (b * c) := by
    have hpos : 0 ≤ roundoff := by norm_num [roundoff]
    have hw' : |w| ≤ c + m * roundoff * c := by
      calc |w| = |q + (w - q)| := by ring_nf
        _ ≤ |q| + |w - q| := abs_add_le _ _
        _ ≤ c + m * roundoff * c := by linarith
    have hcross : n * m * roundoff ≤ 1 / 2 := by
      have : (n : ℚ) * m ≤ 1000 * 1000 := by gcongr
      rw [roundoff]
      linarith
    calc |v * w - p * q| = |(v - p) * w + p * (w - q)| := by ring_nf
      _ ≤ |v - p| * |w| + |p| * |w - q| := by
        rw [← abs_mul, ← abs_mul]
        exact abs_add_le _ _
      _ ≤ n * roundoff * b * (c + m * roundoff * c) + b * (m * roundoff * c) := by gcongr
      _ = (n + m + n * m * roundoff) * roundoff * (b * c) := by ring
      _ ≤ (n + m + 1 / 2) * roundoff * (b * c) := by gcongr
  obtain ⟨hlt, hround⟩ := abs_rounded_sub_le_of_close hclose hsize hone (by linarith) hroom
  refine ⟨hone, hsize, _, hv.mul hw hlt, hround.trans_eq ?_⟩
  push_cast
  ring

/-- The error of a sum is at most the greater of the two relative errors. -/
theorem abs_rounded_add_sub_le {v w : ℚ} (hb : 1 ≤ b) (hp : |p| ≤ b)
    (hvp : |v - p| ≤ n * roundoff * b) (hc : 1 ≤ c) (hq : |q| ≤ c)
    (hwq : |w - q| ≤ m * roundoff * c) (hroom : b + c ≤ limit / 4)
    (hn : n ≤ 1000) (hm : m ≤ 1000) :
    |rounded (v + w)| < limit ∧
      |rounded (v + w) - (p + q)| ≤ (max n m + 2 : ℕ) * roundoff * (b + c) := by
  have hpos : 0 < roundoff := by norm_num [roundoff]
  have hsize : |p + q| ≤ b + c := (abs_add_le p q).trans (add_le_add hp hq)
  have hmax : ((max n m : ℕ) : ℚ) ≤ 1000 := by exact_mod_cast max_le hn hm
  have hclose : |v + w - (p + q)| ≤ (max n m : ℕ) * roundoff * (b + c) := by
    calc |v + w - (p + q)| = |(v - p) + (w - q)| := by ring_nf
      _ ≤ |v - p| + |w - q| := abs_add_le _ _
      _ ≤ n * roundoff * b + m * roundoff * c := add_le_add hvp hwq
      _ ≤ (max n m : ℕ) * roundoff * b + (max n m : ℕ) * roundoff * c := by
        gcongr
        · exact le_max_left n m
        · exact le_max_right n m
      _ = (max n m : ℕ) * roundoff * (b + c) := by ring
  obtain ⟨hlt, hround⟩ :=
    abs_rounded_sub_le_of_close hclose hsize (by linarith) (by linarith) hroom
  refine ⟨hlt, hround.trans ?_⟩
  rw [Nat.cast_add, Nat.cast_ofNat]
  gcongr
  norm_num

theorem Near.add (hx : Near x p b n) (hy : Near y q c m) (hroom : b + c ≤ limit / 4 := by linarith)
    (hn : n ≤ 1000 := by norm_num) (hm : m ≤ 1000 := by norm_num) :
    Near (x + y) (p + q) (b + c) (max n m + 2) := by
  obtain ⟨hb, hp, v, hv, hvp⟩ := hx
  obtain ⟨hc, hq, w, hw, hwq⟩ := hy
  obtain ⟨hlt, hclose⟩ := abs_rounded_add_sub_le hb hp hvp hc hq hwq hroom hn hm
  exact ⟨by linarith, (abs_add_le p q).trans (add_le_add hp hq), _, hv.add hw hlt, hclose⟩

theorem Near.sub (hx : Near x p b n) (hy : Near y q c m) (hroom : b + c ≤ limit / 4 := by linarith)
    (hn : n ≤ 1000 := by norm_num) (hm : m ≤ 1000 := by norm_num) :
    Near (x - y) (p - q) (b + c) (max n m + 2) := by
  obtain ⟨hb, hp, v, hv, hvp⟩ := hx
  obtain ⟨hc, hq, w, hw, hwq⟩ := hy
  have hwq' : |-w - -q| ≤ m * roundoff * c := by rwa [neg_sub_neg, abs_sub_comm]
  obtain ⟨hlt, hclose⟩ := abs_rounded_add_sub_le hb hp hvp hc (by rwa [abs_neg]) hwq' hroom hn hm
  rw [← sub_eq_add_neg] at hlt hclose
  rw [← sub_eq_add_neg] at hclose
  exact ⟨by linarith, (abs_sub p q).trans (add_le_add hp hq), _, hv.sub hw hlt, hclose⟩

/-- A larger size, and more roundings, may be claimed. -/
theorem Near.mono (hx : Near x p b n) (hbc : b ≤ c) (hnm : n ≤ m) : Near x p c m := by
  obtain ⟨hb, hp, v, hv, hvp⟩ := hx
  refine ⟨hb.trans hbc, hp.trans hbc, v, hv, hvp.trans ?_⟩
  have hpos : 0 ≤ roundoff := by norm_num [roundoff]
  gcongr

end EffectTiming.Binary64
