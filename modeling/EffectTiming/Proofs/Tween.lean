import Mathlib
import EffectTiming.Tween
import EffectTiming.Proofs.Binary64.Neighbours
import EffectTiming.Proofs.Binary64.Overflow
import EffectTiming.Proofs.Easing.Finite
import EffectTiming.Proofs.Time.Span

/-!
# Tweens of spans

A tween of spans should lead from its first value to its last and never leave what lies between
them. The way from one to the other is taken within sixty-four bits, rounded to a number of the
format, multiplied by the progress, rounded twice more, and added within sixty-four bits again. The
roundings are monotone, so a way that is a number of the format is never left (`Tween.covered_mem`),
and the tween arrives exactly if its way is such a number (`Tween.betweenSpans_one_iff`).

A difference that does not fit into a word turns into a way in the other direction. It leads to the
last value all the same, but on the wrong side of both ends (`Tween.not_betweenSpans_mem`), unless
there is nothing on that side: between the two extremes it is a single nanosecond.
-/

namespace EffectTiming

open Binary64

namespace Tween

variable {a b : Span} {t : Float} {k : ℤ} {q : ℚ}

/-! ### How far a tween has come -/

/-- The way from one span to another, within sixty-four bits. -/
def way (a b : Span) : Span := Span.wrap (b.ns - a.ns)

/-- What is covered of a way of `k` nanoseconds at progress `q`. -/
def covered (k : ℤ) (q : ℚ) : ℤ := nearestAway (rounded (rounded k * q))

/-- The progress goes through two roundings to a count, which is added as a word. -/
theorem betweenSpans_eq (ht : HasValue t q) (h0 : 0 ≤ q) (h1 : q ≤ 1) :
    betweenSpans a b t = Span.wrap (a.ns + covered (way a b).ns q) := by
  have hsize : |rounded (rounded (way a b).ns * q)| ≤ 2 ^ 63 := by
    apply abs_rounded_le_pow
    rw [abs_mul, abs_of_nonneg h0]
    exact (mul_le_of_le_one_right (abs_nonneg _) h1).trans (way a b).abs_rounded_ns_le
  have hproduct := (way a b).hasValue_toFloat.mul ht (hsize.trans_lt (pow_lt_limit (by norm_num)))
  have hcovered : |(covered (way a b).ns q : ℚ)| ≤ 2 ^ 63 := by
    have hle := abs_nearestAway_le (n := 9223372036854775808) (hsize.trans (by norm_num))
    rw [covered, ← Int.cast_abs]
    exact (Int.cast_le.mpr hle).trans (by norm_num)
  show Span.wrap (a.ns + (Span.ofFloat (round ((way a b).toFloat * t))).ns) = _
  rw [Span.ofFloat_eq_wrap hproduct.round hcovered, towardZero_intCast, add_comm,
    Span.wrap_add, add_comm]
  rfl

theorem covered_zero (k : ℤ) : covered k 0 = 0 := by
  rw [covered, mul_zero, rounded_zero]
  exact nearestAway_intCast 0

/-- In the end the rounded way is covered. -/
theorem covered_one (k : ℤ) : (covered k 1 : ℚ) = rounded k := by
  rw [covered, mul_one, rounded_of_representable (representable_rounded k), ← floor_rounded_intCast,
    nearestAway_intCast]

/-- A way that is a number of the format is never left. -/
theorem covered_mem (hk : Representable k) (h0 : 0 ≤ q) (h1 : q ≤ 1) :
    min 0 k ≤ covered k q ∧ covered k q ≤ max 0 k := by
  have hzero : nearestAway (rounded 0) = 0 := by
    rw [rounded_zero]
    exact nearestAway_intCast 0
  have hwhole : nearestAway (rounded k) = k := by
    rw [rounded_of_representable hk, nearestAway_intCast]
  rw [covered, rounded_of_representable hk]
  rcases le_total 0 k with hpos | hneg
  · have hk0 : (0 : ℚ) ≤ k := by exact_mod_cast hpos
    rw [min_eq_left hpos, max_eq_right hpos]
    constructor
    · rw [← hzero]
      exact nearestAway_mono (rounded_mono (mul_nonneg hk0 h0))
    · conv_rhs => rw [← hwhole]
      exact nearestAway_mono (rounded_mono (mul_le_of_le_one_right hk0 h1))
  · have hk0 : (k : ℚ) ≤ 0 := by exact_mod_cast hneg
    rw [min_eq_right hneg, max_eq_left hneg]
    constructor
    · conv_lhs => rw [← hwhole]
      exact nearestAway_mono (rounded_mono (by nlinarith))
    · conv_rhs => rw [← hzero]
      exact nearestAway_mono (rounded_mono (mul_nonpos_of_nonpos_of_nonneg hk0 h0))

/-- Half of a way of more than one nanosecond lies strictly inside it. -/
theorem covered_half (hk : Representable k) (h : 2 ≤ |k|) :
    min 0 k < covered k (1 / 2) ∧ covered k (1 / 2) < max 0 k := by
  rw [covered, rounded_of_representable hk, rounded_of_representable hk.half]
  rcases le_abs.mp h with hpos | hneg
  · have hk2 : (2 : ℚ) ≤ k := by exact_mod_cast hpos
    rw [nearestAway_of_nonneg (by linarith), min_eq_left (by omega), max_eq_right (by omega)]
    constructor
    · exact Int.lt_of_lt_of_le zero_lt_one (Int.le_floor.mpr (by push_cast; linarith))
    · exact Int.floor_lt.mpr (by linarith)
  · have hk2 : (k : ℚ) ≤ -2 := by
      have : k ≤ -2 := by omega
      exact_mod_cast this
    rw [nearestAway_of_neg (by linarith), min_eq_right (by omega), max_eq_left (by omega)]
    constructor
    · exact Int.lt_ceil.mpr (by linarith)
    · exact Int.lt_of_le_of_lt (Int.ceil_le.mpr (by push_cast; linarith)) neg_one_lt_zero

/-! ### The whole way -/

/-- The difference fits into a word, or the way leads in the other direction. -/
theorem way_cases (a b : Span) :
    (way a b).ns = b.ns - a.ns ∧ -2 ^ 63 ≤ b.ns - a.ns ∧ b.ns - a.ns < 2 ^ 63 ∨
      (way a b).ns = b.ns - a.ns - 2 ^ 64 ∧ 2 ^ 63 ≤ b.ns - a.ns ∧ b.ns - a.ns < 2 ^ 64 ∨
      (way a b).ns = b.ns - a.ns + 2 ^ 64 ∧ -2 ^ 64 < b.ns - a.ns ∧ b.ns - a.ns < -2 ^ 63 := by
  have hword := Span.wrap_emod (b.ns - a.ns)
  have hlow := (way a b).neg_le_ns
  have hhigh := (way a b).ns_le
  have := a.neg_le_ns
  have := a.ns_le
  have := b.neg_le_ns
  have := b.ns_le
  change (way a b).ns % _ = _ at hword
  omega

/-- A tween arrives exactly if rounding its way changes nothing. -/
theorem betweenSpans_one_iff : betweenSpans a b 1 = b ↔ Representable (way a b).ns := by
  rw [betweenSpans_eq hasValue_one zero_le_one le_rfl]
  have hone := covered_one (way a b).ns
  constructor
  · intro hlast
    -- the rounded way and the way agree as words, and they lie on the same side of zero
    have hsame : covered (way a b).ns 1 = (way a b).ns := by
      have hword := Span.wrap_emod (a.ns + covered (way a b).ns 1)
      have hway := Span.wrap_emod (b.ns - a.ns)
      rw [hlast] at hword
      change (way a b).ns % _ = _ at hway
      have hlow := (way a b).neg_le_ns
      have hhigh := (way a b).ns_le
      have hsize : |covered (way a b).ns 1| ≤ 2 ^ 63 := by
        have := (way a b).abs_rounded_ns_le
        rw [← hone] at this
        exact_mod_cast this
      have hnonneg : 0 ≤ (way a b).ns → 0 ≤ covered (way a b).ns 1 := by
        intro h
        have := Span.rounded_ns_nonneg h
        rw [← hone] at this
        exact_mod_cast this
      have hnonpos : (way a b).ns ≤ 0 → covered (way a b).ns 1 ≤ 0 := by
        intro h
        have := rounded_le (q := (way a b).ns) representable_zero (by exact_mod_cast h)
        rw [← hone] at this
        exact_mod_cast this
      obtain ⟨hl, hr⟩ := abs_le.mp hsize
      omega
    rw [← hsame, hone]
    exact representable_rounded _
  · intro hk
    rw [rounded_of_representable hk, Int.cast_inj] at hone
    rw [hone, add_comm, way, Span.wrap_add, sub_add_cancel, Span.wrap_ns]

/-! ### Between the ends -/

/-- A tween leads from `a` to `b` and never leaves what lies between them. -/
structure Connects (w : Tween Span) (a b : Span) : Prop where
  first : ∀ t : Float, (t == 0) = true → w.eval t = a
  last : ∀ t : Float, (t == 1) = true → w.eval t = b
  within : ∀ t : Float, 0 ≤ t → t ≤ 1 → a.min b ≤ w.eval t ∧ w.eval t ≤ a.max b

theorem betweenSpans_of_zero (h : (t == 0) = true) : betweenSpans a b t = a := by
  have hvalue : HasValue t 0 := hasValue_zero.of_beq h
  rw [betweenSpans_eq hvalue le_rfl zero_le_one, covered_zero, add_zero, Span.wrap_ns]

theorem betweenSpans_of_one (h : (t == 1) = true) (hway : Representable (way a b).ns) :
    betweenSpans a b t = b := by
  have hvalue : HasValue t 1 := hasValue_one.of_beq h
  rw [betweenSpans_eq hvalue zero_le_one le_rfl, ← betweenSpans_eq hasValue_one zero_le_one le_rfl]
  exact betweenSpans_one_iff.mpr hway

theorem betweenSpans_mem (hway : Representable (way a b).ns) (hfits : (way a b).ns = b.ns - a.ns)
    (h0 : 0 ≤ t) (h1 : t ≤ 1) : a.min b ≤ betweenSpans a b t ∧ betweenSpans a b t ≤ a.max b := by
  obtain ⟨q, hq, hq0, hq1⟩ := hasValue_zero.between hasValue_one h0 h1
  obtain ⟨hlow, hhigh⟩ := covered_mem hway hq0 hq1
  rw [hfits] at hlow hhigh
  have hge : (a.min b).ns ≤ a.ns + covered (b.ns - a.ns) q := by
    rw [Span.min_ns]
    omega
  have hle : a.ns + covered (b.ns - a.ns) q ≤ (a.max b).ns := by
    rw [Span.max_ns]
    omega
  rw [betweenSpans_eq hq hq0 hq1, hfits,
    Span.wrap_of_le ((a.min b).least_le.trans hge) (hle.trans (a.max b).le_greatest)]
  exact ⟨hge, hle⟩

/-- Half way through a way that leads in the wrong direction, the tween is not between its ends. -/
theorem not_betweenSpans_mem (hway : Representable (way a b).ns)
    (hwraps : (way a b).ns ≠ b.ns - a.ns) (hlong : 2 ≤ |(way a b).ns|) :
    ¬ (a.min b ≤ betweenSpans a b 0.5 ∧ betweenSpans a b 0.5 ≤ a.max b) := by
  rintro ⟨hge, hle⟩
  obtain ⟨hlow, hhigh⟩ := covered_half hway hlong
  have hword := Span.wrap_emod (a.ns + covered (way a b).ns (1 / 2))
  rw [betweenSpans_eq hasValue_half (by norm_num) (by norm_num)] at hge hle
  change (a.min b).ns ≤ (Span.wrap _).ns at hge
  change (Span.wrap _).ns ≤ (a.max b).ns at hle
  rw [Span.min_ns] at hge
  rw [Span.max_ns] at hle
  -- what is covered leads away from the other end, and not around to it
  rcases way_cases a b with ⟨hfits, -⟩ | hback | hback
  · exact hwraps hfits
  · omega
  · omega

/-- Between the two extremes lies every span. -/
theorem mem_of_extremes (h : |b.ns - a.ns| = 2 ^ 64 - 1) (v : Span) :
    a.min b ≤ v ∧ v ≤ a.max b := by
  have ha := a.neg_le_ns
  have ha' := a.ns_le
  have hb := b.neg_le_ns
  have hb' := b.ns_le
  have hv := v.neg_le_ns
  have hv' := v.ns_le
  show (a.min b).ns ≤ v.ns ∧ v.ns ≤ (a.max b).ns
  rw [Span.min_ns, Span.max_ns]
  rcases (abs_eq (by norm_num)).mp h with h | h <;> omega

/-- A tween of spans connects its ends exactly if their difference is a number of the format that
fits into a word, or if they are the two extremes. -/
theorem ofSpans_connects_iff (a b : Span) :
    (ofSpans a b).Connects a b ↔
      (Representable ((b.ns - a.ns : ℤ) : ℚ) ∧ -2 ^ 63 ≤ b.ns - a.ns ∧ b.ns - a.ns < 2 ^ 63) ∨
        |b.ns - a.ns| = 2 ^ 64 - 1 := by
  have hcases := way_cases a b
  constructor
  · intro h
    have hway : Representable (way a b).ns := betweenSpans_one_iff.mp (h.last 1 rfl)
    by_cases hfits : (way a b).ns = b.ns - a.ns
    · left
      rw [hfits] at hway
      exact ⟨hway, by omega, by omega⟩
    · right
      have hshort : |(way a b).ns| < 2 := by
        by_contra hlong
        apply not_betweenSpans_mem hway hfits (not_lt.mp hlong)
        exact h.within 0.5 (by decide +kernel) (by decide +kernel)
      obtain ⟨hlow, hhigh⟩ := abs_lt.mp hshort
      exact (abs_eq (by norm_num)).mpr (by omega)
  · rintro (⟨hway, hge, hlt⟩ | hfar)
    · have hfits : (way a b).ns = b.ns - a.ns := by omega
      rw [← hfits] at hway
      exact ⟨fun t => betweenSpans_of_zero, fun t ht => betweenSpans_of_one ht hway,
        fun t => betweenSpans_mem hway hfits⟩
    · have hway : Representable (way a b).ns := by
        apply representable_intCast
        apply abs_le.mpr
        rcases (abs_eq (by norm_num)).mp hfar with hfar | hfar <;> omega
      exact ⟨fun t => betweenSpans_of_zero, fun t ht => betweenSpans_of_one ht hway,
        fun t _ _ => mem_of_extremes hfar _⟩

/-- The way to a span one nanosecond short of `2 ^ 54` is rounded up, and the tween ends beyond
it. -/
theorem ofSpans_overshoots :
    (ofSpans .zero (.clamp 18014398509481983)).eval 1 = .clamp 18014398509481984 ∧
      ¬ (ofSpans .zero (.clamp 18014398509481983)).Connects .zero (.clamp 18014398509481983) := by
  have hvalue : (ofSpans .zero (.clamp 18014398509481983)).eval 1 = .clamp 18014398509481984 := by
    decide +kernel
  refine ⟨hvalue, ?_⟩
  intro h
  have hlast := h.last 1 rfl
  rw [hvalue] at hlast
  exact absurd hlast (by decide)

end Tween

end EffectTiming
