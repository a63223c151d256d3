import Mathlib
import EffectTiming.Proofs.Timing.TimelineEnd

/-!
# Parameters under composition

Timing parameters come from checked options, from a change laid over other parameters, and from
scaling other parameters to a timeline. Only the first two go through the check; scaling replaces
the times and keeps the rest. `TimingParams.Valid` survives all three: the check would let what
comes of them through again, and its boundaries are in order.
-/

namespace EffectTiming

open Binary64

/-! ### Sums -/

/-- Adding time that is not negative never leads back, also where the sum is cut off. -/
theorem Span.le_add {d o : Span} (h : 0 ≤ o.ns) : d ≤ d.add o := by
  have h1 := d.neg_le_ns
  have h2 := d.ns_le
  show d.ns ≤ (d.add o).ns
  rw [Span.add_ns]
  split_ifs <;> omega

/-! ### The check, once more -/

theorem checkDuration_of_nonneg {d : Option Span} (h : 0 ≤ (d.getD .zero).ns) :
    checkDuration d = .ok () := by
  cases d with
  | none => rfl
  | some d =>
    have hneg : ¬ d < Span.zero := not_lt.mpr h
    rw [checkDuration, if_neg hneg]

theorem checkIterations_of_exists {x : Float} (h : (∃ n, HasValue x n ∧ 0 ≤ n) ∨ IsInfinite x) :
    checkIterations x = .ok () := by
  have hnan : x.isNaN = false := by
    rcases h with ⟨n, hn, -⟩ | hinf
    · exact hn.isNaN
    · exact hinf.isNaN
  have hneg : ¬ x < 0 := by
    rcases h with ⟨n, hn, hn0⟩ | hinf
    · rw [hn.lt_iff hasValue_zero]
      exact not_lt.mpr hn0
    · exact hinf.not_lt hasValue_zero
  rw [checkIterations, hnan, if_neg Bool.false_ne_true, if_neg hneg]

theorem checkStart_of_exists {x : Float} (h : ∃ r, HasValue x r ∧ 0 ≤ r) :
    checkStart x = .ok () := by
  obtain ⟨r, hr, hr0⟩ := h
  have hneg : ¬ x < 0 := by
    rw [hr.lt_iff hasValue_zero]
    exact not_lt.mpr hr0
  rw [checkStart, hr.isNaN, hr.isInf, if_neg Bool.false_ne_true,
    if_neg Bool.false_ne_true, if_neg hneg]

namespace TimingParams

variable {p q : TimingParams} {timeline : Span}

/-- Valid parameters pass the check as they are. -/
theorem Valid.ofOptions_options (h : p.Valid) : ofOptions p.options = .ok p := by
  have hduration : checkDuration p.options.duration = .ok () := checkDuration_of_nonneg h.duration
  have hiterations : checkIterations p.options.iterations = .ok () :=
    checkIterations_of_exists h.iterations
  have hstart : checkStart p.options.iterationStart = .ok () := checkStart_of_exists h.start
  have heasing : p.options.easing.fault? = none := h.easing
  rw [ofOptions, TimingOptions.validate, hduration, hiterations, hstart]
  simp only [options, bind, Except.bind, Except.mapError] at heasing ⊢
  rw [heasing]

/-! ### Scaling to a timeline -/

/-- The share of an iteration is not negative, and there is none without a positive finite count. -/
theorem Valid.fillTimeline (h : p.Valid) (ht : 0 < timeline.ns) (hends : timeline ≠ .forever) :
    (p.fillTimeline timeline).Valid := by
  refine h.of_duration rfl ?_ rfl rfl rfl
  split
  · rename_i hcond
    rw [Bool.and_eq_true, decide_eq_true_eq, Bool.not_eq_true'] at hcond
    obtain ⟨hpos, hinf⟩ := hcond
    rcases h.iterations with ⟨n, hn, -⟩ | hn
    · have hn0 : 0 < n := (hasValue_zero.lt_iff hn).mp hpos
      rw [Span.scale_inverse_ns ht hends hn hn0]
      exact Span.scaledCount_nonneg ht.le (rounded_nonneg (by positivity))
    · rw [hn.isInf] at hinf
      cases hinf
  · exact le_rfl

theorem Valid.scaleTimes (h : p.Valid) {d : Span} (hd : p.duration = some d) (ht : 0 < timeline.ns)
    (hends : timeline ≠ .forever) : (p.scaleTimes d (p.timelineScale timeline)).Valid := by
  have hfactor0 : 0 ≤ p.timelineFactor timeline := timelineFactor_nonneg ht
  have hd0 := h.nonneg_of_duration hd
  refine h.of_duration rfl ?_ rfl rfl rfl
  rw [Span.scale_ns hd0 (hasValue_timelineScale ht hends).1 hfactor0]
  exact Span.scaledCount_nonneg hd0 hfactor0

/-- Scaling needs no check: what it makes of valid parameters is valid. -/
theorem Valid.normalize (h : p.Valid) (hq : p.normalize timeline = .ok q) : q.Valid := by
  have htimeline : isTimelineDuration timeline = true := by
    rw [TimingParams.normalize] at hq
    obtain ⟨_, hrequire, -⟩ := exists_ok_of_bind hq
    rw [require] at hrequire
    split at hrequire
    · assumption
    · cases hrequire
  obtain ⟨ht, hends⟩ := isTimelineDuration_iff.mp htimeline
  rw [normalize_of_isTimelineDuration htimeline] at hq
  cases hd : p.duration with
  | none =>
    rw [hd] at hq
    cases hq
    exact h.fillTimeline ht hends
  | some d =>
    rw [hd] at hq
    cases hq
    exact h.scaleTimes hd ht hends

/-! ### Boundaries -/

theorem beforeActive_ns (p : TimingParams) :
    p.beforeActive.ns = max (min p.delay.ns p.endTime.ns) 0 := by
  rw [beforeActive, Span.max_ns, Span.min_ns, Span.zero_ns]

theorem activeAfter_ns (p : TimingParams) :
    p.activeAfter.ns = max (min (p.delay.add p.activeDuration).ns p.endTime.ns) 0 := by
  rw [activeAfter, Span.max_ns, Span.min_ns, Span.zero_ns]

theorem beforeActive_nonneg (p : TimingParams) : Span.zero ≤ p.beforeActive := by
  show 0 ≤ p.beforeActive.ns
  rw [beforeActive_ns]
  exact le_max_right _ _

theorem endTime_nonneg (p : TimingParams) : 0 ≤ p.endTime.ns := by
  rw [endTime, Span.max_ns, Span.zero_ns]
  exact le_max_right _ _

theorem Valid.beforeActive_le (h : p.Valid) : p.beforeActive ≤ p.activeAfter := by
  have hle : p.delay.ns ≤ (p.delay.add p.activeDuration).ns := Span.le_add (activeDuration_nonneg h)
  show p.beforeActive.ns ≤ p.activeAfter.ns
  rw [beforeActive_ns, activeAfter_ns]
  exact max_le_max_right 0 (min_le_min_right _ hle)

theorem activeAfter_le (p : TimingParams) : p.activeAfter ≤ p.endTime := by
  show p.activeAfter.ns ≤ p.endTime.ns
  rw [activeAfter_ns]
  exact max_le (min_le_right _ _) (endTime_nonneg p)

/-- Two and a half iterations after a delay. -/
def delayedRepeat : TimingOptions :=
  { delay := { ns := 1000000000 }, duration := some { ns := 3000000000 }, iterations := 2.5 }

end TimingParams

end EffectTiming
