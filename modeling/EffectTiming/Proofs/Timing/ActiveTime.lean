import Mathlib
import EffectTiming.Proofs.Timing.Composition
import EffectTiming.Proofs.Timing.InEffect
import EffectTiming.Proofs.Timing.Phase

/-!
# The active time

The active time counts from the end of the delay. Only after the active interval is it kept between
zero and the active duration; before the interval it is kept from below, and within it not at all.
It stays in the interval all the same, as long as the phase that a sample falls into agrees with the
delay. There are timings for which it does not:

* The end delay may end the effect before its delay is over. The end of the effect then counts as
  active, and the active time is negative there.
* The delay may be negative and longer than the active duration. The times up to zero then count as
  before the interval or in it, and the active time is greater than the active duration.
* At the extremes of the spans of time a difference is no longer exact.

`StraysIn` says which samples these are, and `Contained` which timings have none of them.
-/

namespace EffectTiming.TimingParams

variable {p : TimingParams} {o : SampleOptions} {phase : Phase} {time : Span} {c : ComputedTiming}

/-! ### Leaving the active interval -/

/-- More than the active duration counts as passed. Beyond the exact case this is so at the
extremes, where what has passed is without end: at the time without end, and with a delay whose
negation is without end. -/
def OverrunAt (p : TimingParams) (time : Span) : Prop :=
  p.activeDuration ≠ .forever ∧
    (p.delay.ns + p.activeDuration.ns < time.ns ∨ time = .forever ∨
      p.delay.ns ≤ -9223372036854775807)

/-- The active time at a time of the given phase lies outside the active interval: the effect ends
before its delay is over and its end counts as active, or the active duration is exceeded before the
phase after it. -/
def StraysIn (p : TimingParams) (phase : Phase) (time : Span) : Prop :=
  (phase = .active ∧ p.endTime < p.delay) ∨ (phase ≠ .after ∧ p.OverrunAt time)

theorem straysIn_before : p.StraysIn .before time ↔ p.OverrunAt time := by simp [StraysIn]

theorem straysIn_active : p.StraysIn .active time ↔ p.endTime < p.delay ∨ p.OverrunAt time := by
  simp [StraysIn]

theorem not_straysIn_after : ¬ p.StraysIn .after time := by simp [StraysIn]

/-! ### What has passed -/

theorem passed_le_iff (h : p.Valid) :
    (time.sub p.delay).ns ≤ p.activeDuration.ns ↔ ¬ p.OverrunAt time := by
  have hnonneg := activeDuration_nonneg h
  have hduration := p.activeDuration.ns_le
  have htime := time.ns_le
  have htime' := time.neg_le_ns
  have hdelay := p.delay.ns_le
  rw [OverrunAt, ne_eq, Span.eq_forever_iff, Span.eq_forever_iff, Span.sub_ns]
  split_ifs <;> omega

theorem passed_nonneg_iff (h : 0 ≤ time.ns) : 0 ≤ (time.sub p.delay).ns ↔ p.delay.ns ≤ time.ns := by
  have htime := time.ns_le
  have hdelay := p.delay.ns_le
  rw [Span.sub_ns]
  split_ifs <;> omega

theorem le_of_phaseAt_ne_after (h : p.phaseAt o time ≠ .after) : time.ns ≤ p.activeAfter.ns := by
  by_contra hlt
  exact h (phaseAt_of_activeAfter_lt (not_le.mp hlt))

theorem beforeActive_le_of_phaseAt (h : p.phaseAt o time = .active) :
    p.beforeActive.ns ≤ time.ns := by
  by_contra hlt
  have hbefore : p.phaseAt o time = .before :=
    phaseAt_of_lt_beforeActive (not_le.mp hlt) (by simp [h])
  rw [h] at hbefore
  cases hbefore

/-- In the active phase the delay is over, unless the effect ends before it. -/
theorem passed_nonneg_iff_of_active (h : p.phaseAt o time = .active) :
    0 ≤ (time.sub p.delay).ns ↔ ¬ p.endTime < p.delay := by
  have hbefore : p.beforeActive.ns ≤ time.ns := beforeActive_le_of_phaseAt h
  have hafter : time.ns ≤ p.activeAfter.ns := le_of_phaseAt_ne_after (o := o) (by simp [h])
  have hend := p.endTime_nonneg
  rw [beforeActive_ns] at hbefore
  rw [activeAfter_ns] at hafter
  rw [passed_nonneg_iff (by omega), Span.lt_iff]
  omega

/-- The active time lies within the active interval unless it strays. -/
theorem activeTimeAt_mem_iff (h : p.Valid) :
    (0 ≤ (p.activeTimeAt (p.phaseAt o time) time).ns ∧
      (p.activeTimeAt (p.phaseAt o time) time).ns ≤ p.activeDuration.ns) ↔
      ¬ p.StraysIn (p.phaseAt o time) time := by
  have hnonneg : 0 ≤ p.activeDuration.ns := activeDuration_nonneg h
  cases hphase : p.phaseAt o time with
  | idle => exact absurd hphase (phaseAt_ne_idle p o time)
  | after =>
    -- clamped on both sides
    refine iff_of_true ?_ not_straysIn_after
    rw [activeTimeAt, Span.max_ns, Span.min_ns, Span.zero_ns]
    omega
  | before =>
    -- clamped from below only
    rw [straysIn_before, ← passed_le_iff h, activeTimeAt, Span.max_ns, Span.zero_ns]
    omega
  | active =>
    -- not clamped at all
    rw [straysIn_active, not_or, ← passed_le_iff h, ← passed_nonneg_iff_of_active hphase]
    rfl

/-! ### Timings that never stray -/

/-- The active interval starts no later than the effect ends, and ends no earlier than time zero and
short of the time without end; or it has no end at all. -/
def Contained (p : TimingParams) : Prop :=
  p.activeDuration = .forever ∨
    (p.delay ≤ p.endTime ∧ 0 ≤ p.delay.ns + p.activeDuration.ns ∧
      p.delay.ns + p.activeDuration.ns < 9223372036854775807)

theorem endTime_eq_forever (h : p.delay.add p.activeDuration = .forever) :
    p.endTime = .forever := by
  rw [Span.eq_forever_iff, endTime, h, Span.max_ns, Span.add_ns, Span.forever_ns, Span.zero_ns]
  simp

theorem phaseAt_eq_active (hbefore : p.beforeActive.ns ≤ time.ns)
    (hafter : time.ns ≤ p.activeAfter.ns) :
    p.phaseAt {} time = .active := by
  rw [phaseAt, if_neg, if_neg]
  · simpa [SampleOptions.exclusive, Span.lt_iff] using hbefore
  · simpa [SampleOptions.exclusive, Span.lt_iff] using hafter

theorem Contained.not_straysIn (hp : p.Valid) (h : p.Contained) (o : SampleOptions) (time : Span) :
    ¬ p.StraysIn (p.phaseAt o time) time := by
  have hnonneg : 0 ≤ p.activeDuration.ns := activeDuration_nonneg hp
  rcases h with hforever | ⟨hdelay, hlow, hhigh⟩
  · -- nothing exceeds a duration without end, and its effect has no end either
    have hend : p.endTime = .forever := endTime_eq_forever (by
      rw [Span.eq_forever_iff, Span.add_ns, hforever]
      simp)
    rintro (⟨-, hlate⟩ | ⟨-, hne, -⟩)
    · rw [hend, Span.lt_iff, Span.forever_ns] at hlate
      exact absurd p.delay.ns_le (not_le.mpr hlate)
    · exact hne hforever
  · rintro (⟨-, hlate⟩ | ⟨hphase, hne, hover⟩)
    · exact absurd hlate (Int.not_lt.mpr hdelay)
    · have hafter : time.ns ≤ p.activeAfter.ns := le_of_phaseAt_ne_after hphase
      rw [ne_eq, Span.eq_forever_iff] at hne
      have hduration := p.activeDuration.ns_le
      rw [activeAfter_ns, Span.add_ns] at hafter
      rw [Span.eq_forever_iff] at hover
      split_ifs at hafter <;> omega

/-- An effect that ends before its delay is over strays at its end. -/
theorem straysIn_endTime (hp : p.Valid) (h : p.endTime < p.delay) :
    p.phaseAt {} p.endTime = .active ∧ p.StraysIn .active p.endTime := by
  have hend := p.endTime_nonneg
  have hsum : p.delay.ns ≤ (p.delay.add p.activeDuration).ns :=
    Span.le_add (activeDuration_nonneg hp)
  refine ⟨phaseAt_eq_active ?_ ?_, straysIn_active.mpr (Or.inl h)⟩
  all_goals rw [Span.lt_iff] at h
  · rw [beforeActive_ns]
    omega
  · rw [activeAfter_ns]
    omega

/-- An active interval that ends before time zero is exceeded at time zero. -/
theorem straysIn_zero (hp : p.Valid) (hends : p.activeDuration ≠ .forever)
    (h : p.delay.ns + p.activeDuration.ns < 0) :
    p.phaseAt {} .zero = .active ∧ p.StraysIn .active .zero := by
  have hnonneg : 0 ≤ p.activeDuration.ns := activeDuration_nonneg hp
  refine ⟨phaseAt_eq_active ?_ ?_, straysIn_active.mpr (Or.inr ⟨hends, Or.inl h⟩)⟩
  · rw [beforeActive_ns, Span.zero_ns]
    omega
  · rw [activeAfter_ns, Span.zero_ns]
    omega

/-- An active interval whose end is cut off at the time without end is exceeded there. -/
theorem straysIn_forever (hends : p.activeDuration ≠ .forever)
    (h : 9223372036854775807 ≤ p.delay.ns + p.activeDuration.ns) :
    p.phaseAt {} .forever = .active ∧ p.StraysIn .active .forever := by
  have hsum : p.delay.add p.activeDuration = .forever := by
    have hdelay := p.delay.ns_le
    have hduration := p.activeDuration.ns_le
    have hne : p.activeDuration.ns ≠ 9223372036854775807 := mt Span.eq_forever_iff.mpr hends
    rw [Span.eq_forever_iff, Span.add_ns]
    split_ifs <;> omega
  refine ⟨phaseAt_eq_active p.beforeActive.ns_le ?_,
    straysIn_active.mpr (Or.inr ⟨hends, Or.inr (Or.inl rfl)⟩)⟩
  rw [activeAfter_ns, hsum, endTime_eq_forever hsum]
  simp

theorem exists_straysIn (hp : p.Valid) (h : ¬ p.Contained) :
    ∃ time, p.phaseAt {} time = .active ∧ p.StraysIn .active time := by
  rw [Contained, not_or] at h
  obtain ⟨hends, h⟩ := h
  by_cases hlate : p.endTime < p.delay
  · exact ⟨_, straysIn_endTime hp hlate⟩
  · by_cases hlow : 0 ≤ p.delay.ns + p.activeDuration.ns
    · refine ⟨_, straysIn_forever hends ?_⟩
      by_contra hlt
      exact h ⟨Int.not_lt.mp hlate, hlow, not_le.mp hlt⟩
    · exact ⟨_, straysIn_zero hp hends (not_le.mp hlow)⟩

/-! ### Samples -/

theorem Sampled.activeTime_eq (h : p.Sampled o (.resolved time) c) (hshown : c.inEffect = true) :
    c.phase = p.phaseAt o time ∧ c.activeDuration = p.activeDuration ∧
      c.activeTime = p.activeTimeAt (p.phaseAt o time) time := by
  cases h with
  | unfilled => cases hshown
  | shown => exact ⟨rfl, rfl, rfl⟩

/-- The active time that a sample shows lies within the active interval unless the sample strays,
and the timings of which no sample strays are those whose active interval is contained in the
effect. -/
theorem compute_activeTime_iff (h : p.Valid) :
    (∀ (time : Span) (o : SampleOptions) (c : ComputedTiming),
      p.compute (.resolved time) o = .ok c → c.inEffect = true →
      ((Span.zero ≤ c.activeTime ∧ c.activeTime ≤ c.activeDuration) ↔ ¬ p.StraysIn c.phase time)) ∧
    (p.Contained ↔ ∀ (time : Span) (o : SampleOptions), ¬ p.StraysIn (p.phaseAt o time) time) := by
  constructor
  · intro time o c hc hshown
    obtain ⟨hphase, hduration, hactive⟩ := (sampled_of_compute hc).activeTime_eq hshown
    rw [hphase, hduration, hactive]
    exact activeTimeAt_mem_iff h
  · constructor
    · intro hcontained time o
      exact hcontained.not_straysIn h o time
    · intro hnever
      by_contra hnot
      obtain ⟨time, hphase, hstrays⟩ := exists_straysIn h hnot
      apply hnever time {}
      rw [hphase]
      exact hstrays

/-- An effect that is under way at time zero, and whose last second is cut off. -/
def underWay : TimingOptions :=
  { delay := .clamp (-1000000000), duration := some (.clamp 3000000000)
    endDelay := .clamp (-1000000000) }

/-- At its end two of three seconds are over. -/
theorem compute_activeTime_underWay :
    ∃ p c, ofOptions underWay = .ok p ∧ p.Contained ∧
      p.compute (.resolved { ns := 1000000000 }) {} = .ok c ∧
      c.inEffect = true ∧ c.phase = .active ∧ Span.zero ≤ c.activeTime ∧
      c.activeTime ≤ c.activeDuration := by
  obtain ⟨p, hp, hactive, hcontained, hphase⟩ : ∃ p, ofOptions underWay = .ok p ∧
      p.activeDuration ≠ .zero ∧ p.Contained ∧ p.phaseAt {} { ns := 1000000000 } = .active :=
    ⟨_, rfl, by decide +kernel, Or.inr (by decide +kernel), by decide +kernel⟩
  have hvalid := valid_of_ofOptions hp
  obtain ⟨c, hc⟩ := compute_ok_of_nonempty hvalid hactive (.resolved { ns := 1000000000 }) {}
  have hcphase : c.phase = .active := (phase_of_compute hvalid hc).trans hphase
  have hshown : c.inEffect = true := (sampled_of_compute hc).inEffect_iff.mpr (Or.inl hcphase)
  obtain ⟨hwithin, hnever⟩ := compute_activeTime_iff hvalid
  refine ⟨p, c, hp, hcontained, hc, hshown, hcphase, (hwithin _ _ c hc hshown).mpr ?_⟩
  rw [phase_of_compute hvalid hc]
  exact hnever.mp hcontained _ _

/-- An effect that ends half a second before its delay is over. -/
def clippedDelay : TimingOptions :=
  { delay := .clamp 1000000000, duration := some (.clamp 1000000000)
    endDelay := .clamp (-1500000000), fill := .known .both }

/-- Its end counts as active, and the time spent in the active interval is negative there. -/
theorem compute_activeTime_clippedDelay :
    ∃ p c, ofOptions clippedDelay = .ok p ∧ p.compute (.resolved { ns := 500000000 }) {} = .ok c ∧
      c.inEffect = true ∧ c.phase = .active ∧ c.activeTime.ns = -500000000 ∧
      ¬ (Span.zero ≤ c.activeTime ∧ c.activeTime ≤ c.activeDuration) := by
  obtain ⟨p, hp, hactive, hphase, htime⟩ : ∃ p, ofOptions clippedDelay = .ok p ∧
      p.activeDuration ≠ .zero ∧ p.phaseAt {} { ns := 500000000 } = .active ∧
      (p.activeTimeAt .active { ns := 500000000 }).ns = -500000000 :=
    ⟨_, rfl, by decide +kernel, by decide +kernel, by decide +kernel⟩
  have hvalid := valid_of_ofOptions hp
  obtain ⟨c, hc⟩ := compute_ok_of_nonempty hvalid hactive (.resolved { ns := 500000000 }) {}
  have hcphase : c.phase = .active := (phase_of_compute hvalid hc).trans hphase
  have hshown : c.inEffect = true := (sampled_of_compute hc).inEffect_iff.mpr (Or.inl hcphase)
  have hns : c.activeTime.ns = -500000000 := by
    rw [((sampled_of_compute hc).activeTime_eq hshown).2.2, hphase, htime]
  refine ⟨p, c, hp, hc, hshown, hcphase, hns, ?_⟩
  rintro ⟨hnonneg, -⟩
  have hnonneg : 0 ≤ c.activeTime.ns := hnonneg
  omega

end EffectTiming.TimingParams
