import Mathlib
import EffectTiming.Proofs.Timing.Defined

/-!
# The end of a progress-based timeline

Timing without delays is normalized so that its end falls on the end of the timeline, as far as
whole nanoseconds allow: the duration of an iteration is scaled, rounded and cut to whole
nanoseconds, and only then repeated. Where nothing is lost on the way, as in
`timelineEnd_eq_of_exact`, the end of the timeline is active. Where the repeated count falls short
of it, the effect is over before the timeline is.
-/

namespace EffectTiming

open Binary64

/-- The count of an iteration after normalization. The iterations share an `auto` timeline evenly,
and another duration is scaled by the ratio of the timeline and its end time. -/
def iterationCount (duration : Option Span) (n : ℚ) (timeline : Span) : ℤ :=
  match duration with
  | none => Span.scaledCount timeline.ns (rounded (1 / n))
  | some d =>
    Span.scaledCount d.ns (rounded (rounded timeline.ns / rounded (Span.scaledCount d.ns n)))

/-- The count of all `n` iterations after normalization. -/
def timelineEnd (duration : Option Span) (n : ℚ) (timeline : Span) : ℤ :=
  Span.scaledCount (iterationCount duration n timeline) n

/-- A timeline that splits into whole iterations, by a count with an exact inverse, is filled. -/
theorem timelineEnd_eq_of_exact {n : ℚ} {timeline : Span} {m : ℤ} (hn : 0 < n)
    (hinv : Representable (1 / n)) (hsplit : (timeline.ns : ℚ) = m * n)
    (htimeline : Representable timeline.ns) (hm : Representable m)
    (hle : m < 9223372036854775807) (hlt : timeline.ns < 9223372036854775807) :
    timelineEnd none n timeline = timeline.ns := by
  have hcount : iterationCount none n timeline = m := by
    rw [iterationCount, rounded_of_representable hinv]
    refine Span.scaledCount_of_exact htimeline hm ?_ hlt hle.le
    rw [hsplit]
    field_simp
  rw [timelineEnd, hcount]
  exact Span.scaledCount_of_exact hm htimeline hsplit.symm hle hlt.le

namespace TimingParams

variable {p : TimingParams} {d timeline : Span} {n : ℚ}

/-! ### Timing without delays -/

/-- Neither a delay nor an end delay. -/
structure Undelayed (p : TimingParams) : Prop where
  delay : p.delay = .zero
  endDelay : p.endDelay = .zero

theorem Undelayed.endTime (h : p.Undelayed) (hvalid : p.Valid) : p.endTime = p.activeDuration := by
  have hnonneg := activeDuration_nonneg hvalid
  apply Span.ext
  rw [TimingParams.endTime, h.delay, h.endDelay, Span.zero_add, Span.add_zero, Span.max_ns,
    Span.zero_ns, max_eq_left hnonneg]

theorem Undelayed.activeAfter (h : p.Undelayed) (hvalid : p.Valid) :
    p.activeAfter = p.activeDuration := by
  have hnonneg := activeDuration_nonneg hvalid
  apply Span.ext
  rw [TimingParams.activeAfter, h.endTime hvalid, h.delay, Span.zero_add, Span.max_ns, Span.min_ns,
    Span.zero_ns, min_self, max_eq_left hnonneg]

theorem Undelayed.beforeActive (h : p.Undelayed) (hvalid : p.Valid) : p.beforeActive = .zero := by
  have hnonneg := activeDuration_nonneg hvalid
  apply Span.ext
  rw [TimingParams.beforeActive, h.endTime hvalid, h.delay, Span.max_ns, Span.min_ns, Span.zero_ns,
    min_eq_left hnonneg, max_self]

/-- At a boundary of the timeline the phase depends on neither rate nor endpoint. -/
theorem Undelayed.phaseAt (h : p.Undelayed) (hvalid : p.Valid) {time : Span} (htime : 0 ≤ time.ns)
    {o : SampleOptions} (ho : o.atBoundary = true) :
    p.phaseAt o time = if p.activeDuration < time then .after else .active := by
  have hexclusive : o.exclusive = false := by simp [SampleOptions.exclusive, ho]
  have hbefore : ¬ time < Span.zero := not_lt.mpr htime
  rw [TimingParams.phaseAt, h.activeAfter hvalid, h.beforeActive hvalid, hexclusive]
  simp [hbefore]

/-! ### Normalized parameters -/

theorem isTimelineDuration_iff :
    isTimelineDuration timeline = true ↔ 0 < timeline.ns ∧ timeline ≠ .forever := by
  rw [isTimelineDuration, Bool.and_eq_true, decide_eq_true_eq, Bool.not_eq_true', Span.lt_iff,
    Span.zero_ns, and_congr_right_iff]
  intro hpos
  rw [← Bool.not_eq_true, Span.isForever_iff hpos.le]

theorem normalize_of_isTimelineDuration (h : isTimelineDuration timeline = true) :
    p.normalize timeline =
      match p.duration with
      | none => .ok (p.fillTimeline timeline)
      | some d => .ok (p.scaleTimes d (p.timelineScale timeline)) := by
  rw [normalize, h]
  rfl

/-- The new duration of an iteration, which is all that a check asks of normalized parameters. -/
theorem Valid.of_duration {q : TimingParams} (h : p.Valid) (hd : q.duration = some d)
    (hnonneg : 0 ≤ d.ns) (hiterations : q.iterations = p.iterations)
    (hstart : q.iterationStart = p.iterationStart) (heasing : q.easing = p.easing) : q.Valid where
  duration := by rwa [iterationDuration, hd, Option.getD_some]
  iterations := hiterations ▸ h.iterations
  start := hstart ▸ h.start
  easing := heasing ▸ h.easing

/-- Filling the timeline gives each iteration its share. -/
theorem fillTimeline_spec (hvalid : p.Valid) (hn : HasValue p.iterations n) (hpos : 0 < n)
    (ht : 0 < timeline.ns) (hends : timeline ≠ .forever) :
    (p.fillTimeline timeline).Undelayed ∧ (p.fillTimeline timeline).Valid ∧
      ∃ d, (p.fillTimeline timeline).duration = some d ∧ d.ns = iterationCount none n timeline := by
  have hcond : (decide (p.iterations > 0) && !p.iterations.isInf) = true := by
    have hgt : p.iterations > 0 := (hasValue_zero.lt_iff hn).mpr hpos
    have hinf : p.iterations.isInf = false := hn.isInf
    simp [hgt, hinf]
  have hduration : (p.fillTimeline timeline).duration =
      some (timeline.scale (1 / p.iterations)) := by
    rw [fillTimeline, if_pos hcond]
  have hcount : (timeline.scale (1 / p.iterations)).ns = iterationCount none n timeline :=
    Span.scale_inverse_ns ht hends hn hpos
  refine ⟨⟨rfl, rfl⟩, hvalid.of_duration hduration ?_ rfl rfl rfl, _, hduration, hcount⟩
  rw [hcount]
  exact Span.scaledCount_nonneg ht.le (rounded_nonneg (by positivity))

/-- The factor by which a timeline stretches an effect. One that is empty or without end is
dropped. -/
def timelineFactor (p : TimingParams) (timeline : Span) : ℚ :=
  if 0 < p.endTime.ns ∧ p.endTime ≠ .forever
    then rounded (rounded timeline.ns / rounded p.endTime.ns)
  else 0

theorem timelineFactor_nonneg (ht : 0 < timeline.ns) : 0 ≤ p.timelineFactor timeline := by
  rw [timelineFactor]
  split_ifs with hend
  · exact rounded_nonneg (div_nonneg (Span.rounded_ns_nonneg ht.le)
      (Span.rounded_ns_nonneg hend.1.le))
  · exact le_rfl

theorem hasValue_timelineScale (ht : 0 < timeline.ns) (hends : timeline ≠ .forever) :
    HasValue (p.timelineScale timeline) (p.timelineFactor timeline) ∧
      |p.timelineFactor timeline| ≤ 2 ^ 63 := by
  have hcond : (decide (Span.zero < p.endTime) && !p.endTime.isForever) = true ↔
      0 < p.endTime.ns ∧ p.endTime ≠ .forever := isTimelineDuration_iff
  rw [timelineScale, timelineFactor]
  simp only [hcond]
  split_ifs with hend
  · exact Span.hasValue_ratio (Span.isForever_eq_false ht.le hends)
      (Span.isForever_eq_false hend.1.le hend.2) hend.1
  · exact ⟨hasValue_zero, by norm_num⟩

/-- Scaling brings the end of undelayed timing to the end of the timeline, up to rounding. -/
theorem scaleTimes_spec (h : p.Undelayed) (hvalid : p.Valid) (hd : p.duration = some d)
    (hn : HasValue p.iterations n) (hpos : 0 < n) (hend : 0 < p.endTime.ns)
    (hfinite : p.endTime ≠ .forever) (ht : 0 < timeline.ns) (hends : timeline ≠ .forever) :
    (p.scaleTimes d (p.timelineScale timeline)).Undelayed ∧
      (p.scaleTimes d (p.timelineScale timeline)).Valid ∧
      ∃ d', (p.scaleTimes d (p.timelineScale timeline)).duration = some d' ∧
        d'.ns = iterationCount (some d) n timeline := by
  have hnonneg := hvalid.nonneg_of_duration hd
  have hfactor0 : 0 ≤ p.timelineFactor timeline := timelineFactor_nonneg ht
  have hduration : (d.scale (p.timelineScale timeline)).ns =
      Span.scaledCount d.ns (p.timelineFactor timeline) :=
    Span.scale_ns hnonneg (hasValue_timelineScale ht hends).1 hfactor0
  -- without delays the end time that is scaled by is the active duration
  have hfactor : p.timelineFactor timeline =
      rounded (rounded timeline.ns / rounded (Span.scaledCount d.ns n)) := by
    rw [timelineFactor, if_pos ⟨hend, hfinite⟩, h.endTime hvalid,
      activeDuration_ns hd hnonneg hn hpos]
  refine ⟨⟨?_, ?_⟩, hvalid.of_duration rfl ?_ rfl rfl rfl, _, rfl, ?_⟩
  · rw [scaleTimes, h.delay, Span.zero_scale]
  · rw [scaleTimes, h.endDelay, Span.zero_scale]
  · rw [hduration]
    exact Span.scaledCount_nonneg hnonneg hfactor0
  · rw [hduration, hfactor]
    rfl

/-- Normalizing undelayed timing of some length that ends gives undelayed timing, with an iteration
of the count that `iterationCount` says. -/
theorem Undelayed.normalize (h : p.Undelayed) (hvalid : p.Valid) (hn : HasValue p.iterations n)
    (hpos : 0 < n) (hlength : p.duration = none ∨ 0 < p.endTime.ns ∧ p.endTime ≠ .forever)
    (htimeline : isTimelineDuration timeline = true) :
    ∃ q, p.normalize timeline = .ok q ∧ q.Undelayed ∧ q.Valid ∧ q.iterations = p.iterations ∧
      ∃ d, q.duration = some d ∧ d.ns = iterationCount p.duration n timeline := by
  obtain ⟨ht, hends⟩ := isTimelineDuration_iff.mp htimeline
  rw [normalize_of_isTimelineDuration htimeline]
  cases hd : p.duration with
  | none =>
    obtain ⟨hundelayed, hvalid', hduration⟩ := fillTimeline_spec hvalid hn hpos ht hends
    exact ⟨_, rfl, hundelayed, hvalid', rfl, hduration⟩
  | some d =>
    obtain ⟨hend, hfinite⟩ := hlength.resolve_left (by simp [hd])
    obtain ⟨hundelayed, hvalid', hduration⟩ :=
      scaleTimes_spec h hvalid hd hn hpos hend hfinite ht hends
    exact ⟨_, rfl, hundelayed, hvalid', rfl, hduration⟩

/-! ### Sampling the end of the timeline -/

/-- Checked timing without delays, with a positive finite iteration count and of some length that
ends, can be normalized to any timeline duration. The end of that timeline is then active, at every
rate and endpoint, exactly if the normalized count of all iterations reaches it, and past the effect
otherwise. -/
theorem compute_timelineEnd_iff {o : TimingOptions} (ho : ofOptions o = .ok p)
    (hdelay : p.delay = .zero) (hendDelay : p.endDelay = .zero) (hn : HasValue p.iterations n)
    (hpos : 0 < n) (hlength : p.duration = none ∨ 0 < p.endTime.ns ∧ p.endTime ≠ .forever)
    (htimeline : isTimelineDuration timeline = true) :
    ∃ q, p.normalize timeline = .ok q ∧ q.endTime.ns = timelineEnd p.duration n timeline ∧
      ∀ s : SampleOptions, s.atBoundary = true →
        ((∃ c, q.compute (.resolved timeline) s = .ok c ∧ c.phase = .active) ↔
          timeline.ns ≤ timelineEnd p.duration n timeline) ∧
        (timelineEnd p.duration n timeline < timeline.ns → q.phaseAt s timeline = .after) := by
  obtain ⟨q, hq, hundelayed, hvalid, hiterations, d, hd, hcount⟩ :=
    Undelayed.normalize ⟨hdelay, hendDelay⟩ (valid_of_ofOptions ho) hn hpos hlength htimeline
  obtain ⟨ht, -⟩ := isTimelineDuration_iff.mp htimeline
  have hactive : q.activeDuration.ns = timelineEnd p.duration n timeline := by
    rw [activeDuration_ns hd (hvalid.nonneg_of_duration hd) (hiterations ▸ hn) hpos, hcount]
    rfl
  refine ⟨q, hq, by rw [hundelayed.endTime hvalid, hactive], fun s hs => ?_⟩
  have hphase := hundelayed.phaseAt hvalid ht.le hs
  simp only [Span.lt_iff, hactive] at hphase
  refine ⟨⟨?_, fun hreach => ?_⟩, fun hlt => by rw [hphase, if_pos hlt]⟩
  · rintro ⟨c, hc, hcactive⟩
    rw [phase_of_compute hvalid hc, hphase] at hcactive
    by_contra hlt
    rw [if_pos (not_le.mp hlt)] at hcactive
    cases hcactive
  · -- the active interval reaches the end of the timeline, so it is not empty and nothing overflows
    have hover : ¬ q.OverflowsAt (.resolved timeline) s := by
      rintro ⟨_, -, -, hzero, -⟩
      rw [hzero, Span.zero_ns] at hactive
      omega
    obtain ⟨c, hc⟩ := compute_ok hvalid hover
    refine ⟨c, hc, ?_⟩
    rw [phase_of_compute hvalid hc, hphase, if_neg (not_lt.mpr hreach)]

/-- An `auto` duration, repeated. -/
def repeated (n : Float) : TimingOptions := { iterations := n }

/-- Four iterations share a timeline of 100 s without loss, and its end is active. -/
theorem compute_timelineEnd_four :
    ∃ p q, ofOptions (repeated 4) = .ok p ∧ p.normalize progressTimeline = .ok q ∧
      ∀ s : SampleOptions, s.atBoundary = true →
        ∃ c, q.compute (.resolved progressTimeline) s = .ok c ∧ c.phase = .active := by
  have hexact : timelineEnd none 4 progressTimeline = progressTimeline.ns := by
    have hquarter : Representable (1 / 4) := by
      have := representable_zpow (e := -2) (by norm_num)
      norm_num at this ⊢
      exact this
    refine timelineEnd_eq_of_exact (m := 25000000000) (by norm_num) hquarter ?_
      (representable_intCast ?_) (representable_intCast (by norm_num)) (by norm_num) (by decide)
    · norm_num [progressTimeline]
    · decide
  have hfour : HasValue 4 4 := by
    exact_mod_cast hasValue_ofNat_of_le (n := 4) (by norm_num)
  obtain ⟨q, hq, -, hsample⟩ :=
    compute_timelineEnd_iff (o := repeated 4) rfl rfl rfl hfour (by norm_num) (Or.inl rfl)
      (show isTimelineDuration progressTimeline = true from rfl)
  exact ⟨_, q, rfl, hq, fun s hs => (hsample s hs).1.mpr hexact.ge⟩

/-- Three iterations share it with a loss of a nanosecond, and its end is past the effect. -/
theorem phase_timelineEnd_three :
    ∃ p q, ofOptions (repeated 3) = .ok p ∧ p.normalize progressTimeline = .ok q ∧
      q.endTime.ns = 99999999999 ∧
      (q.compute (.resolved progressTimeline) { rate := 1, atBoundary := true }).map (·.phase) =
        .ok .after :=
  ⟨_, _, rfl, rfl, by decide +kernel, by decide +kernel⟩

end TimingParams

end EffectTiming
