import Mathlib
import EffectTiming.Proofs.Sampling.Agreement
import EffectTiming.Proofs.Timing.TimelineEnd

/-!
# Accepted descriptions and normalization

A description is accepted only if the duration of its progress-based timeline is positive.
Normalization asks for more: the timeline has to end as well. The two checks agree on every duration
but one, the greatest count of nanoseconds, which stands for a timeline without end. A description
that names it is accepted, and then its timing cannot be normalized, neither directly nor by an
effect.
-/

namespace EffectTiming

namespace Description

variable {read? : RawText → Option Version} {d : Description} {s : Setup} {t : TimelineText}
  {timeline : Span}

/-- The description asks for a progress-based timeline of the greatest duration there is. -/
def EndlessTimeline (d : Description) : Prop :=
  d.timeline.progress = true ∧ Span.read d.timeline.duration.trim = .ok .forever

/-- A progress-based timeline and nothing else. -/
def scrolled (duration : RawText) : Description := { timeline := { progress := true, duration } }

/-! ### What is accepted -/

theorem eq_nil_of_isEmpty {text : RawText} (h : text.isEmpty = true) : text = ⟨[]⟩ := by
  obtain ⟨glyphs⟩ := text
  exact congrArg RawText.mk (List.isEmpty_iff.mp h)

theorem readSpan_eq_forever_iff (fault : Span.LiteralError → SetupFault) {text : RawText} :
    readSpan fault text = .ok .forever ↔ Span.read text.trim = .ok .forever := by
  rw [readSpan]
  split
  · rename_i hempty
    rw [eq_nil_of_isEmpty hempty]
    constructor
    · intro h
      exact absurd (Except.ok.inj h) (by decide)
    · intro h
      cases h
  · exact mapError_eq_ok_iff

/-- An accepted timeline measures time, or it is progress-based and its duration is positive. -/
theorem readTimeline_cases (h : readTimeline t = .ok timeline) :
    (t.progress = false ∧ timeline = .zero) ∨
      (t.progress = true ∧ 0 < timeline.ns ∧
        (timeline = .forever ↔ Span.read t.duration.trim = .ok .forever)) := by
  rw [readTimeline] at h
  split_ifs at h with hprogress hempty hempty
  · cases h
    refine Or.inr ⟨hprogress, by decide, iff_of_false (by decide) ?_⟩
    rw [eq_nil_of_isEmpty hempty]
    intro hread
    cases hread
  · split at h
    · cases h
    · rename_i hread
      split_ifs at h with hpos
      cases h
      refine Or.inr ⟨hprogress, hpos, ?_⟩
      rw [← readSpan_eq_forever_iff .timelineDuration, hread, Except.ok.injEq]
  · cases h
    exact Or.inl ⟨by simpa using hprogress, rfl⟩

/-- What a resolved description was read from. -/
theorem of_check (h : d.check read? = .ok s) :
    readTiming d.timing = .ok s.timing ∧ readTimeline d.timeline = .ok s.timeline ∧
      readRate d.playback.rate = .ok s.rate := by
  obtain ⟨version, -, h⟩ := exists_ok_of_bind h
  obtain ⟨timing, htiming, h⟩ := exists_ok_of_bind h
  obtain ⟨timeline, htimeline, h⟩ := exists_ok_of_bind h
  obtain ⟨rate, hrate, h⟩ := exists_ok_of_bind h
  obtain ⟨endpoint, -, h⟩ := exists_ok_of_bind h
  cases h
  exact ⟨htiming, htimeline, hrate⟩

theorem readTimeline_of_resolve (h : d.resolve read? = .ok s) :
    readTimeline d.timeline = .ok s.timeline :=
  (of_check (mapError_eq_ok_iff.mp h)).2.1

end Description

/-! ### What can be normalized -/

namespace Setup

variable {read? : RawText → Option Version} {d : Description} {s : Setup}

theorem exists_normalized (h : s.progressBased = true → isTimelineDuration s.timeline = true) :
    ∃ p, s.normalized = .ok p := by
  rw [normalized]
  split
  · rename_i hprogress
    rw [TimingParams.normalize_of_isTimelineDuration (h hprogress)]
    cases s.timing.duration with
    | none => exact ⟨_, rfl⟩
    | some d => exact ⟨_, rfl⟩
  · exact ⟨_, rfl⟩

theorem normalized_of_forever (h : s.timeline = .forever) :
    s.normalized = .error .timelineDuration := by
  rw [normalized, progressBased, h]
  rfl

theorem exists_normalized_iff (h : d.resolve read? = .ok s) :
    (∃ p, s.normalized = .ok p) ↔ ¬ d.EndlessTimeline := by
  rcases Description.readTimeline_cases (Description.readTimeline_of_resolve h) with
    ⟨hprogress, hzero⟩ | ⟨hprogress, hpos, hforever⟩
  · -- the timeline measures time, so nothing is normalized
    refine iff_of_true (exists_normalized (by simp [progressBased, hzero])) ?_
    rintro ⟨hendless, -⟩
    rw [hprogress] at hendless
    cases hendless
  · by_cases hendless : d.EndlessTimeline
    · refine iff_of_false ?_ (not_not.mpr hendless)
      rw [normalized_of_forever (hforever.mpr hendless.2)]
      simp
    · refine iff_of_true (exists_normalized fun _ => ?_) hendless
      exact TimingParams.isTimelineDuration_iff.mpr
        ⟨hpos, fun hs => hendless ⟨hprogress, hforever.mp hs⟩⟩

theorem normalized_of_endlessTimeline (h : d.resolve read? = .ok s) (hendless : d.EndlessTimeline) :
    s.normalized = .error .timelineDuration := by
  rcases Description.readTimeline_cases (Description.readTimeline_of_resolve h) with
    ⟨hprogress, -⟩ | ⟨-, -, hforever⟩
  · rw [hendless.1] at hprogress
    cases hprogress
  · exact normalized_of_forever (hforever.mpr hendless.2)

/-- An effect with the timing of a setup, owned by its animation at a time. -/
def ownedEffect (s : Setup) (l : LocalTime) : Effect Owner :=
  ({ specified := some s.timing } : Effect Owner).setOwner (some (s.owner l))

/-- The effect normalizes as the setup does. -/
theorem normalized_ownedEffect (s : Setup) (l : LocalTime) :
    ((s.ownedEffect l).normalized id).2 = (s.normalized.map some).mapError .broken := by
  rw [← uncached_owner s l]
  exact Effect.Holds.normalized (Or.inl rfl)

/-- The timing of an accepted description can be normalized, directly and by an effect at every
time, unless the description asks for a timeline of the greatest duration there is. Then both break
off, since they rely on a timeline that ends. -/
theorem normalized_iff_endlessTimeline (h : d.resolve read? = .ok s) (l : LocalTime) :
    ((∃ p, s.normalized = .ok p) ↔ ¬ d.EndlessTimeline) ∧
      ((∃ p, ((s.ownedEffect l).normalized id).2 = .ok (some p)) ↔ ¬ d.EndlessTimeline) ∧
      (d.EndlessTimeline →
        s.normalized = .error .timelineDuration ∧
        ((s.ownedEffect l).normalized id).2 = .error (.broken .timelineDuration)) := by
  rw [normalized_ownedEffect]
  refine ⟨exists_normalized_iff h, ?_, ?_⟩
  · rw [← exists_normalized_iff h]
    cases s.normalized <;> simp [Except.map, Except.mapError]
  · intro hendless
    rw [normalized_of_endlessTimeline h hendless]
    exact ⟨rfl, rfl⟩

/-- One nanosecond less than the greatest duration is normalized. -/
theorem normalized_longestTimeline :
    ∃ s, (Description.scrolled "9223372036854775806ns").resolve Version.read? = .ok s ∧
      s.timeline.ns = 9223372036854775806 ∧
      (∃ p, s.normalized = .ok p) ∧
      ∃ p, ((s.ownedEffect .unresolved).normalized id).2 = .ok (some p) := by
  have hends : ¬ (Description.scrolled "9223372036854775806ns").EndlessTimeline := fun hendless =>
    absurd hendless.2 (by cbv; simp)
  obtain ⟨s, hs, htimeline⟩ :
      ∃ s, (Description.scrolled "9223372036854775806ns").resolve Version.read? = .ok s ∧
        s.timeline.ns = 9223372036854775806 := ⟨_, rfl, rfl⟩
  obtain ⟨hsetup, heffect, -⟩ := normalized_iff_endlessTimeline hs .unresolved
  exact ⟨s, hs, htimeline, hsetup.mpr hends, heffect.mpr hends⟩

/-- The greatest duration is accepted as one of a timeline, and then nothing can be normalized. -/
theorem normalized_endlessTimeline_broken :
    ∃ s, (Description.scrolled "9223372036854775807ns").resolve Version.read? = .ok s ∧
      s.normalized = .error .timelineDuration ∧
      ((s.ownedEffect .unresolved).normalized id).2 = .error (.broken .timelineDuration) :=
  ⟨_, rfl, rfl, rfl⟩

end Setup

end EffectTiming
