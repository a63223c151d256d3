import Mathlib
import EffectTiming.Timing.Record
import EffectTiming.Proofs.Timing.Merge

/-!
# Records under composition

A record keeps its active duration and its end time, and nothing but `TimingRecord.update` sets
them. Checked options, a change laid over a record and a record scaled to a timeline all end in an
update, so the derived times of what they make are those of its own fields.

Scaling patches a copy of a record without checking it. That the copy still satisfies the check is
shown on timing parameters: each way to make a record does to `TimingParams.record` what the same
way to make parameters does to the parameters, so the record behind any composition is that of valid
parameters.
-/

namespace EffectTiming

open Binary64

theorem Coded.known_beq {α : Type} [DecidableEq α] (a b : α) : (known a == known b) = (a == b) := by
  rw [Bool.eq_iff_iff, beq_iff_eq, beq_iff_eq, known.injEq]

namespace TimingParams

variable {p : TimingParams}

/-! ### The record of parameters -/

theorem getD_easing_record (p : TimingParams) : p.record.easing.getD .linear = p.easing := by
  rw [record]
  cases p.easing <;> rfl

theorem isLinear_of_easing_record {e : Easing} (h : p.record.easing = some e) :
    e.isLinear = false ∧ e = p.easing := by
  have hkept : (if p.easing.isLinear then none else some p.easing) = some e := h
  split_ifs at hkept with hlinear
  cases hkept
  exact ⟨Bool.eq_false_iff.mpr hlinear, rfl⟩

theorem options_record (p : TimingParams) : p.record.options = p.options := by
  have hduration : (if p.duration.isSome then some p.iterationDuration else none) = p.duration := by
    rw [iterationDuration]
    cases p.duration <;> rfl
  rw [TimingRecord.options, getD_easing_record]
  exact congrArg (fun d => { p.options with duration := d }) hduration

theorem allIterations_eq (p : TimingParams) :
    TimingRecord.allIterations p.iterationDuration p.duration.isSome p.iterations =
    p.activeDuration := by
  rw [TimingRecord.allIterations, activeDuration, iterationDuration]
  cases p.duration with
  | none => rfl
  | some d => simp

/-- The record of parameters is up to date. -/
theorem update_record (p : TimingParams) : p.record.update = p.record := by
  have hactive := allIterations_eq p
  simp only [TimingRecord.update, record, endTime, hactive]

end TimingParams

namespace TimingRecord

variable {r q : TimingRecord} {p : TimingParams} {o : TimingOptions} {u : TimingUpdate} {t : Span}

/-! ### The same steps on records and on parameters -/

theorem validate_eq_map (o : TimingOptions) : validate o = o.validate.map TimingParams.record := by
  rw [validate, TimingOptions.validate]
  cases checkDuration o.duration with
  | error f => rfl
  | ok _ =>
    cases checkIterations o.iterations with
    | error f => rfl
    | ok _ =>
      cases checkStart o.iterationStart with
      | error f => rfl
      | ok _ =>
        cases hdirection : o.direction with
        | unknown _ => rfl
        | known direction =>
          cases hfill : o.fill with
          | unknown _ => rfl
          | known fill =>
            cases heasing : o.easing.fault? with
            | some f => rfl
            | none =>
              -- an update does not look at the derived times
              exact congrArg Except.ok (TimingParams.update_record ⟨o.delay, o.endDelay, o.duration,
                o.iterations, o.iterationStart, direction, fill, o.easing⟩)

theorem ofOptions_eq_map (o : TimingOptions) :
    ofOptions o = (TimingParams.ofOptions o).map TimingParams.record := by
  rw [ofOptions, TimingParams.ofOptions, validate_eq_map]
  cases o.validate <;> rfl

theorem merge_record (p : TimingParams) (u : TimingUpdate) :
    p.record.merge u = (p.merge u).map TimingParams.record := by
  rw [merge, TimingParams.options_record, ofOptions_eq_map, TimingParams.merge]

/-- Two records of parameters count as the same if the parameters do. -/
theorem same_record (p q : TimingParams) : p.record.same q.record = p.same q := by
  have hduration : (p.record.hasDuration == q.record.hasDuration &&
      p.record.duration == q.record.duration) = (p.duration == q.duration) := by
    show (p.duration.isSome == q.duration.isSome && p.iterationDuration == q.iterationDuration) = _
    rw [TimingParams.iterationDuration, TimingParams.iterationDuration]
    cases p.duration <;> cases q.duration <;> simp
  have hdirection : (p.record.direction == q.record.direction) = (p.direction == q.direction) :=
    Coded.known_beq _ _
  have hfill : (p.record.fill == q.record.fill) = (p.fill == q.fill) := Coded.known_beq _ _
  rw [same, TimingParams.same, sameEasing, TimingParams.getD_easing_record,
    TimingParams.getD_easing_record, ← hduration, hdirection, hfill]
  simp only [Bool.and_assoc]
  rfl

/-! ### Scaling to a timeline -/

theorem normalize_of_isTimelineDuration_eq_false (h : isTimelineDuration t = false) :
    r.normalize t true = .error .timelineDuration := by
  rw [normalize, h]
  rfl

/-- Without a duration, the iterations share the timeline. -/
theorem normalize_auto (h : isTimelineDuration t = true) (hauto : r.hasDuration = false) :
    r.normalize t true =
      .ok { r with
        delay := .zero
        endDelay := .zero
        duration :=
          if r.iterations > 0 && !r.iterations.isInf then t.scale (1 / r.iterations) else .zero
        hasDuration := true }.update := by
  rw [normalize, h, hauto]
  cases r.iterations > 0 && !r.iterations.isInf <;> rfl

theorem normalize_given (h : isTimelineDuration t = true) (hgiven : r.hasDuration = true) :
    r.normalize t true =
      .ok { r with
        delay := r.delay.scale (r.timelineScale t)
        endDelay := r.endDelay.scale (r.timelineScale t)
        duration := r.duration.scale (r.timelineScale t)
        hasDuration := true }.update := by
  rw [normalize, h, hgiven]
  rfl

theorem normalize_record (p : TimingParams) (t : Span) :
    p.record.normalize t true = (p.normalize t).map TimingParams.record := by
  cases h : isTimelineDuration t with
  | false =>
    rw [normalize_of_isTimelineDuration_eq_false h, TimingParams.normalize, h]
    rfl
  | true =>
    rw [TimingParams.normalize_of_isTimelineDuration h]
    cases hduration : p.duration with
    | none =>
      have hauto : p.record.hasDuration = false := congrArg Option.isSome hduration
      rw [normalize_auto h hauto]
      exact congrArg Except.ok (TimingParams.update_record (p.fillTimeline t))
    | some d =>
      have hgiven : p.record.hasDuration = true := congrArg Option.isSome hduration
      have hd : p.record.duration = d := by
        show p.iterationDuration = d
        rw [TimingParams.iterationDuration, hduration, Option.getD_some]
      rw [normalize_given h hgiven, hd]
      exact congrArg Except.ok (TimingParams.update_record (p.scaleTimes d (p.timelineScale t)))

/-! ### Up to date on every path -/

theorem update_of_ofOptions (h : ofOptions o = .ok r) : r.update = r := by
  rw [ofOptions_eq_map] at h
  obtain ⟨p, -, rfl⟩ := exists_ok_of_map h
  exact p.update_record

theorem update_of_merge (h : r.merge u = .ok q) : q.update = q := update_of_ofOptions h

/-- A scaled record is up to date, whether the record it was made from is or not. -/
theorem update_of_normalize (h : r.normalize t true = .ok q) : q.update = q := by
  cases ht : isTimelineDuration t with
  | false =>
    rw [normalize_of_isTimelineDuration_eq_false ht] at h
    cases h
  | true =>
    cases hduration : r.hasDuration with
    | false =>
      rw [normalize_auto ht hduration] at h
      cases h
      rfl
    | true =>
      rw [normalize_given ht hduration] at h
      cases h
      rfl

/-! ### Compositions -/

/-- Records that come from options, changes and timelines by any composition. -/
inductive Built : TimingRecord → Prop where
  | checked {o : TimingOptions} {r : TimingRecord} (h : ofOptions o = .ok r) : Built r
  | merged {r q : TimingRecord} {u : TimingUpdate} (hr : Built r) (h : r.merge u = .ok q) : Built q
  | normalized {r q : TimingRecord} {t : Span} {progressBased : Bool} (hr : Built r)
      (h : r.normalize t progressBased = .ok q) : Built q

theorem Built.update_eq (h : Built r) : r.update = r := by
  induction h with
  | checked h => exact update_of_ofOptions h
  | merged _ h _ => exact update_of_merge h
  | @normalized _ _ _ progressBased _ h ih =>
    cases progressBased with
    | false =>
      cases h
      exact ih
    | true => exact update_of_normalize h

/-- Behind every composition are valid parameters. -/
theorem Built.exists_valid (h : Built r) : ∃ p : TimingParams, p.Valid ∧ r = p.record := by
  induction h with
  | checked h =>
    rw [ofOptions_eq_map] at h
    obtain ⟨p, hp, rfl⟩ := exists_ok_of_map h
    exact ⟨p, TimingParams.valid_of_ofOptions hp, rfl⟩
  | merged _ h ih =>
    obtain ⟨p, -, rfl⟩ := ih
    rw [merge_record] at h
    obtain ⟨q, hq, rfl⟩ := exists_ok_of_map h
    exact ⟨q, TimingParams.valid_of_ofOptions hq, rfl⟩
  | @normalized _ _ _ progressBased _ h ih =>
    obtain ⟨p, hp, rfl⟩ := ih
    cases progressBased with
    | false =>
      cases h
      exact ⟨p, hp, rfl⟩
    | true =>
      rw [normalize_record] at h
      obtain ⟨q, hq, rfl⟩ := exists_ok_of_map h
      exact ⟨q, hp.normalize hq, rfl⟩

/-- What holds of a record however it was made. -/
structure WellFormed (r : TimingRecord) : Prop where
  duration_nonneg : Span.zero ≤ r.duration
  duration_auto : r.hasDuration = false → r.duration = .zero
  iterations_nonneg : 0 ≤ r.iterations
  iterations_number : r.iterations.isNaN = false
  start_nonneg : 0 ≤ r.iterationStart
  start_finite : isFinite r.iterationStart = true
  direction_known : r.direction.isKnown = true
  fill_known : r.fill.isKnown = true
  /-- The linear easing is not kept, and what is kept can be used. -/
  easing_kept : ∀ e, r.easing = some e → e.isLinear = false ∧ e.fault? = none
  activeDuration_nonneg : Span.zero ≤ r.activeDuration
  /-- The derived times are those of the other fields. -/
  upToDate : r.update = r
  beforeActive_nonneg : Span.zero ≤ r.beforeActive
  beforeActive_le : r.beforeActive ≤ r.activeAfter
  activeAfter_le : r.activeAfter ≤ r.endTime
  /-- The record passes the check, which leaves it as it is. -/
  rebuilt : ofOptions r.options = .ok r

/-- Every composition of checking options, laying a change over a record and scaling it to a
timeline gives a well-formed record, with derived times that are up to date. -/
theorem built_wellFormed (h : Built r) : r.WellFormed := by
  have hupdate := h.update_eq
  obtain ⟨p, hp, rfl⟩ := h.exists_valid
  obtain ⟨x, hx, hx0⟩ := hp.start
  exact {
    duration_nonneg := hp.duration
    duration_auto := fun hauto => by
      show p.iterationDuration = .zero
      have hnone : p.duration = none :=
        Option.not_isSome_iff_eq_none.mp (Bool.eq_false_iff.mp hauto)
      rw [TimingParams.iterationDuration, hnone, Option.getD_none]
    iterations_nonneg := hp.iterations_nonneg
    iterations_number := hp.iterations_number
    start_nonneg := (hasValue_zero.le_iff hx).mpr hx0
    start_finite := hx.isFinite
    direction_known := rfl
    fill_known := rfl
    easing_kept := fun e he => by
      obtain ⟨hlinear, rfl⟩ := TimingParams.isLinear_of_easing_record he
      exact ⟨hlinear, hp.easing⟩
    activeDuration_nonneg := TimingParams.activeDuration_nonneg hp
    upToDate := hupdate
    beforeActive_nonneg := p.beforeActive_nonneg
    beforeActive_le := hp.beforeActive_le
    activeAfter_le := p.activeAfter_le
    rebuilt := by
      rw [TimingParams.options_record, ofOptions_eq_map, hp.ofOptions_options]
      rfl }

/-- An end delay that cuts the last iteration short. -/
def earlyEnd : TimingUpdate := { endDelay := some (.clamp (-500000000)) }

/-- Options, a change and a timeline, one after the other. -/
theorem built_wellFormed_delayedRepeat :
    ∃ r₁ r₂ r₃, ofOptions TimingParams.delayedRepeat = .ok r₁ ∧ r₁.merge earlyEnd = .ok r₂ ∧
      r₂.normalize progressTimeline true = .ok r₃ ∧ r₂.endTime ≠ r₃.endTime ∧ r₃.WellFormed := by
  have hchain : ∃ r₁ r₂ r₃, ofOptions TimingParams.delayedRepeat = .ok r₁ ∧
      r₁.merge earlyEnd = .ok r₂ ∧ r₂.normalize progressTimeline true = .ok r₃ ∧
      r₂.endTime ≠ r₃.endTime := ⟨_, _, _, rfl, rfl, rfl, by decide +kernel⟩
  obtain ⟨r₁, r₂, r₃, h₁, h₂, h₃, hmoved⟩ := hchain
  exact ⟨r₁, r₂, r₃, h₁, h₂, h₃, hmoved,
    built_wellFormed (.normalized (.merged (.checked h₁) h₂) h₃)⟩

end TimingRecord

end EffectTiming
