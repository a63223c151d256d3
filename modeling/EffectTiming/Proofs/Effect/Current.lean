import Mathlib
import EffectTiming.Proofs.Binary64.Overflow
import EffectTiming.Proofs.Stage.Coherence
import EffectTiming.Proofs.Timing.Composition
import EffectTiming.Proofs.Timing.Phase

/-!
# Being current is one-way

An effect is current while it is active, and before or after that as long as its owner plays towards
the active interval. Played forwards it has been current at all earlier times, played backwards it
stays so at all later ones, and an owner that does not move has nothing but the active interval.

The argument is the order of the phases of one course (`Phase.NotLater`) against the sign of the
rate. Two things stand between that and an effect. What is sampled is the timing that the effect
keeps, which may have been derived for a timeline that is no longer there, but is valid all the
same; and the sample at the other time must not break off, which it cannot where less is shown.
-/

namespace EffectTiming

namespace Effect

variable {rate : Float}

theorem isCurrentIn_of_pos (h : 0 < rate) (phase : Phase) :
    isCurrentIn rate phase = true ↔ phase = .before ∨ phase = .active := by
  cases phase <;> simp [isCurrentIn, h, Binary64.not_neg_of_pos h]

theorem isCurrentIn_of_neg (h : rate < 0) (phase : Phase) :
    isCurrentIn rate phase = true ↔ phase = .active ∨ phase = .after := by
  have hpos : ¬ 0 < rate := fun hpos => Binary64.not_neg_of_pos hpos h
  cases phase <;> simp [isCurrentIn, h, hpos]

theorem isCurrentIn_of_unsigned (h : (rate == 0) = true ∨ rate.isNaN = true) (phase : Phase) :
    isCurrentIn rate phase = (phase == .active) := by
  obtain ⟨hpos, hneg⟩ := Binary64.not_pos_and_not_neg h
  cases phase with
  | idle | active => rfl
  | before => exact decide_eq_false hpos
  | after => exact decide_eq_false hneg

end Effect

namespace TimingParams

variable {p : TimingParams} {o : SampleOptions} {t₁ t₂ : Span}

theorem OverflowsIn.congr {phase phase' : Phase} (h : p.OverflowsIn phase)
    (hphase : phase' ≠ .before) :
    p.OverflowsIn phase' := ⟨h.1, hphase, h.2.2⟩

/-- A sample is defined in the phase before the active interval, and in every other phase if some
sample is that shows as much. -/
theorem exists_compute_of_ok (h : p.Valid) {c : ComputedTiming} {t : Span}
    (hc : p.compute (.resolved t) o = .ok c) (t' : Span)
    (hphase : p.phaseAt o t' = .before ∨
      c.phase ≠ .before ∧ (p.appliesIn (p.phaseAt o t') = true → p.appliesIn c.phase = true)) :
    ∃ c', p.compute (.resolved t') o = .ok c' ∧ c'.phase = p.phaseAt o t' := by
  obtain ⟨c', hc'⟩ : ∃ c', p.compute (.resolved t') o = .ok c' := by
    apply compute_ok h
    rintro ⟨_, ⟨⟩, happlies, hover⟩
    rcases hphase with hbefore | ⟨hbefore, hshown⟩
    · exact hover.2.1 hbefore
    · -- the overflow would have shown at the other time already
      have hphase := phase_of_compute h hc
      have hbroken := compute_of_overflowsAt h (o := o) (l := .resolved t) ⟨t, rfl, by
        rw [← hphase]
        exact ⟨hshown happlies, hover.congr hbefore⟩⟩
      rw [hc] at hbroken
      cases hbroken
  exact ⟨c', hc', phase_of_compute h hc'⟩

variable {rate : Float} {c : ComputedTiming}

/-- Played forwards, an effect that is current was so at every earlier time. -/
theorem current_earlier (h : p.Valid) (hrate : 0 < rate) (hle : t₁ ≤ t₂)
    (hc : p.compute (.resolved t₂) o = .ok c) (hcurrent : Effect.isCurrentIn rate c.phase = true) :
    ∃ c', p.compute (.resolved t₁) o = .ok c' ∧ Effect.isCurrentIn rate c'.phase = true := by
  have horder := phaseAt_notLater_of_le (p := p) hle fun _ => o
  rw [← phase_of_compute h hc] at horder
  rw [Effect.isCurrentIn_of_pos hrate] at hcurrent
  have hphase := horder.of_not_over hcurrent
  have hdefined : p.phaseAt o t₁ = .before ∨
      c.phase ≠ .before ∧ (p.appliesIn (p.phaseAt o t₁) = true → p.appliesIn c.phase = true) := by
    refine hphase.imp_right ?_
    rintro ⟨-, hactive⟩
    rw [hactive]
    exact ⟨Phase.noConfusion, fun _ => rfl⟩
  obtain ⟨c', hc', hshown⟩ := exists_compute_of_ok h hc t₁ hdefined
  refine ⟨c', hc', ?_⟩
  rw [Effect.isCurrentIn_of_pos hrate, hshown]
  exact hphase.imp_right And.left

/-- Played backwards, an effect that is current is so at every later time. -/
theorem current_later (h : p.Valid) (hrate : rate < 0) (hle : t₁ ≤ t₂)
    (hc : p.compute (.resolved t₁) o = .ok c) (hcurrent : Effect.isCurrentIn rate c.phase = true) :
    ∃ c', p.compute (.resolved t₂) o = .ok c' ∧ Effect.isCurrentIn rate c'.phase = true := by
  have horder := phaseAt_notLater_of_le (p := p) hle fun _ => o
  rw [← phase_of_compute h hc] at horder
  rw [Effect.isCurrentIn_of_neg hrate] at hcurrent
  have hphase := horder.of_begun hcurrent
  have hdefined : c.phase ≠ .before ∧
      (p.appliesIn (p.phaseAt o t₂) = true → p.appliesIn c.phase = true) := by
    rcases hcurrent with hactive | hafter
    · rw [hactive]
      exact ⟨Phase.noConfusion, fun _ => rfl⟩
    · rw [hafter] at hphase ⊢
      rcases hphase with hover | ⟨hactive, -⟩
      · rw [hover]
        exact ⟨Phase.noConfusion, id⟩
      · cases hactive
  obtain ⟨c', hc', hshown⟩ := exists_compute_of_ok h hc t₂ (Or.inr hdefined)
  refine ⟨c', hc', ?_⟩
  rw [Effect.isCurrentIn_of_neg hrate, hshown]
  exact hphase.symm.imp_left And.right

end TimingParams

namespace Effect

variable {ω : Type} {e : Effect ω} {w : ω} {o : Owner} {view view' : ω → Owner}

/-- Of the owner only the timeline matters for the normalized timing. -/
theorem normalized_congr (h : e.timeline? view = e.timeline? view') :
    e.normalized view = e.normalized view' := by
  simp only [normalized, refresh, h]

theorem sample_of_owner (view : ω → Owner) (howner : e.owner = some w) (p : TimingParams)
    (endpoint : Coded Endpoint) :
    e.sample view (some p) endpoint =
      (p.compute (view w).time ((view w).sampleOptions endpoint)).mapError .broken := by
  simp [sample, localTime, sampleOptions, ownerView, howner]

theorem isCurrent_eq_map (howner : e.owner = some w) (hunfinished : (view w).finished = false) :
    (e.isCurrent view).2 =
      (e.computed view (.known .inclusive)).2.map fun c => isCurrentIn (view w).rate c.phase := by
  have hview : (e.normalized view).1.ownerView view = some (view w) := by
    show ((e.refresh view).1.owner).map view = _
    rw [refresh_owner, howner]
    rfl
  simp only [isCurrent, computed, hview, hunfinished, Bool.false_eq_true, if_false]
  cases (e.normalized view).2 <;> rfl

/-- What is given was derived at some time, if not at the moment. -/
theorem Holds.exists_uncached {t : Option Span} {r : Option TimingParams} (h : e.Holds t)
    (hr : (e.normalized view).2 = .ok r) : ∃ t', uncached e.specified t' = .ok r := by
  rcases h with hnone | ⟨d, hd, hderive⟩
  · have hpresent : e.Holds (e.timeline? view) := Or.inl hnone
    exact ⟨e.timeline? view, by rw [← hpresent.normalized, hr]⟩
  · refine ⟨t, ?_⟩
    rw [← derive_map_timing, hderive, ← hr]
    simp only [Effect.normalized, Effect.refresh, hd]

theorem valid_of_uncached {p q : TimingParams} {t : Option Span} (hvalid : p.Valid)
    (h : uncached (some p) t = .ok (some q)) : q.Valid := by
  cases t with
  | none =>
    cases h
    exact hvalid
  | some timeline =>
    rw [uncached, mapError_eq_ok_iff] at h
    obtain ⟨q', hq', hsame⟩ := exists_ok_of_map h
    cases hsame
    exact hvalid.normalize hq'

/-- A sample is one of the normalized timing, at the time and with the options that the owner
gives. -/
theorem computed_eq_ok_iff (howner : e.owner = some w) (endpoint : Coded Endpoint)
    {c : ComputedTiming} :
    (e.computed view endpoint).2 = .ok c ↔
      ∃ q, (e.normalized view).2 = .ok (some q) ∧
        q.compute (view w).time ((view w).sampleOptions endpoint) = .ok c := by
  have hkept : (e.normalized view).1.owner = some w := (refresh_owner view e).trans howner
  have hsample := sample_of_owner view hkept
  simp only [computed]
  cases (e.normalized view).2 with
  | error f => simp [Except.bind]
  | ok r =>
    cases r with
    | none => simp [Except.bind, sample]
    | some q => simp [Except.bind, hsample, mapError_eq_ok_iff]

/-- The effect is current when its owner is as `o`, but at the local time `l`. -/
def currentAt (e : Effect ω) (o : Owner) (l : LocalTime) : Except EffectFault Bool :=
  (e.isCurrent fun _ => { o with time := l }).2

theorem currentAt_eq_ok_true_iff (howner : e.owner = some w)
    (hunfinished : o.finished = false) {l : LocalTime} :
    e.currentAt o l = .ok true ↔
      ∃ q c, (e.normalized fun _ => o).2 = .ok (some q) ∧
        q.compute l (o.sampleOptions (.known .inclusive)) = .ok c ∧
        isCurrentIn o.rate c.phase = true := by
  have hnormalized : e.normalized (fun _ => { o with time := l }) = e.normalized fun _ => o := by
    apply normalized_congr
    cases h : e.owner <;> simp [timeline?, ownerView, h, Owner.progressTimeline?]
  rw [currentAt, isCurrent_eq_map howner hunfinished]
  constructor
  · intro h
    obtain ⟨c, hc, hcurrent⟩ := exists_ok_of_map h
    obtain ⟨q, hq, hc⟩ := (computed_eq_ok_iff howner _).mp hc
    rw [hnormalized] at hq
    exact ⟨q, c, hq, hc, hcurrent⟩
  · rintro ⟨q, c, hq, hc, hcurrent⟩
    rw [← hnormalized] at hq
    rw [(computed_eq_ok_iff howner _).mpr ⟨q, hq, hc⟩]
    exact congrArg Except.ok hcurrent

/-- The normalized timing that an effect gives is as valid as its specified timing. -/
theorem Holds.valid_of_normalized {p q : TimingParams} {t : Option Span} (h : e.Holds t)
    (hp : e.specified = some p) (hvalid : p.Valid)
    (hq : (e.normalized view).2 = .ok (some q)) : q.Valid := by
  obtain ⟨t', ht'⟩ := h.exists_uncached hq
  rw [hp] at ht'
  exact valid_of_uncached hvalid ht'

end Effect

namespace Stage

/-- On a stage what an effect keeps was derived from its specified timing, for one timeline or
another. -/
theorem exists_holds_step {s : Stage} {t : Option Span} (h : s.effect.Holds t) (a : Action) :
    ∃ t', (s.step a).1.effect.Holds t' := by
  rcases step_effect s a with hnone | ⟨hderived, hspecified⟩ | hrefresh
  · exact ⟨t, Or.inl hnone⟩
  · refine ⟨t, ?_⟩
    rw [Effect.Holds, hderived, hspecified]
    exact h
  · rw [hrefresh]
    rcases h with hnone | ⟨d, hd, hderive⟩
    · exact ⟨s.effect.timeline? s.view, Effect.Holds.refresh (Or.inl hnone) (Or.inr rfl)⟩
    · rw [Effect.refresh, hd]
      exact ⟨t, Or.inr ⟨d, hd, hderive⟩⟩

theorem exists_holds_after {s : Stage} {t : Option Span} (h : s.effect.Holds t)
    (actions : List Action) :
    ∃ t', (s.after actions).effect.Holds t' := by
  induction actions generalizing s t with
  | nil => exact ⟨t, h⟩
  | cons a as ih =>
    obtain ⟨t', ht'⟩ := exists_holds_step h a
    exact ih ht'

/-- Whatever has been done on a stage before: if its effect has valid timing and an owner that is
not finished, the effect is current at all earlier times if it is played forwards, at all later
times if it is played backwards, and otherwise exactly in the active phase. -/
theorem isCurrent_oneWay {timing : Option TimingParams} {actions : List Action}
    {e : Effect Attachment} (hrun : ((ofTiming timing).after actions).effect = e) {p : TimingParams}
    (hp : e.specified = some p) (hvalid : p.Valid) {w : Attachment} (howner : e.owner = some w)
    {o : Owner} (hunfinished : o.finished = false) :
    (0 < o.rate → ∀ l₁ l₂ : Span, l₁ ≤ l₂ →
      e.currentAt o (.resolved l₂) = .ok true → e.currentAt o (.resolved l₁) = .ok true) ∧
    (o.rate < 0 → ∀ l₁ l₂ : Span, l₁ ≤ l₂ →
      e.currentAt o (.resolved l₁) = .ok true → e.currentAt o (.resolved l₂) = .ok true) ∧
    ((o.rate == 0) = true ∨ o.rate.isNaN = true → ∀ l, e.currentAt o l =
      (e.computed (fun _ => { o with time := l }) (.known .inclusive)).2.map fun c =>
        c.phase == .active) := by
  obtain ⟨t, hkept⟩ : ∃ t, e.Holds t := by
    rw [← hrun]
    exact exists_holds_after (t := none) (Or.inl rfl) actions
  have hnormalized : ∀ q, (e.normalized fun _ => o).2 = .ok (some q) → q.Valid := by
    intro q hq
    exact hkept.valid_of_normalized hp hvalid hq
  simp only [Effect.currentAt_eq_ok_true_iff howner hunfinished]
  refine ⟨?_, ?_, ?_⟩
  · rintro hrate l₁ l₂ hle ⟨q, c, hq, hc, hcurrent⟩
    obtain ⟨c', hc', hcurrent'⟩ :=
      TimingParams.current_earlier (hnormalized q hq) hrate hle hc hcurrent
    exact ⟨q, c', hq, hc', hcurrent'⟩
  · rintro hrate l₁ l₂ hle ⟨q, c, hq, hc, hcurrent⟩
    obtain ⟨c', hc', hcurrent'⟩ :=
      TimingParams.current_later (hnormalized q hq) hrate hle hc hcurrent
    exact ⟨q, c', hq, hc', hcurrent'⟩
  · intro hrate l
    rw [Effect.currentAt, Effect.isCurrent_eq_map howner hunfinished]
    simp only [Effect.isCurrentIn_of_unsigned hrate]

/-- A second of waiting and a second of playing. -/
def waiting : TimingOptions := { delay := .clamp 1000000000, duration := some (.clamp 1000000000) }

/-- The timing is normalized to a timeline that is gone afterwards. -/
def leavingTimeline : List Action :=
  [.setTimeline progressTimeline, .attach, .normalized, .setTimeline .zero]

/-- On the timeline the second of waiting took half of its length, and it still does so without
it. -/
theorem isCurrent_oneWay_leavingTimeline :
    ∃ p, TimingParams.ofOptions waiting = .ok p ∧
      let s := (ofTiming (some p)).after leavingTimeline
      s.timeline = none ∧
        s.effect.currentAt { rate := 1 } (.resolved (.clamp 40000000000)) = .ok true ∧
        s.effect.currentAt { rate := 1 } (.resolved (.clamp 10000000000)) = .ok true := by
  have hlate : ∃ p, TimingParams.ofOptions waiting = .ok p ∧
      let s := (ofTiming (some p)).after leavingTimeline
      s.timeline = none ∧ s.effect.specified = some p ∧ s.effect.owner = some .player ∧
        (s.effect.currentAt { rate := 1 } (.resolved (.clamp 40000000000))).toOption.map
        id = some true := by
    refine ⟨_, rfl, rfl, rfl, rfl, ?_⟩
    decide +kernel
  obtain ⟨p, hp, htimeline, hspecified, howner, hcurrent⟩ := hlate
  obtain ⟨_, hcurrent, rfl⟩ := exists_ok_of_toOption hcurrent
  refine ⟨p, hp, htimeline, hcurrent, ?_⟩
  have honeWay :=
    isCurrent_oneWay rfl hspecified (TimingParams.valid_of_ofOptions hp) howner
    (o := { rate := 1 }) rfl
  exact honeWay.1 (by decide +kernel) _ _ (by decide) hcurrent

end Stage

end EffectTiming
