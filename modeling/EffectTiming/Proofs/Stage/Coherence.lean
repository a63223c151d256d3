import Mathlib
import EffectTiming.Stage.Basic
import EffectTiming.Proofs.Effect.Derived

/-!
# What an effect remembers is what it would derive

An effect keeps its normalized timing once it has been derived. The timeline may change behind its
back, so what is kept can be out of date; but it never is as long as every timeline from which it
could have been derived, since it was last dropped, is the present one.

The invariant is `Effect.Holds` for the present timeline. One action on a stage either drops what is
kept, or leaves it alone together with the specified timing, or derives it anew
(`Stage.step_effect`); a run follows by induction (`Stage.holds_after`).
-/

namespace EffectTiming

namespace Stage

variable {s : Stage} {t : Option Span}

/-! ### One action -/

/-- A change of timing is reported exactly if what is kept is dropped for it. -/
theorem setTiming_effect (s : Stage) (timing : Option TimingParams) :
    ((s.setTiming timing).1.effect = s.effect ∧ (s.setTiming timing).2.answer = .flag false) ∨
      ((s.setTiming timing).1.effect.derived = none ∧
        (s.setTiming timing).2.answer = .flag true) := by
  show ((s.effect.setTiming timing).1 = s.effect ∧
      Answer.flag (s.effect.setTiming timing).2.isSome = .flag false) ∨
    ((s.effect.setTiming timing).1.derived = none ∧
      Answer.flag (s.effect.setTiming timing).2.isSome = .flag true)
  rw [Effect.setTiming]
  split
  · exact Or.inl ⟨rfl, rfl⟩
  · exact Or.inr ⟨rfl, rfl⟩

theorem update_effect (s : Stage) (change : TimingUpdate) :
    ((s.update change).1.effect = s.effect ∧ (s.update change).2.answer ≠ .flag true) ∨
      ((s.update change).1.effect.derived = none ∧ (s.update change).2.answer = .flag true) := by
  rw [update]
  split
  · exact Or.inl ⟨rfl, Answer.noConfusion⟩
  · split
    · rename_i q _
      refine (setTiming_effect s (some q)).imp_left ?_
      rintro ⟨heffect, hanswer⟩
      refine ⟨heffect, ?_⟩
      rw [hanswer]
      simp
    · exact Or.inl ⟨rfl, Answer.noConfusion⟩

theorem record_effect (s : Stage) : s.record.1.effect = (s.effect.refresh s.view).1 := by
  have hrecord : (s.trace.record s.view s.effect).1 = (s.effect.refresh s.view).1 := rfl
  rw [← hrecord, record]
  rcases s.trace.record s.view s.effect with ⟨effect, trace⟩
  cases trace <;> rfl

/-- An action drops what is kept, or leaves it and the specified timing alone, or derives. -/
theorem step_effect (s : Stage) (a : Action) :
    (s.step a).1.effect.derived = none ∨
      ((s.step a).1.effect.derived = s.effect.derived ∧
        (s.step a).1.effect.specified = s.effect.specified) ∨
      (s.step a).1.effect = (s.effect.refresh s.view).1 := by
  have hkept : ∀ {e : Effect Attachment}, e = s.effect →
      e.derived = s.effect.derived ∧ e.specified = s.effect.specified := by
    rintro e rfl
    exact ⟨rfl, rfl⟩
  cases a with
  | setTiming timing =>
    rcases setTiming_effect s timing with ⟨h, -⟩ | ⟨h, -⟩
    · exact Or.inr (Or.inl (hkept h))
    · exact Or.inl h
  | update change =>
    rcases update_effect s change with ⟨h, -⟩ | ⟨h, -⟩
    · exact Or.inr (Or.inl (hkept h))
    · exact Or.inl h
  | setOwner _ | attach | invalidate => exact Or.inl rfl
  | listen | unlisten _ | advance _ | setClock _ | play | pause | seek _ | cancel | setRate _
  | setTimeline _ | setBoundary _ | setFinished _ | dict => exact Or.inr (Or.inl ⟨rfl, rfl⟩)
  | normalized | computed _ | inEffect | current | tween _ => exact Or.inr (Or.inr rfl)
  | record => exact Or.inr (Or.inr (record_effect s))

/-- The action reports a change of the specified timing. -/
def Reports (s : Stage) (a : Action) : Prop := (s.step a).2.answer = .flag true

/-- The action drops what the effect keeps: a change of owner, a demand, or a reported change of
timing. -/
def Drops (s : Stage) : Action → Prop
  | .setOwner _ | .attach | .invalidate => True
  | .setTiming timing => s.Reports (.setTiming timing)
  | .update change => s.Reports (.update change)
  | _ => False

theorem Drops.derived {a : Action} (h : s.Drops a) : (s.step a).1.effect.derived = none := by
  cases a with
  | setTiming timing =>
    rcases setTiming_effect s timing with ⟨-, hanswer⟩ | ⟨hderived, -⟩
    · have h : (s.setTiming timing).2.answer = .flag true := h
      rw [hanswer] at h
      cases h
    · exact hderived
  | update change =>
    rcases update_effect s change with ⟨-, hanswer⟩ | ⟨hderived, -⟩
    · exact absurd h hanswer
    · exact hderived
  | setOwner _ | attach | invalidate => rfl
  | _ => exact absurd h id

/-! ### Runs -/

/-- The stage after some actions. -/
def after (s : Stage) (actions : List Action) : Stage := (s.run actions).1

theorem after_append (s : Stage) (as bs : List Action) :
    s.after (as ++ bs) = (s.after as).after bs := by
  induction as generalizing s with
  | nil => rfl
  | cons a as ih => exact ih (s.step a).1

/-- The progress-based timeline of the owner at the moment. -/
def timeline (s : Stage) : Option Span := s.effect.timeline? s.view

/-- What would be derived at the moment. -/
def uncached (s : Stage) : Except EffectFault (Option TimingParams) :=
  Effect.uncached s.effect.specified s.timeline

/-- Nothing can be derived at the moment, or only for the timeline `t`. -/
def DerivesOnly (s : Stage) (t : Option Span) : Prop :=
  (∃ f, s.uncached = .error f) ∨ s.timeline = t

/-- One action keeps the invariant. -/
theorem holds_step (h : s.effect.Holds t) (ht : s.DerivesOnly t) (a : Action) :
    (s.step a).1.effect.Holds t := by
  rcases step_effect s a with hnone | ⟨hderived, hspecified⟩ | hrefresh
  · exact Or.inl hnone
  · rw [Effect.Holds, hderived, hspecified]
    exact h
  · rw [hrefresh]
    exact h.refresh ht

/-- So does a run, as long as nothing can be derived for another timeline on its way. -/
theorem holds_after (h : s.effect.Holds t) {actions : List Action}
    (ht : ∀ past, past <+: actions → (s.after past).DerivesOnly t) :
    (s.after actions).effect.Holds t := by
  -- the timeline is fixed, and the stage that the run starts from is not
  induction actions generalizing s with
  | nil => exact h
  | cons a as ih =>
    refine ih (holds_step h (ht [] List.nil_prefix) a) ?_
    intro past hpast
    exact ht (a :: past) (List.cons_prefix_cons.mpr ⟨rfl, hpast⟩)

/-- The effect is new, or the last action has dropped what it kept. -/
def DropsLast (s : Stage) (actions : List Action) : Prop :=
  actions = [] ∨ ∃ past a, actions = past ++ [a] ∧ (s.after past).Drops a

theorem derived_of_dropsLast {timing : Option TimingParams} {actions : List Action}
    (h : (ofTiming timing).DropsLast actions) :
    ((ofTiming timing).after actions).effect.derived = none := by
  rcases h with rfl | ⟨past, a, rfl, hdrops⟩
  · rfl
  · rw [after_append]
    exact hdrops.derived

/-- After any run on a stage, the normalized timing is the one that would be derived at the moment,
if since the last time at which what was kept was dropped nothing could be derived for any other
than the present timeline. It fails exactly if deriving fails; it never changes the specified
timing, the owner or the listeners, and changes nothing at all if it fails, so that it succeeds as
soon as the timeline is legal. -/
theorem normalized_coherent (timing : Option TimingParams) (earlier later : List Action)
    (hdrop : (ofTiming timing).DropsLast earlier)
    (hsteady : ∀ past, past <+: later →
      ((ofTiming timing).after (earlier ++ past)).DerivesOnly
        ((ofTiming timing).after (earlier ++ later)).timeline) :
    let s := (ofTiming timing).after (earlier ++ later)
    let (effect, result) := s.effect.normalized s.view
    result = s.uncached ∧
      effect.specified = s.effect.specified ∧ effect.owner = s.effect.owner ∧
      effect.listeners = s.effect.listeners ∧ effect.nextListener = s.effect.nextListener ∧
      (∀ f, result = .error f → effect = s.effect) ∧
      ∀ p t, s.effect.specified = some p → s.timeline = some t →
        ((∃ r, result = .ok r) ↔ isTimelineDuration t = true) := by
  intro s
  have hs : s = ((ofTiming timing).after earlier).after later := after_append _ _ _
  have hholds : s.effect.Holds s.timeline := by
    rw [hs]
    refine holds_after (Or.inl (derived_of_dropsLast hdrop)) ?_
    intro past hpast
    rw [← after_append, ← after_append]
    exact hsteady past hpast
  have hresult : (s.effect.normalized s.view).2 = s.uncached := hholds.normalized
  -- asking is deriving, which touches nothing but what is kept
  refine ⟨hresult, Effect.refresh_specified _ _, Effect.refresh_owner _ _,
    (Effect.refresh_listeners _ _).1, (Effect.refresh_listeners _ _).2,
    fun f hf => Effect.normalized_of_error hf, ?_⟩
  intro p t hp ht
  show (∃ r, (s.effect.normalized s.view).2 = .ok r) ↔ _
  rw [hresult, uncached, hp, ht]
  exact Effect.uncached_some_isOk p t

/-- Timing that fills its timeline once. -/
def fillingOnce : TimingParams :=
  { delay := .zero, endDelay := .zero, duration := none, iterations := 1, iterationStart := 0
    direction := .normal, fill := .auto, easing := .linear }

/-- A run in which deriving fails at first, for a negative timeline, and succeeds once the timeline
is legal, although nothing was dropped in between. -/
theorem normalized_coherent_after_failure :
    let s := (ofTiming (some fillingOnce)).after
      [.setTimeline .negForever, .attach, .normalized, .setTimeline progressTimeline]
    (s.effect.normalized s.view).2 = .ok (some (fillingOnce.fillTimeline progressTimeline)) := by
  refine (normalized_coherent (some fillingOnce) [.setTimeline .negForever, .attach]
    [.normalized, .setTimeline progressTimeline] ?_ ?_).1
  · exact Or.inr ⟨[.setTimeline .negForever], .attach, rfl, trivial⟩
  · intro past hpast
    rw [← List.mem_inits] at hpast
    simp only [List.inits, List.map_cons, List.map_nil, List.mem_cons, List.not_mem_nil,
      or_false] at hpast
    rcases hpast with rfl | rfl | rfl
    · exact Or.inl ⟨.broken .timelineDuration, rfl⟩
    · exact Or.inl ⟨.broken .timelineDuration, rfl⟩
    · exact Or.inr rfl

end Stage

end EffectTiming
