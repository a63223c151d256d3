import Mathlib
import EffectTiming.Effect

/-!
# Derived timing

What an effect keeps of its normalized timing, against what follows from the specified timing and a
timeline without any memory. `Effect.Holds` says that the two agree for a given timeline; deriving
and asking are specified by it.
-/

namespace EffectTiming

namespace Effect

variable {ω : Type} {e : Effect ω} {view : ω → Owner} {t : Option Span}

/-- The normalized timing for a timeline that may be progress-based, derived without any memory. -/
def uncached (specified : Option TimingParams) :
    Option Span → Except EffectFault (Option TimingParams)
  | none => .ok specified
  | some timeline =>
    match specified with
    | some p => ((p.normalize timeline).map some).mapError .broken
    | none =>
      if isTimelineDuration timeline then .error .noTiming else .error (.broken .timelineDuration)

theorem derive_map_timing (specified : Option TimingParams) (t : Option Span) :
    (derive specified t).map Derived.timing = uncached specified t := by
  cases t with
  | none => rfl
  | some timeline =>
    cases specified with
    | none =>
      rw [derive, uncached]
      split <;> rfl
    | some p =>
      rw [derive, uncached]
      cases p.normalize timeline <;> rfl

/-- With timing, exactly the legal timelines can be normalized to. -/
theorem uncached_some_isOk (p : TimingParams) (timeline : Span) :
    (∃ r, uncached (some p) (some timeline) = .ok r) ↔ isTimelineDuration timeline = true := by
  rw [uncached, TimingParams.normalize]
  cases isTimelineDuration timeline with
  | false => simp [require, bind, Except.bind, Except.map, Except.mapError]
  | true => cases p.duration <;> simp [require, bind, Except.bind, Except.map, Except.mapError]

/-! ### One derivation -/

theorem refresh_specified (view : ω → Owner) (e : Effect ω) :
    (e.refresh view).1.specified = e.specified := by
  rw [refresh]
  split
  · rfl
  · split <;> rfl

theorem refresh_owner (view : ω → Owner) (e : Effect ω) : (e.refresh view).1.owner = e.owner := by
  rw [refresh]
  split
  · rfl
  · split <;> rfl

theorem refresh_listeners (view : ω → Owner) (e : Effect ω) :
    (e.refresh view).1.listeners = e.listeners ∧
      (e.refresh view).1.nextListener = e.nextListener := by
  rw [refresh]
  split
  · exact ⟨rfl, rfl⟩
  · split <;> exact ⟨rfl, rfl⟩

/-- Nothing is kept, or what is kept follows from the specified timing and the timeline `t`. -/
def Holds (e : Effect ω) (t : Option Span) : Prop :=
  e.derived = none ∨ ∃ d, e.derived = some d ∧ derive e.specified t = .ok d

/-- What follows from the present timeline is what is asked for. -/
theorem Holds.normalized (h : e.Holds (e.timeline? view)) :
    (e.normalized view).2 = uncached e.specified (e.timeline? view) := by
  rw [← derive_map_timing]
  show ((e.refresh view).2).map Derived.timing = _
  rw [Effect.refresh]
  rcases h with hnone | ⟨d, hd, hderive⟩
  · rw [hnone]
    cases derive e.specified (e.timeline? view) <;> rfl
  · rw [hd, hderive]

/-- Deriving keeps the invariant, if it fails or is made for the timeline `t`. -/
theorem Holds.refresh (h : e.Holds t)
    (ht : (∃ f, uncached e.specified (e.timeline? view) = .error f) ∨ e.timeline? view = t) :
    (e.refresh view).1.Holds t := by
  rcases h with hnone | ⟨d, hd, hderive⟩
  · -- nothing is kept: what is derived now is kept, unless deriving fails
    rw [Effect.refresh, hnone]
    cases hd : derive e.specified (e.timeline? view) with
    | error f => exact Or.inl hnone
    | ok d =>
      rcases ht with ⟨f, hf⟩ | rfl
      · rw [← derive_map_timing, hd] at hf
        cases hf
      · exact Or.inr ⟨d, rfl, hd⟩
  · rw [Effect.refresh, hd]
    exact Or.inr ⟨d, hd, hderive⟩

/-- A failure leaves the effect as it was. -/
theorem normalized_of_error {f : EffectFault} (h : (e.normalized view).2 = .error f) :
    (e.normalized view).1 = e := by
  show (e.refresh view).1 = e
  change ((e.refresh view).2).map _ = _ at h
  rw [Effect.refresh] at h ⊢
  split at h
  · cases h
  · split at h
    · cases h
    · rfl

end Effect

end EffectTiming
