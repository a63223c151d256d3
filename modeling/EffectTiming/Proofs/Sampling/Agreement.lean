import Mathlib
import EffectTiming.Sampling.Setup
import EffectTiming.Proofs.Effect.Derived

/-!
# Two ways of sampling agree

Samples of a setup can be taken through one effect, whose owner moves from time to time, or directly
from the normalized timing. Moving the owner drops what the effect kept, so no sample depends on an
earlier one, and both ways give the same records and the same failures.
-/

namespace EffectTiming.Setup

/-- Samples taken through one effect, one after another. -/
def sampleAll (s : Setup) (e : Effect Owner) :
    List LocalTime → List (Except EffectFault ComputedTiming)
  | [] => []
  | l :: ls => (s.sampleEffect e l).2 :: s.sampleAll (s.sampleEffect e l).1 ls

/-- A sample taken directly. -/
def sampleDirectly (s : Setup) (l : LocalTime) : Except Broken ComputedTiming := do
  s.sampleAt (← s.normalized) l

variable {s : Setup} {e : Effect Owner}

/-- The timeline of the owner is that of the setup, as far as it measures progress. -/
theorem progressTimeline?_owner (s : Setup) (l : LocalTime) :
    (s.owner l).progressTimeline? = if s.progressBased then some s.timeline else none := by
  show (if s.timeline = .zero then none else some s.timeline) = _
  rw [progressBased]
  by_cases h : s.timeline = .zero <;> simp [h]

/-- Without memory, an effect derives the normalized timing of the setup. -/
theorem uncached_owner (s : Setup) (l : LocalTime) :
    Effect.uncached (some s.timing) (s.owner l).progressTimeline? =
      (s.normalized.map some).mapError .broken := by
  rw [progressTimeline?_owner, normalized]
  cases s.progressBased <;> rfl

/-- An effect of the setup's owner samples as the setup does. -/
theorem sample_owner {l : LocalTime} (he : e.owner = some (s.owner l)) (p : TimingParams) :
    e.sample id (some p) (.known s.endpoint) = (s.sampleAt p l).mapError .broken := by
  have hview : e.ownerView id = some (s.owner l) := by
    rw [Effect.ownerView, he, Option.map_id_fun, id]
  have htime : e.localTime id = l := by
    rw [Effect.localTime, hview]
    rfl
  have hoptions : e.sampleOptions id (.known s.endpoint) = s.sampleOptions l := by
    rw [Effect.sampleOptions, hview]
    rfl
  rw [Effect.sample, htime, hoptions, sampleAt]

/-- One sample depends on the specified timing only, and leaves it as it is. -/
theorem sampleEffect_eq (he : e.specified = some s.timing) (l : LocalTime) :
    (s.sampleEffect e l).2 = (s.sampleDirectly l).mapError .broken ∧
      (s.sampleEffect e l).1.specified = some s.timing := by
  set moved := e.setOwner (some (s.owner l)) with hmoved
  have hspecified : moved.specified = some s.timing := he
  have howner : (moved.normalized id).1.owner = some (s.owner l) := Effect.refresh_owner id moved
  -- the owner has just been replaced, so nothing is kept
  have hnormalized : (moved.normalized id).2 = (s.normalized.map some).mapError .broken := by
    rw [← uncached_owner s l, ← hspecified]
    exact Effect.Holds.normalized (Or.inl rfl)
  constructor
  · show (moved.normalized id).2.bind
      (fun p => (moved.normalized id).1.sample id p (.known s.endpoint)) = _
    rw [hnormalized, sampleDirectly]
    cases s.normalized with
    | error cause => rfl
    | ok p => exact sample_owner howner p
  · exact (Effect.refresh_specified id moved).trans hspecified

theorem sampleAll_eq_map (he : e.specified = some s.timing) (times : List LocalTime) :
    s.sampleAll e times = times.map fun l => (s.sampleDirectly l).mapError .broken := by
  induction times generalizing e with
  | nil => rfl
  | cons l ls ih =>
    obtain ⟨hsample, hspecified⟩ := sampleEffect_eq he l
    rw [sampleAll, hsample, ih hspecified, List.map_cons]

/-- Through the one effect of a setup, every time of a list gives the record or the failure that it
gives on its own, directly from the normalized timing. -/
theorem sampleAll_effect_eq (s : Setup) (times : List LocalTime) :
    s.sampleAll s.effect times =
      times.map fun l => (s.normalized >>= fun n =>
        n.compute l (s.sampleOptions l)).mapError .broken :=
  sampleAll_eq_map rfl times

end EffectTiming.Setup
