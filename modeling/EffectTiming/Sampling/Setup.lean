import EffectTiming.Description.Resolve
import EffectTiming.Effect

/-!
# Sampling a setup

A setup can be sampled in two ways: through an effect whose owner is moved from one time to the
next, or directly from the normalized timing.
-/

namespace EffectTiming.Setup

/-- The effect of a setup; its owner has no current time yet. -/
def effect (s : Setup) : Effect Owner :=
  ({ specified := some s.timing } : Effect Owner).setOwner (some (s.owner .unresolved))

/-- Moves the owner of an effect to a time and samples the effect there. -/
def sampleEffect (s : Setup) (e : Effect Owner) (localTime : LocalTime) :
    Effect Owner × Except EffectFault ComputedTiming :=
  (e.setOwner (some (s.owner localTime))).computed id (.known s.endpoint)

/-- Samples a normalized timing directly. -/
def sampleAt (s : Setup) (normalized : TimingParams) (localTime : LocalTime) :
    Except Broken ComputedTiming :=
  normalized.compute localTime (s.sampleOptions localTime)

end EffectTiming.Setup
