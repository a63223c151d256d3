import EffectTiming.Timing.Computed

/-!
# Owners

The animation that an effect belongs to gives it a current time, a direction of playback and a
timeline.
-/

namespace EffectTiming

/-- The state of an animation, as far as its effects see it. -/
structure Owner where
  time : LocalTime := .unresolved
  rate : Float := 0
  /-- A progress-based timeline stands exactly at one of its ends. -/
  boundary : Bool := false
  /-- The duration of a progress-based timeline; zero for a timeline that measures time. -/
  timeline : Span := .zero
  finished : Bool := false

namespace Owner

/-- The duration of the timeline, if it is progress-based. -/
def progressTimeline? (o : Owner) : Option Span :=
  if o.timeline = .zero then none else some o.timeline

/-- How an effect of the owner is sampled. -/
def sampleOptions (o : Owner) (endpoint : Coded Endpoint) : SampleOptions :=
  { rate := o.rate, atBoundary := o.boundary, endpoint }

end Owner

end EffectTiming
