import EffectTiming.Timing.Invariant
import EffectTiming.Timing.Params

/-!
# Normalized timing

A progress-based timeline has a duration of its own, and the timing of an effect on it is expressed
in that duration: all times are scaled so that the end time falls on the end of the timeline. An
`auto` duration divides the timeline evenly among the iterations and drops both delays.
-/

namespace EffectTiming

/-- The time that stands for the full range of a progress-based timeline unless it says
otherwise. -/
def progressTimeline : Span := ⟨100000000000, by decide, by decide⟩

/-- A timeline duration that timing can be scaled to. -/
def isTimelineDuration (t : Span) : Bool := Span.zero < t && !t.isForever

namespace TimingParams

/-- Divides the timeline evenly among the iterations. -/
def fillTimeline (p : TimingParams) (timeline : Span) : TimingParams :=
  let duration :=
    if p.iterations > 0 && !p.iterations.isInf then timeline.scale (1 / p.iterations) else .zero
  { p with delay := .zero, endDelay := .zero, duration := some duration }

/-- How much longer the timeline is than the effect; zero if the effect is empty or without end. -/
def timelineScale (p : TimingParams) (timeline : Span) : Float :=
  if Span.zero < p.endTime && !p.endTime.isForever then timeline.ratio p.endTime else 0

/-- Scales every time of the effect. -/
def scaleTimes (p : TimingParams) (d : Span) (factor : Float) : TimingParams :=
  { p with
    delay := p.delay.scale factor
    endDelay := p.endDelay.scale factor
    duration := some (d.scale factor) }

/-- The timing expressed in the duration of a progress-based timeline. -/
def normalize (p : TimingParams) (timeline : Span) : Except Broken TimingParams := do
  require (isTimelineDuration timeline) .timelineDuration
  match p.duration with
  | none => .ok (p.fillTimeline timeline)
  | some d => .ok (p.scaleTimes d (p.timelineScale timeline))

end TimingParams

end EffectTiming
