import EffectTiming.Timing.Computed

/-!
# Timing summaries

Timing as tools see it: times in milliseconds and keywords as words. `TimingSummary` shows what was
specified, `SampleSummary` a sample on top of it.
-/

namespace EffectTiming

/-- Specified timing, times in milliseconds. -/
structure TimingSummary where
  delay : Float
  endDelay : Float
  duration : Option Float
  iterations : Float
  iterationStart : Float
  direction : String
  fill : String
  easing : String

/-- A sample of specified timing. Duration and fill are those of the sample, so `auto` is
resolved. -/
structure SampleSummary where
  timing : TimingSummary
  activeDuration : Float
  endTime : Float
  phase : String
  localTime : Option Float
  progress : Option Float
  currentIteration : Option Float

/-- The summary of specified timing. -/
def TimingParams.summary (p : TimingParams) : TimingSummary :=
  { delay := p.delay.milliseconds
    endDelay := p.endDelay.milliseconds
    duration := p.duration.map Span.milliseconds
    iterations := p.iterations
    iterationStart := p.iterationStart
    direction := p.direction.text
    fill := p.fill.text
    easing := p.easing.text }

/-- The summary of a sample of specified timing. The end of infinitely many iterations is an
infinite number, never a count. -/
def ComputedTiming.summary (c : ComputedTiming) (specified : TimingParams) (localTime : LocalTime) :
    SampleSummary :=
  { timing :=
      { specified.summary with
        duration := some c.duration.milliseconds
        fill := c.fill.text }
    activeDuration := c.activeDuration.milliseconds
    endTime := c.endTime.milliseconds
    phase := c.phase.text
    localTime := localTime.time?.map Span.milliseconds
    progress := c.progress
    currentIteration := if c.progress.isSome then some c.iteration.toFloat else none }

end EffectTiming
