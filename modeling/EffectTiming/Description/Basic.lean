import EffectTiming.Binary64.Parts
import EffectTiming.Text.Raw

/-!
# Descriptions of effects

An effect as it is written in a file: durations and words are still texts, and what is not written
has its default.
-/

namespace EffectTiming

/-- The timing of an effect as it is written. -/
structure TimingText where
  delay : RawText := ""
  endDelay : RawText := ""
  /-- Empty or `auto` for an automatic duration. -/
  duration : RawText := ""
  iterations : Option Float := none
  iterationStart : Float := 0
  direction : RawText := ""
  fill : RawText := ""
  easing : RawText := ""

/-- The timeline of an effect as it is written. -/
structure TimelineText where
  /-- The timeline measures progress instead of time. -/
  progress : Bool := false
  duration : RawText := ""

/-- The animation around an effect as it is written. -/
structure PlaybackText where
  rate : Option Float := none
  endpoint : RawText := ""
  /-- The timeline stands at one of its ends. -/
  boundary : Bool := false
  finished : Bool := false

/-- An effect as it is written. -/
structure Description where
  version : RawText := ""
  timing : TimingText := {}
  timeline : TimelineText := {}
  playback : PlaybackText := {}

end EffectTiming
