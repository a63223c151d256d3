import EffectTiming.Effect
import EffectTiming.Text.Raw

/-!
# Traces

A trace is a named list of samples in the form in which they are kept in files.
-/

namespace EffectTiming

/-- A sample as it is kept. -/
structure TraceSample where
  time : RawText := ""
  phase : RawText := ""
  /-- Empty while the effect does not apply. -/
  iteration : RawText := ""
  progress : Option Float := none
  beforeFlag : Bool := false

/-- A named list of samples; a trace without any sample may have no list at all. -/
structure Trace where
  name : RawText := ""
  samples : Option (List TraceSample) := none

/-- Progress is kept to this many parts of one, and zero has no sign. -/
def roundedProgress (x : Float) : Float :=
  let r := Binary64.round (x * 1000000) / 1000000
  if r == 0 then 0 else r

namespace TraceSample

/-- The kept form of a sample. -/
def ofComputed (localTime : LocalTime) (c : ComputedTiming) : TraceSample :=
  { time := localTime.text
    phase := c.phase.text
    iteration := if c.inEffect then c.iteration.text else ""
    progress := c.progress.map roundedProgress
    beforeFlag := c.beforeFlag }

end TraceSample

namespace Trace

/-- The number of samples. -/
def size (t : Trace) : Nat := (t.samples.getD []).length

/-- Adds a sample at the end. -/
def push (t : Trace) (s : TraceSample) : Trace :=
  { t with samples := some (t.samples.getD [] ++ [s]) }

/-- Samples a timing at several times. -/
def capture (name : RawText) (p : TimingParams) (o : SampleOptions) (times : List Span) :
    Except Broken Trace :=
  times.foldlM
    (fun t time => (p.compute (.resolved time) o).map fun c =>
      t.push (.ofComputed (.resolved time) c))
    { name }

/-- Adds a sample of an effect at its owner's current time. -/
def record {ω : Type} (view : ω → Owner) (t : Trace) (e : Effect ω) :
    Effect ω × Except EffectFault Trace :=
  let time := e.localTime view
  let (e, c) := e.computed view (.known .inclusive)
  (e, c.map fun c => t.push (.ofComputed time c))

end Trace

end EffectTiming
