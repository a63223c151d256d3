import EffectTiming.Time.LocalTime
import EffectTiming.Timing.Normalize

/-!
# Computed timing

`TimingParams.compute` samples checked parameters at a local time: it finds the phase, the time
spent in the active interval, the iteration and the progress within it, one field after the other.
It stops early without a local time, and in a phase in which the effect does not apply.
-/

namespace EffectTiming

/-- A count of finished iterations, or the end of an effect that repeats without end. -/
inductive Iteration where
  | finite (index : Nat)
  | infinite
  deriving DecidableEq, Repr

namespace Iteration

/-- The number of an iteration. -/
def toFloat : Iteration → Float
  | .finite n => Float.ofNat n
  | .infinite => Binary64.infinity

/-- The text of an iteration. -/
def text : Iteration → String
  | .finite n => toString n
  | .infinite => "infinite"

/-- The iteration runs backwards under alternate playback. The end of infinitely many counts as
odd. -/
def odd : Iteration → Bool
  | .finite n => n % 2 == 1
  | .infinite => true

/-- The iteration before; the first and the infinite one stay as they are. -/
def previous : Iteration → Iteration
  | .finite n => .finite (n - 1)
  | .infinite => .infinite

end Iteration

/-- The text of a number that may be missing. -/
def nullableText : Option Float → String
  | none => "null"
  | some x => Binary64.general.text x

/-- What the owner of an effect adds to a sample. -/
structure SampleOptions where
  /-- The playback rate, of which only the sign matters. -/
  rate : Float := 0
  /-- A progress-based timeline stands exactly at one of its ends. -/
  atBoundary : Bool := false
  endpoint : Coded Endpoint := .known .inclusive

/-- The ends of the active interval do not belong to it. -/
def SampleOptions.exclusive (o : SampleOptions) : Bool :=
  o.endpoint == .known .exclusive && !o.atBoundary

/-- A sample of an effect. What the sampling did not reach looks as at the start of an effect. -/
structure ComputedTiming where
  phase : Phase := .idle
  /-- The time spent in the active interval. -/
  activeTime : Span := .zero
  /-- The progress in iterations, with the iteration start. -/
  overall : Option Float := none
  /-- The directed progress within the iteration, before easing. -/
  simple : Option Float := none
  /-- The eased progress, absent where the effect does not apply. -/
  progress : Option Float := none
  iteration : Iteration := .finite 0
  /-- The lower side of a jump applies. -/
  beforeFlag : Bool := false
  duration : Span
  fill : FillMode
  activeDuration : Span
  endTime : Span
  iterations : Float
  iterationStart : Float

namespace ComputedTiming

/-- The effect applies at the sampled time. -/
def inEffect (c : ComputedTiming) : Bool := c.progress.isSome

/-- The effect goes on applying when it is over. -/
def fillsForwards (c : ComputedTiming) : Bool := c.fill.fillsForwards

/-- The effect applies before it starts. -/
def fillsBackwards (c : ComputedTiming) : Bool := c.fill.fillsBackwards

end ComputedTiming

namespace TimingParams

/-- The phase of a local time. -/
def phaseAt (p : TimingParams) (o : SampleOptions) (time : Span) : Phase :=
  if p.activeAfter < time || (o.exclusive && o.rate ≥ 0 && time == p.activeAfter) then .after
  else if time < p.beforeActive || (o.exclusive && o.rate < 0 && time == p.beforeActive) then
    .before
  else .active

/-- Iteration numbers from here on are infinite. -/
def iterationLimit : Float := 18446744073709551616

/-- The iteration that an overall progress lies in. -/
def iterationOf (p : TimingParams) (phase : Phase) (overall : Float) : Iteration :=
  if (p.iterations ≥ iterationLimit && phase == .after) || overall ≥ iterationLimit then .infinite
  else .finite (Binary64.truncate overall).toNat

/-- The iteration runs backwards. -/
def runsBackwards (p : TimingParams) (i : Iteration) : Bool :=
  match p.direction with
  | .normal => false
  | .reverse => true
  | .alternate => i.odd
  | .alternateReverse => !i.odd

/-- A sample that shows the parameters only. -/
def unsampled (p : TimingParams) : ComputedTiming :=
  { duration := p.iterationDuration
    fill := p.fill.resolve
    activeDuration := p.activeDuration
    endTime := p.endTime
    iterations := p.iterations
    iterationStart := p.iterationStart }

/-- Fills in the directed and the eased progress of a sample whose iteration is known, from the part
of the iteration that is finished. -/
def ease (p : TimingParams) (c : ComputedTiming) (part : Float) : Except Broken ComputedTiming := do
  let backwards := p.runsBackwards c.iteration
  let simple := if backwards then 1 - part else part
  let c : ComputedTiming := { c with simple := some simple }
  let c : ComputedTiming :=
    { c with
      beforeFlag := (c.phase == .after && backwards) || (c.phase == .before && !backwards) }
  let progress := p.easing.eval simple c.beforeFlag
  require (Binary64.isFinite progress) .progressNotFinite
  return { c with progress := some progress }

/-- Fills in the rest of a sample whose phase and active time are known. An empty active interval is
complete as soon as it starts. At the very end of the active interval the last iteration counts as
finished, instead of the next one as begun; without any iteration it stays at the start. -/
def finish (p : TimingParams) (c : ComputedTiming) : Except Broken ComputedTiming := do
  let passed :=
    if c.activeDuration = .zero then if c.phase = .before then 0 else c.iterations
    else c.activeTime.ratio c.duration
  let finite := Binary64.isFinite passed
  let overall := if finite then passed + c.iterationStart else passed
  let c : ComputedTiming := { c with overall := some overall }
  let c : ComputedTiming := { c with iteration := p.iterationOf c.phase overall }
  let part := Binary64.fraction (if finite then overall else c.iterationStart)
  let atEnd :=
    part == 0 && (c.phase == .active || c.phase == .after) && c.activeTime == c.activeDuration &&
      c.iterations != 0
  require (!atEnd || c.iteration != .finite 0) .zeroIterationAtEnd
  if atEnd then p.ease { c with iteration := c.iteration.previous } 1 else p.ease c part

/-- Samples the parameters at a local time. Without a local time there is no more than the
parameters, and in a phase that the fill mode does not cover no more than the phase. -/
def compute (p : TimingParams) (localTime : LocalTime) (o : SampleOptions) :
    Except Broken ComputedTiming := do
  require (Span.zero ≤ p.iterationDuration) .negativeDuration
  require (p.iterations ≥ 0 && !p.iterations.isNaN) .negativeIterations
  require (p.iterationStart ≥ 0) .negativeStart
  let c := p.unsampled
  match localTime with
  | .unresolved => return c
  | .resolved time =>
    let passed := time.sub p.delay
    let c := { c with phase := p.phaseAt o time }
    match c.phase with
    | .after =>
      if c.fillsForwards then
        p.finish { c with activeTime := (passed.min c.activeDuration).max .zero }
      else return c
    | .before =>
      if c.fillsBackwards then p.finish { c with activeTime := passed.max .zero } else return c
    | _ => p.finish { c with activeTime := passed }

end TimingParams

end EffectTiming
