import EffectTiming.Easing.Basic
import EffectTiming.Timing.Words
import EffectTiming.Time.Span

/-!
# Timing parameters

`TimingOptions` is the timing of an effect as it is specified; `TimingOptions.validate` turns it
into `TimingParams`, which hold known keywords and an easing that can be used. The active duration,
the end time and the two boundaries of the active interval are derived from the parameters.
-/

namespace EffectTiming

/-- The specified timing of an effect, before it is checked. -/
structure TimingOptions where
  delay : Span := .zero
  endDelay : Span := .zero
  /-- The duration of an iteration; none stands for `auto`. -/
  duration : Option Span := none
  iterations : Float := 1
  iterationStart : Float := 0
  direction : Coded Direction := .known .normal
  fill : Coded FillMode := .known .auto
  easing : Easing := .linear

/-- Checked timing parameters. -/
structure TimingParams where
  delay : Span
  endDelay : Span
  duration : Option Span
  iterations : Float
  iterationStart : Float
  direction : Direction
  fill : FillMode
  easing : Easing

/-- What is wrong with specified timing. -/
inductive TimingFault where
  | negativeDuration
  | iterationsNotANumber
  | negativeIterations
  | startNotANumber
  | infiniteStart
  | negativeStart
  | unknownDirection
  | unknownFill
  | easing (fault : EasingFault)
  deriving DecidableEq, Repr

namespace TimingFault

/-- The field at fault. -/
def field : TimingFault → String
  | .negativeDuration => "duration"
  | .iterationsNotANumber | .negativeIterations => "iterations"
  | .startNotANumber | .infiniteStart | .negativeStart => "iterationStart"
  | .unknownDirection => "direction"
  | .unknownFill => "fill"
  | .easing _ => "easing"

/-- What is wrong with the field. -/
def reason : TimingFault → String
  | .negativeDuration | .negativeIterations | .negativeStart => "must be non-negative"
  | .iterationsNotANumber | .startNotANumber => "must be a number"
  | .infiniteStart => "must be finite"
  | .unknownDirection | .unknownFill => "unknown value"
  | .easing f => f.text

/-- The failure that a fault leads to. -/
def failure (f : TimingFault) : Failure :=
  .timing "animation.NewTimingParams" .validation f.field (.plain f.reason)

end TimingFault

/-- The iteration count is a number and not negative. -/
def checkIterations (x : Float) : Except TimingFault Unit :=
  if x.isNaN then .error .iterationsNotANumber
  else if x < 0 then .error .negativeIterations
  else .ok ()

/-- The iteration start is a finite number and not negative. -/
def checkStart (x : Float) : Except TimingFault Unit :=
  if x.isNaN then .error .startNotANumber
  else if x.isInf then .error .infiniteStart
  else if x < 0 then .error .negativeStart
  else .ok ()

/-- The duration, if there is one, is not negative. -/
def checkDuration (d : Option Span) : Except TimingFault Unit :=
  match d with
  | some d => if d < Span.zero then .error .negativeDuration else .ok ()
  | none => .ok ()

/-- Checks the fields in their order; the first fault wins. -/
def TimingOptions.validate (o : TimingOptions) : Except TimingFault TimingParams := do
  checkDuration o.duration
  checkIterations o.iterations
  checkStart o.iterationStart
  match o.direction, o.fill with
  | .unknown _, _ => .error .unknownDirection
  | .known _, .unknown _ => .error .unknownFill
  | .known direction, .known fill =>
    match o.easing.fault? with
    | some f => .error (.easing f)
    | none =>
      .ok
        { delay := o.delay, endDelay := o.endDelay, duration := o.duration
          iterations := o.iterations, iterationStart := o.iterationStart
          direction, fill, easing := o.easing }

/-- The parameters of specified timing. -/
def TimingParams.ofOptions (o : TimingOptions) : Except Failure TimingParams :=
  o.validate.mapError TimingFault.failure

namespace TimingParams

/-- The duration of an iteration, zero for `auto`. -/
def iterationDuration (p : TimingParams) : Span := p.duration.getD .zero

/-- How long the effect is active: all iterations together. Nothing repeated without end is
nothing. -/
def activeDuration (p : TimingParams) : Span :=
  match p.duration with
  | none => .zero
  | some d => if d = .zero || p.iterations == 0 then .zero else d.scale p.iterations

/-- When the effect is over, with both delays, and never before time zero. -/
def endTime (p : TimingParams) : Span :=
  ((p.delay.add p.activeDuration).add p.endDelay).max .zero

/-- Where the active interval starts, kept between zero and the end time. -/
def beforeActive (p : TimingParams) : Span := (p.delay.min p.endTime).max .zero

/-- Where the active interval ends, kept between zero and the end time. -/
def activeAfter (p : TimingParams) : Span :=
  ((p.delay.add p.activeDuration).min p.endTime).max .zero

/-- Both specify the same timing. Easings count as the same if they are written the same. -/
def same (p q : TimingParams) : Bool :=
  p.delay == q.delay && p.endDelay == q.endDelay && p.duration == q.duration &&
    p.iterations == q.iterations && p.iterationStart == q.iterationStart &&
    p.direction == q.direction && p.fill == q.fill && p.easing.same q.easing

/-- The parameters as specified timing, for building a changed copy. -/
def options (p : TimingParams) : TimingOptions :=
  { delay := p.delay, endDelay := p.endDelay, duration := p.duration
    iterations := p.iterations, iterationStart := p.iterationStart
    direction := .known p.direction, fill := .known p.fill, easing := p.easing }

end TimingParams

/-- Both are absent, or both specify the same timing. -/
def sameTiming : Option TimingParams → Option TimingParams → Bool
  | none, none => true
  | some p, some q => p.same q
  | _, _ => false

/-- A partial change of timing. What is not given stays. -/
structure TimingUpdate where
  delay : Option Span := none
  endDelay : Option Span := none
  /-- A given duration may be `auto`, which is the inner none. -/
  duration : Option (Option Span) := none
  iterations : Option Float := none
  iterationStart : Option Float := none
  direction : Option (Coded Direction) := none
  fill : Option (Coded FillMode) := none
  easing : Option Easing := none

namespace TimingUpdate

/-- Lays a change over specified timing. -/
def apply (u : TimingUpdate) (o : TimingOptions) : TimingOptions :=
  { delay := u.delay.getD o.delay
    endDelay := u.endDelay.getD o.endDelay
    duration := u.duration.getD o.duration
    iterations := u.iterations.getD o.iterations
    iterationStart := u.iterationStart.getD o.iterationStart
    direction := u.direction.getD o.direction
    fill := u.fill.getD o.fill
    easing := u.easing.getD o.easing }

end TimingUpdate

/-- The parameters with a change laid over them. -/
def TimingParams.merge (p : TimingParams) (u : TimingUpdate) : Except Failure TimingParams :=
  TimingParams.ofOptions (u.apply p.options)

end EffectTiming
