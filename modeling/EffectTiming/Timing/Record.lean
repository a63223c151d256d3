import EffectTiming.Timing.Normalize

/-!
# Timing records

A record holds timing parameters together with two times that follow from them and are kept beside
them: the active duration and the end time. Whoever changes a record has to bring them up to date
with `TimingRecord.update`. A duration that is left out is a flag beside a duration of zero, and a
linear easing is not kept at all.

The record of given parameters is `TimingParams.record`. Making, merging and scaling records agrees
with making, merging and scaling parameters.
-/

namespace EffectTiming

/-- Timing parameters with what was derived from them. -/
structure TimingRecord where
  delay : Span
  endDelay : Span
  duration : Span
  /-- Not set for an `auto` duration. -/
  hasDuration : Bool
  iterations : Float
  iterationStart : Float
  direction : Coded Direction
  fill : Coded FillMode
  /-- None stands for the linear easing. -/
  easing : Option Easing
  activeDuration : Span := .zero
  endTime : Span := .zero

namespace TimingRecord

/-- The duration of all iterations together. -/
def allIterations (duration : Span) (hasDuration : Bool) (iterations : Float) : Span :=
  if !hasDuration || duration = .zero || iterations == 0 then .zero else duration.scale iterations

/-- Brings the derived times up to date. -/
def update (r : TimingRecord) : TimingRecord :=
  let active := allIterations r.duration r.hasDuration r.iterations
  { r with activeDuration := active, endTime := ((r.delay.add active).add r.endDelay).max .zero }

/-- Checks the fields of options in their order and makes a record of them. -/
def validate (o : TimingOptions) : Except TimingFault TimingRecord := do
  checkDuration o.duration
  checkIterations o.iterations
  checkStart o.iterationStart
  if !o.direction.isKnown then throw .unknownDirection
  if !o.fill.isKnown then throw .unknownFill
  if let some f := o.easing.fault? then throw (.easing f)
  let r : TimingRecord :=
    { delay := o.delay, endDelay := o.endDelay
      duration := o.duration.getD .zero, hasDuration := o.duration.isSome
      iterations := o.iterations, iterationStart := o.iterationStart
      direction := o.direction, fill := o.fill
      easing := if o.easing.isLinear then none else some o.easing }
  return r.update

/-- The record of specified timing. -/
def ofOptions (o : TimingOptions) : Except Failure TimingRecord :=
  (validate o).mapError TimingFault.failure

/-- The record as specified timing, for building a changed copy. -/
def options (r : TimingRecord) : TimingOptions :=
  { delay := r.delay, endDelay := r.endDelay
    duration := if r.hasDuration then some r.duration else none
    iterations := r.iterations, iterationStart := r.iterationStart
    direction := r.direction, fill := r.fill, easing := r.easing.getD .linear }

/-- The record with a change laid over it. -/
def merge (r : TimingRecord) (u : TimingUpdate) : Except Failure TimingRecord :=
  ofOptions (u.apply r.options)

/-- How much longer the timeline is than the effect; zero if the effect is empty or without end. -/
def timelineScale (r : TimingRecord) (timeline : Span) : Float :=
  if Span.zero < r.endTime && !r.endTime.isForever then timeline.ratio r.endTime else 0

/-- The record expressed in the duration of a timeline, if that is progress-based. -/
def normalize (r : TimingRecord) (timeline : Span) (progressBased : Bool) :
    Except Broken TimingRecord := do
  if !progressBased then return r
  require (isTimelineDuration timeline) .timelineDuration
  let n := { r with hasDuration := true }
  if !r.hasDuration then
    let n := { n with delay := .zero, endDelay := .zero, duration := .zero }
    if r.iterations > 0 && !r.iterations.isInf then
      return { n with duration := timeline.scale (1 / r.iterations) }.update
    return n.update
  let factor := r.timelineScale timeline
  return { n with
    delay := r.delay.scale factor
    endDelay := r.endDelay.scale factor
    duration := r.duration.scale factor }.update

/-- Where the active interval starts, kept between zero and the end time. -/
def beforeActive (r : TimingRecord) : Span := (r.delay.min r.endTime).max .zero

/-- Where the active interval ends, kept between zero and the end time. -/
def activeAfter (r : TimingRecord) : Span :=
  ((r.delay.add r.activeDuration).min r.endTime).max .zero

/-- Two easings, of which either may be left out, count as the same if they are written the same. -/
def sameEasing (a b : Option Easing) : Bool := (a.getD .linear).same (b.getD .linear)

/-- Both records specify the same timing. -/
def same (r q : TimingRecord) : Bool :=
  r.delay == q.delay && r.endDelay == q.endDelay && r.hasDuration == q.hasDuration &&
    r.duration == q.duration && r.iterations == q.iterations &&
    r.iterationStart == q.iterationStart && r.direction == q.direction && r.fill == q.fill &&
    sameEasing r.easing q.easing

end TimingRecord

/-- The record of timing parameters. -/
def TimingParams.record (p : TimingParams) : TimingRecord where
  delay := p.delay
  endDelay := p.endDelay
  duration := p.iterationDuration
  hasDuration := p.duration.isSome
  iterations := p.iterations
  iterationStart := p.iterationStart
  direction := .known p.direction
  fill := .known p.fill
  easing := if p.easing.isLinear then none else some p.easing
  activeDuration := p.activeDuration
  endTime := p.endTime

end EffectTiming
