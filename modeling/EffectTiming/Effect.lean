import EffectTiming.Owner
import EffectTiming.Timing.Normalize
import EffectTiming.Timing.Summary

/-!
# Effects

An effect holds its specified timing and, once it has been asked for, the timing in the unit of its
owner's timeline. What was derived is dropped whenever the specified timing or the owner is
replaced, and on demand; a change of the timeline alone is not noticed.

Owners are named by values of any type; `view` tells what an owner looks like at the moment.
-/

namespace EffectTiming

/-- A normalized timing as it is kept. -/
inductive Derived where
  /-- The specified timing, as it was when the timing was derived. -/
  | asSpecified (timing : Option TimingParams)
  /-- The times are in the unit of a progress-based timeline. -/
  | rescaled (timing : TimingParams)

/-- The normalized timing. -/
def Derived.timing : Derived → Option TimingParams
  | .asSpecified timing => timing
  | .rescaled p => some p

/-- Why an effect gives no answer. -/
inductive EffectFault where
  /-- The effect has no timing. -/
  | noTiming
  /-- The engine relies on a condition that does not hold. -/
  | broken (cause : Broken)

/-- The wording of a missing answer. -/
def EffectFault.message : EffectFault → String
  | .noTiming => "runtime error: invalid memory address or nil pointer dereference"
  | .broken cause => cause.failure.message

/-- The specified timing was replaced by a different one. -/
structure TimingChange where
  old : Option TimingParams
  new : Option TimingParams

/-- An effect whose owner is named by a value of type `ω`. -/
structure Effect (ω : Type) where
  specified : Option TimingParams
  derived : Option Derived := none
  owner : Option ω := none
  /-- The numbers of those who want to know of changes, the earliest first. -/
  listeners : List Nat := []
  /-- The number of the next listener. -/
  nextListener : Nat := 0

namespace Effect

variable {ω : Type}

/-! ### Changes -/

/-- Replaces the specified timing if it differs. -/
def setTiming (e : Effect ω) (timing : Option TimingParams) : Effect ω × Option TimingChange :=
  if sameTiming e.specified timing then (e, none)
  else ({ e with specified := timing, derived := none }, some ⟨e.specified, timing⟩)

/-- What the listeners hear of a change, each of them once. -/
def notices (e : Effect ω) : Option TimingChange → List (Nat × TimingChange)
  | none => []
  | some change => e.listeners.map fun listener => (listener, change)

/-- Replaces or removes the owner. -/
def setOwner (e : Effect ω) (owner : Option ω) : Effect ω := { e with owner, derived := none }

/-- Drops what was derived, because the timeline may have changed. -/
def invalidate (e : Effect ω) : Effect ω := { e with derived := none }

/-- Adds a listener and gives its number. -/
def listen (e : Effect ω) : Effect ω × Nat :=
  ({ e with listeners := e.listeners ++ [e.nextListener], nextListener := e.nextListener + 1 },
    e.nextListener)

/-- Removes a listener. -/
def unlisten (e : Effect ω) (listener : Nat) : Effect ω :=
  { e with listeners := e.listeners.filter (· != listener) }

/-! ### Normalized timing -/

/-- Derives the normalized timing for a timeline that may be progress-based. -/
def derive (specified : Option TimingParams) : Option Span → Except EffectFault Derived
  | none => .ok (.asSpecified specified)
  | some timeline =>
    match specified with
    | some p => (p.normalize timeline).map Derived.rescaled |>.mapError .broken
    | none =>
      if isTimelineDuration timeline then .error .noTiming else .error (.broken .timelineDuration)

/-- The owner as it looks at the moment. -/
def ownerView (view : ω → Owner) (e : Effect ω) : Option Owner := e.owner.map view

/-- The timeline of the owner, if it is progress-based. -/
def timeline? (view : ω → Owner) (e : Effect ω) : Option Span :=
  (e.ownerView view).bind Owner.progressTimeline?

/-- Derives the normalized timing unless it is there already. A failure leaves the effect as it
was. -/
def refresh (view : ω → Owner) (e : Effect ω) : Effect ω × Except EffectFault Derived :=
  match e.derived with
  | some d => (e, .ok d)
  | none =>
    match derive e.specified (e.timeline? view) with
    | .ok d => ({ e with derived := some d }, .ok d)
    | .error f => (e, .error f)

/-- The timing in the unit of the owner's timeline. -/
def normalized (view : ω → Owner) (e : Effect ω) :
    Effect ω × Except EffectFault (Option TimingParams) :=
  let (e, d) := e.refresh view
  (e, d.map Derived.timing)

/-! ### Samples -/

/-- The current time of the owner. -/
def localTime (view : ω → Owner) (e : Effect ω) : LocalTime :=
  (e.ownerView view).elim .unresolved Owner.time

/-- How the effect is sampled; without an owner it plays forwards. -/
def sampleOptions (view : ω → Owner) (e : Effect ω) (endpoint : Coded Endpoint) : SampleOptions :=
  match e.ownerView view with
  | some o => o.sampleOptions endpoint
  | none => { rate := 1, endpoint }

/-- Samples a timing at the current time of the owner. -/
def sample (view : ω → Owner) (e : Effect ω) (timing : Option TimingParams)
    (endpoint : Coded Endpoint) : Except EffectFault ComputedTiming :=
  match timing with
  | none => .error .noTiming
  | some p => (p.compute (e.localTime view) (e.sampleOptions view endpoint)).mapError .broken

/-- Samples the effect at the current time of the owner. -/
def computed (view : ω → Owner) (e : Effect ω) (endpoint : Coded Endpoint) :
    Effect ω × Except EffectFault ComputedTiming :=
  let (e, timing) := e.normalized view
  (e, timing.bind fun p => e.sample view p endpoint)

/-- The effect applies at the moment. -/
def isInEffect (view : ω → Owner) (e : Effect ω) : Effect ω × Except EffectFault Bool :=
  let (e, c) := e.computed view (.known .inclusive)
  (e, c.map ComputedTiming.inEffect)

/-- An effect in this phase is active, or will be if playback goes on in this direction. -/
def isCurrentIn (rate : Float) : Phase → Bool
  | .active => true
  | .before => rate > 0
  | .after => rate < 0
  | .idle => false

/-- The effect is active or will become active. -/
def isCurrent (view : ω → Owner) (e : Effect ω) : Effect ω × Except EffectFault Bool :=
  let (e, timing) := e.normalized view
  (e, timing.bind fun p =>
    match e.ownerView view with
    | none => .ok false
    | some o =>
      if o.finished then .ok false
      else (e.sample view p (.known .inclusive)).map fun c => isCurrentIn o.rate c.phase)

/-- The specified timing in milliseconds. -/
def timingSummary (e : Effect ω) : Except EffectFault TimingSummary :=
  match e.specified with
  | some p => .ok p.summary
  | none => .error .noTiming

/-- A sample of the specified timing, in milliseconds. -/
def sampleSummary (view : ω → Owner) (e : Effect ω) : Except EffectFault SampleSummary :=
  match e.specified with
  | none => .error .noTiming
  | some p =>
    (e.sample view (some p) (.known .inclusive)).map fun c => c.summary p (e.localTime view)

end Effect

end EffectTiming
