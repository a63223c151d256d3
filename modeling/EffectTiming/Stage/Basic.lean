import EffectTiming.Stage.Player
import EffectTiming.Trace.Basic
import EffectTiming.Tween

/-!
# Stages

A stage is a clock, a player that follows it, an effect that may be attached to the player, and a
trace of what the effect showed. `Stage.step` does one thing on the stage; what was done before a
failure stays.
-/

namespace EffectTiming

/-- What an effect on a stage can belong to. -/
inductive Attachment where
  /-- An animation that stands still. -/
  | fixed (owner : Owner)
  /-- The player of the stage. -/
  | player

/-- A clock, a player, an effect and a trace. -/
structure Stage where
  now : Instant := Instant.start
  player : Player := {}
  effect : Effect Attachment
  trace : Trace := { name := "effect" }

/-- What can be done on a stage. -/
inductive Action where
  | setTiming (timing : Option TimingParams)
  | update (change : TimingUpdate)
  | setOwner (owner : Option Owner)
  | attach
  | invalidate
  | listen
  | unlisten (listener : Nat)
  | advance (d : Span)
  | setClock (time : Instant)
  | play
  | pause
  | seek (d : Span)
  | cancel
  | setRate (rate : Float)
  | setTimeline (d : Span)
  | setBoundary (on : Bool)
  | setFinished (on : Bool)
  | normalized
  | computed (endpoint : Coded Endpoint)
  | inEffect
  | current
  | dict
  | tween (w : Tween Float)
  | record

/-- What an action answers. -/
inductive Answer where
  | done
  | flag (b : Bool)
  | listener (number : Nat)
  | timing (p : Option TimingParams)
  | computed (c : ComputedTiming)
  | dict (s : SampleSummary)
  | value (x : Option Float)
  | trace (t : Trace)
  | rejected (f : Failure)
  | failed (f : EffectFault)

/-- An answer, and what the listeners of the effect heard meanwhile. -/
structure Outcome where
  answer : Answer := .done
  notices : List (Nat × TimingChange) := []

namespace Stage

/-- A stage with an effect that belongs to nothing yet. -/
def ofTiming (timing : Option TimingParams) : Stage := { effect := { specified := timing } }

/-- What an attachment looks like at the moment. -/
def view (s : Stage) : Attachment → Owner
  | .fixed o => o
  | .player => s.player.owner s.now

/-- The owner of the effect at the moment. -/
def owner (s : Stage) : Option Owner := s.effect.ownerView s.view

/-- The current time of the effect. -/
def localTime (s : Stage) : LocalTime := s.effect.localTime s.view

/-- The answer to a question that may fail. -/
def answerOf {α : Type} (f : α → Answer) : Except EffectFault α → Outcome
  | .ok a => ⟨f a, []⟩
  | .error e => ⟨.failed e, []⟩

/-- Asks the effect, which may derive its timing for the answer. -/
def ask {α : Type} (s : Stage) (f : α → Answer) (r : Effect Attachment × Except EffectFault α) :
    Stage × Outcome :=
  ({ s with effect := r.1 }, answerOf f r.2)

/-- Replaces the specified timing and tells the listeners. -/
def setTiming (s : Stage) (timing : Option TimingParams) : Stage × Outcome :=
  let (effect, change) := s.effect.setTiming timing
  ({ s with effect }, ⟨.flag change.isSome, effect.notices change⟩)

/-- Changes some fields of the specified timing. -/
def update (s : Stage) (change : TimingUpdate) : Stage × Outcome :=
  match s.effect.specified with
  | none => (s, ⟨.failed .noTiming, []⟩)
  | some p =>
    match p.merge change with
    | .ok q => s.setTiming (some q)
    | .error f => (s, ⟨.rejected f, []⟩)

/-- Changes the player only. -/
def withPlayer (s : Stage) (player : Player) : Stage × Outcome := ({ s with player }, {})

/-- Changes the effect only. -/
def withEffect (s : Stage) (effect : Effect Attachment) : Stage × Outcome := ({ s with effect }, {})

/-- Adds a sample of the effect to the trace. -/
def record (s : Stage) : Stage × Outcome :=
  let (effect, trace) := s.trace.record s.view s.effect
  match trace with
  | .ok trace => ({ s with effect, trace }, ⟨.trace trace, []⟩)
  | .error f => ({ s with effect }, ⟨.failed f, []⟩)

/-- Does one thing on the stage. -/
def step (s : Stage) : Action → Stage × Outcome
  | .setTiming timing => s.setTiming timing
  | .update change => s.update change
  | .setOwner owner => s.withEffect (s.effect.setOwner (owner.map .fixed))
  | .attach => s.withEffect (s.effect.setOwner (some .player))
  | .invalidate => s.withEffect s.effect.invalidate
  | .listen =>
    let (effect, number) := s.effect.listen
    ({ s with effect }, ⟨.listener number, []⟩)
  | .unlisten number => s.withEffect (s.effect.unlisten number)
  | .advance d => ({ s with now := s.now.add d }, {})
  | .setClock time => ({ s with now := time }, {})
  | .play => s.withPlayer (s.player.play s.now)
  | .pause => s.withPlayer (s.player.pause s.now)
  | .seek d => s.withPlayer (s.player.seek s.now d)
  | .cancel => s.withPlayer s.player.cancel
  | .setRate rate => s.withPlayer (s.player.setRate s.now rate)
  | .setTimeline d => s.withPlayer { s.player with timeline := d }
  | .setBoundary on => s.withPlayer { s.player with boundary := on }
  | .setFinished on => s.withPlayer { s.player with finished := on }
  | .normalized => s.ask .timing (s.effect.normalized s.view)
  | .computed endpoint => s.ask .computed (s.effect.computed s.view endpoint)
  | .inEffect => s.ask .flag (s.effect.isInEffect s.view)
  | .current => s.ask .flag (s.effect.isCurrent s.view)
  | .dict => (s, answerOf .dict (s.effect.sampleSummary s.view))
  | .tween w =>
    s.ask (fun c => .value (w.transform c)) (s.effect.computed s.view (.known .inclusive))
  | .record => s.record

/-- Does several things one after another. -/
def run (s : Stage) : List Action → Stage × List Outcome
  | [] => (s, [])
  | a :: as =>
    let (s, outcome) := s.step a
    let (s, outcomes) := s.run as
    (s, outcome :: outcomes)

end Stage

end EffectTiming
