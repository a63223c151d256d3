import EffectTiming.Owner
import EffectTiming.Stage.Clock

/-!
# Players

A player is an animation whose current time follows a clock. It starts idle, without a current time.
-/

namespace EffectTiming

/-- An animation that follows a clock. -/
structure Player where
  /-- There is a current time. -/
  resolved : Bool := false
  playing : Bool := false
  /-- The current time at `since`. -/
  hold : Span := .zero
  since : Instant := Instant.start
  rate : Float := 1
  timeline : Span := .zero
  boundary : Bool := false
  finished : Bool := false

namespace Player

/-- The time that the player shows. -/
def position (p : Player) (now : Instant) : Span :=
  if p.playing then
    Span.wrap (p.hold.ns + (Span.ofFloat ((now.since p.since).toFloat * p.rate)).ns)
  else p.hold

/-- The current time. -/
def currentTime (p : Player) (now : Instant) : LocalTime :=
  if p.resolved then .resolved (p.position now) else .unresolved

/-- Counts from now on. -/
def rebase (p : Player) (now : Instant) : Player := { p with hold := p.position now, since := now }

/-- Starts or resumes playing. -/
def play (p : Player) (now : Instant) : Player :=
  if p.playing then p else { p with resolved := true, playing := true, since := now }

/-- Holds the current time. -/
def pause (p : Player) (now : Instant) : Player := { p.rebase now with playing := false }

/-- Moves to a time. -/
def seek (p : Player) (now : Instant) (time : Span) : Player :=
  { p with resolved := true, hold := time, since := now }

/-- Gives up the current time. -/
def cancel (p : Player) : Player := { p with resolved := false, playing := false, hold := .zero }

/-- Changes the rate without a jump of the current time. -/
def setRate (p : Player) (now : Instant) (rate : Float) : Player := { p.rebase now with rate }

/-- The player as an owner of effects. -/
def owner (p : Player) (now : Instant) : Owner :=
  { time := p.currentTime now, rate := p.rate, boundary := p.boundary, timeline := p.timeline
    finished := p.finished }

end Player

end EffectTiming
