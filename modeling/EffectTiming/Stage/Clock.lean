import EffectTiming.Time.Span

/-!
# Instants

Instants count seconds from the start of the year one, in sixty-four bits, and nanoseconds within
the second. A clock that is set by hand shows one of them.
-/

namespace EffectTiming

/-- A moment of a clock. -/
structure Instant where
  seconds : Int
  nanos : Nat
  deriving DecidableEq, Repr

namespace Instant

/-- The nanoseconds of a second. -/
abbrev perSecond : Int := 1000000000

/-- The first second of the year 1970. -/
def unixEpoch : Int := 62135596800

/-- The moment with the given number of nanoseconds from the start of the year one. -/
def ofNanos (n : Int) : Instant := ⟨n / perSecond, (n % perSecond).toNat⟩

/-- The nanoseconds since the start of the year one. -/
def toNanos (i : Instant) : Int := i.seconds * perSecond + i.nanos

/-- The moment some seconds and nanoseconds after the start of the year 1970. -/
def ofUnix (seconds nanos : Int) : Instant :=
  ⟨Word.signed (seconds + nanos / perSecond + unixEpoch), (nanos % perSecond).toNat⟩

/-- The whole seconds since the start of the year 1970. -/
def unixSeconds (i : Instant) : Int := Word.signed (i.seconds - unixEpoch)

/-- A later moment, or an earlier one. Seconds stop at the ends of their range. -/
def add (i : Instant) (d : Span) : Instant :=
  let moved := ofNanos (i.toNanos + d.ns)
  if Span.greatest < moved.seconds then ⟨Span.greatest, moved.nanos⟩
  else if moved.seconds < Span.least then ⟨-Span.greatest, moved.nanos⟩
  else moved

/-- The time from one moment to another, as far as a span reaches. -/
def since (i start : Instant) : Span := Span.clamp (i.toNanos - start.toNanos)

/-- The moment that a clock shows at first: the start of the year 2024. -/
def start : Instant := ofUnix 1704067200 0

end Instant

end EffectTiming
