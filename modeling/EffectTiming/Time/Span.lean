import EffectTiming.Binary64.Parts
import EffectTiming.Word

/-!
# Spans of time

A span is a signed count of nanoseconds that fits into sixty-four bits. Its arithmetic is exact
until it leaves that range; from there on it stays at one of the two extremes, which stand for
"without end". `Span.add` adds two words and tells from the sign of the result whether the exact sum
left the range; `Span.sub` adds the negated span.
-/

namespace EffectTiming

/-- The least count of nanoseconds of a span. -/
abbrev Span.least : Int := -9223372036854775808

/-- The greatest count of nanoseconds of a span. -/
abbrev Span.greatest : Int := 9223372036854775807

/-- A signed span of time in nanoseconds. -/
@[ext]
structure Span where
  ns : Int
  least_le : Span.least ≤ ns := by decide
  le_greatest : ns ≤ Span.greatest := by decide

namespace Span

instance : DecidableEq Span := fun a b =>
  if h : a.ns = b.ns then isTrue (Span.ext h) else isFalse (fun e => h (congrArg Span.ns e))

instance : LE Span := ⟨fun a b => a.ns ≤ b.ns⟩

instance : LT Span := ⟨fun a b => a.ns < b.ns⟩

instance (a b : Span) : Decidable (a ≤ b) := inferInstanceAs (Decidable (a.ns ≤ b.ns))

instance (a b : Span) : Decidable (a < b) := inferInstanceAs (Decidable (a.ns < b.ns))

/-- No time at all. -/
def zero : Span := ⟨0, by decide, by decide⟩

instance : Inhabited Span := ⟨zero⟩

/-- The span without end. -/
def forever : Span := ⟨greatest, by decide, by decide⟩

/-- The span without beginning. -/
def negForever : Span := ⟨least, by decide, by decide⟩

/-- The span is at one of the two extremes. -/
def isForever (d : Span) : Bool := d == forever || d == negForever

/-- The nearest span to an exact count. -/
def clamp (n : Int) : Span :=
  if h : n < least then negForever
  else if h' : greatest < n then forever
  else ⟨n, Int.not_lt.mp h, Int.not_lt.mp h'⟩

/-- The span that agrees with an exact count modulo `2 ^ 64`. -/
def wrap (n : Int) : Span := ⟨Word.signed n, Word.neg_half_le_signed n, Word.signed_le n⟩

/-- The sum. A span without end wins over one without beginning. -/
def add (d o : Span) : Span :=
  if d = forever ∨ o = forever then forever
  else if d = negForever ∨ o = negForever then negForever
  else
    let sum := wrap (d.ns + o.ns)
    -- a word that overflowed does not have the sign of its two summands
    if zero < d ∧ zero < o ∧ sum < zero then forever
    else if d < zero ∧ o < zero ∧ zero ≤ sum then negForever
    else sum

/-- The negated span; the two extremes change places. -/
def neg (d : Span) : Span :=
  if d = forever then negForever
  else if d = negForever then forever
  else wrap (-d.ns)

/-- The difference. -/
def sub (d o : Span) : Span := d.add o.neg

/-- The later of two spans. -/
def max (a b : Span) : Span := if a.ns < b.ns then b else a

/-- The earlier of two spans. -/
def min (a b : Span) : Span := if b.ns < a.ns then b else a

/-- The count as a binary64 number, rounded to the nearest. -/
def toFloat (d : Span) : Float := Float.ofInt d.ns

/-- The whole part of a number as a span. A number beyond the range, and no number at all, give the
least span. -/
def ofFloat (x : Float) : Span :=
  if x ≥ 9223372036854775808 || x < -9223372036854775808 || x.isNaN then negForever
  else clamp (Binary64.truncate x)

/-- Scales a span and drops the fraction of a nanosecond. No time stays no time, and nothing is left
of a span that is scaled by zero or by no number. -/
def scale (d : Span) (f : Float) : Span :=
  if d = zero || f == 0 || f.isNaN then zero
  else if d.isForever then
    if decide (d = forever) == decide (0 < f) then forever else negForever
  else
    let r := d.toFloat * f
    if r ≥ 9223372036854775808 then forever
    else if r ≤ -9223372036854775808 then negForever
    else clamp (Binary64.truncate r)

/-- The ratio of two spans. A numerator without end gives an infinity, a denominator without end
zero. -/
def ratio (d o : Span) : Float :=
  if d.isForever then
    if decide (d = forever) == decide (zero < o) then Binary64.infinity else -Binary64.infinity
  else if o.isForever then 0
  else d.toFloat / o.toFloat

/-- The span in milliseconds, infinite at the extremes. -/
def milliseconds (d : Span) : Float :=
  if d = forever then Binary64.infinity
  else if d = negForever then -Binary64.infinity
  else d.toFloat / 1000000

end Span

end EffectTiming
