import EffectTiming.Timing.Computed

/-!
# Tweens

A tween maps eased progress to a value between two others. Progress may leave the unit interval, and
the value then lies beyond its ends.
-/

namespace EffectTiming

/-- Two values and what lies between them. -/
structure Tween (α : Type) where
  first : α
  last : α
  /-- The value at a progress between two others. Without it the tween shows its last value. -/
  between : Option (α → α → Float → α)

namespace Tween

variable {α : Type}

/-- The value at a progress. -/
def eval (w : Tween α) (t : Float) : α :=
  match w.between with
  | none => w.last
  | some f => f w.first w.last t

/-- The value of a sample, if the effect applies there. -/
def transform (w : Tween α) (c : ComputedTiming) : Option α := c.progress.map w.eval

/-- A number between two others. -/
def betweenFloats (a b t : Float) : Float := a + (b - a) * t

/-- A span between two others, to the nearest nanosecond. The difference and the sum are taken
within sixty-four bits. -/
def betweenSpans (a b : Span) (t : Float) : Span :=
  let way := (Span.wrap (b.ns - a.ns)).toFloat * t
  Span.wrap (a.ns + (Span.ofFloat (Binary64.round way)).ns)

/-- A tween of numbers. -/
def ofFloats (a b : Float) : Tween Float := ⟨a, b, some betweenFloats⟩

/-- A tween of spans. -/
def ofSpans (a b : Span) : Tween Span := ⟨a, b, some betweenSpans⟩

end Tween

end EffectTiming
