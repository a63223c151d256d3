import EffectTiming.Failure

/-!
# Invariants

The conditions that the engine relies on. One that does not hold breaks the operation off.
-/

namespace EffectTiming

/-- A condition that did not hold. -/
inductive Broken where
  | timelineDuration
  | negativeDuration
  | negativeIterations
  | negativeStart
  | zeroIterationAtEnd
  | progressNotFinite
  deriving DecidableEq, Repr

namespace Broken

/-- The operation that relies on the condition. -/
def op : Broken → String
  | .timelineDuration => "animation.Normalize"
  | _ => "animation.ComputeTimingAt"

/-- The condition in words. -/
def text : Broken → String
  | .timelineDuration => "progress-based timeline duration must be positive and finite"
  | .negativeDuration => "iteration duration must be non-negative"
  | .negativeIterations => "iterations must be non-negative"
  | .negativeStart => "iteration start must be non-negative"
  | .zeroIterationAtEnd =>
    "current iteration must be non-zero at the end of a non-empty active interval"
  | .progressNotFinite => "progress must be finite"

/-- The failure that a broken condition leads to. -/
def failure (b : Broken) : Failure := .invariant b.op b.text

end Broken

/-- Goes on only if the condition holds. -/
def require (condition : Bool) (broken : Broken) : Except Broken Unit :=
  if condition then .ok () else .error broken

end EffectTiming
