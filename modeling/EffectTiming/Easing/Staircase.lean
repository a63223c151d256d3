import EffectTiming.Binary64.Parts
import EffectTiming.Keyword
import EffectTiming.Word

/-!
# Staircases

A step function divides the unit interval into equally long intervals and stays constant on each.
Its position says at which ends of the intervals it jumps.
-/

namespace EffectTiming

/-- Where a step function jumps. `start` and `finish` are the short words for `jumpStart` and
`jumpEnd`. -/
inductive StepPosition where
  | jumpEnd | jumpStart | jumpNone | jumpBoth | start | finish
  deriving DecidableEq, Repr

instance : Keyword StepPosition where
  all := [.jumpEnd, .jumpStart, .jumpNone, .jumpBoth, .start, .finish]
  word
    | .jumpEnd => "jump-end"
    | .jumpStart => "jump-start"
    | .jumpNone => "jump-none"
    | .jumpBoth => "jump-both"
    | .start => "start"
    | .finish => "end"
  title := "StepPosition"

/-- A step function: the number of intervals, within sixty-four bits, and where it jumps. -/
structure Staircase where
  count : Int
  position : Coded StepPosition
  least_le : -9223372036854775808 ≤ count := by decide
  le_greatest : count ≤ 9223372036854775807 := by decide
  deriving DecidableEq, Repr

namespace Staircase

/-- The step function with `n` intervals, counted within sixty-four bits. -/
def ofCount (n : Int) (position : Coded StepPosition) : Staircase where
  count := Word.signed n
  position
  least_le := Word.neg_half_le_signed n
  le_greatest := Word.signed_le n

/-- How often the function jumps, within sixty-four bits. -/
def jumps (s : Staircase) : Float :=
  match s.position with
  | .known .jumpBoth => Float.ofInt (Word.signed (s.count + 1))
  | .known .jumpNone => Float.ofInt (Word.signed (s.count - 1))
  | _ => Float.ofInt s.count

/-- The function jumps at the start of each interval. -/
def jumpsFirst (s : Staircase) : Bool :=
  match s.position with
  | .known .jumpStart | .known .start | .known .jumpBoth => true
  | _ => false

/-- The height at `x`. With `before` set, a sample exactly on a jump lies below it. -/
def eval (s : Staircase) (x : Float) (before : Bool) : Float :=
  let scaled := x * Float.ofInt s.count
  let step := Binary64.floor scaled
  let step := if s.jumpsFirst then step + 1 else step
  let step := if before && Binary64.fraction scaled == 0 then step - 1 else step
  let step := if x ≥ 0 && step < 0 then 0 else step
  let step := if x ≤ 1 && step > s.jumps then s.jumps else step
  step / s.jumps

/-- The written form of a step function. A jump at the end is what an absent position means. -/
def text (s : Staircase) : String :=
  match s.position with
  | .known .jumpEnd | .known .finish => "steps(" ++ toString s.count ++ ")"
  | p => "steps(" ++ toString s.count ++ ", " ++ p.text ++ ")"

end Staircase

end EffectTiming
