import EffectTiming.Text.Blank
import EffectTiming.Text.Case

/-!
# Keywords

A keyword type is a finite list of values with a word for each. Values also have numbers, their
positions in the list; a number from outside may have no value, which `Coded` keeps apart.
-/

namespace EffectTiming

/-- A type whose values are written as words. -/
class Keyword (α : Type) where
  /-- The values in the order of their numbers. -/
  all : List α
  word : α → String
  /-- The name under which a number without a value is shown. -/
  title : String

/-- A value given by number: a keyword, or a number that stands for none. -/
inductive Coded (α : Type) where
  | known (value : α)
  | unknown (code : Int)
  deriving DecidableEq, Repr

namespace Coded

variable {α : Type} [Keyword α]

/-- The value with a number. -/
def ofCode (n : Int) : Coded α :=
  if 0 ≤ n then
    match (Keyword.all : List α)[n.toNat]? with
    | some a => .known a
    | none => .unknown n
  else .unknown n

/-- The number has a value. -/
def isKnown {α : Type} : Coded α → Bool
  | .known _ => true
  | .unknown _ => false

/-- The word of a value, or its number in the form `Title(7)`. -/
def text : Coded α → String
  | .known a => Keyword.word a
  | .unknown n => Keyword.title α ++ "(" ++ toString n ++ ")"

end Coded

/-- The value with the given word, in any case and between any blanks. -/
def Keyword.read? (α : Type) [Keyword α] (s : String) : Option α :=
  let key := Text.lower (Text.trim s)
  (Keyword.all : List α).find? (fun a => Keyword.word a == key)

/-- The position of a value in the list of all values. -/
def Keyword.code {α : Type} [Keyword α] [BEq α] (a : α) : Nat := (Keyword.all : List α).idxOf a

end EffectTiming
