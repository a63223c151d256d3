/-!
# Splitting text

A text is cut at every occurrence of a separator. There is always at least one part, and putting the
separators back between the parts gives the text. A text is a list of characters here, or of the
pieces of a raw text.
-/

namespace EffectTiming.Text

variable {α : Type} [DecidableEq α]

/-- The parts of a text between separators. -/
def split (separator : α) : List α → List (List α)
  | [] => [[]]
  | c :: cs =>
    if c = separator then [] :: split separator cs
    else
      match split separator cs with
      | [] => [[c]]
      | part :: parts => (c :: part) :: parts

/-- The parts with separators between them. -/
def join {α : Type} (separator : α) : List (List α) → List α
  | [] => []
  | [part] => part
  | part :: parts => part ++ separator :: join separator parts

/-- The lines of a text. -/
def lines (s : String) : List (List Char) := split '\n' s.toList

/-- What follows a given start of a text. -/
def dropStart? : List α → List α → Option (List α)
  | [], cs => some cs
  | _ :: _, [] => none
  | x :: xs, c :: cs => if x = c then dropStart? xs cs else none

/-- The text starts with the given one. -/
def startsWith (start cs : List α) : Bool := (dropStart? start cs).isSome

/-- What stands before a given end of a text. -/
def dropEnd? (ending cs : List α) : Option (List α) :=
  (dropStart? ending.reverse cs.reverse).map List.reverse

end EffectTiming.Text
