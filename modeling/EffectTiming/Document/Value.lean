import EffectTiming.Binary64.Numeral
import EffectTiming.Document.Fault
import EffectTiming.Document.Moment
import EffectTiming.Text.Raw
import EffectTiming.Word

/-!
# What scalars stand for

A plain scalar may stand for nothing, a truth value, a whole number, a real number or a moment in
time, and for itself if it looks like none of these. A tag can ask for one of them.
-/

namespace EffectTiming.Document

/-- What a scalar stands for. -/
inductive Value where
  | null
  | flag (b : Bool)
  | whole (n : Int)
  | real (x : Float)
  | moment (m : Moment)
  | text (s : RawText)

/-- The tag of a value. -/
def Value.tag : Value → String
  | .null => "!!null"
  | .flag _ => "!!bool"
  | .whole _ => "!!int"
  | .real _ => "!!float"
  | .moment _ => "!!timestamp"
  | .text _ => "!!str"

/-- The scalars that stand for a value word by word. -/
def valueOfWord? (s : String) : Option Value :=
  if s ∈ ["true", "True", "TRUE"] then some (.flag true)
  else if s ∈ ["false", "False", "FALSE"] then some (.flag false)
  else if s ∈ ["", "~", "null", "Null", "NULL"] then some .null
  else if s ∈ [".nan", ".NaN", ".NAN"] then some (.real Binary64.notANumber)
  else if s ∈ [".inf", ".Inf", ".INF", "+.inf", "+.Inf", "+.INF"]
    then some (.real Binary64.infinity)
  else if s ∈ ["-.inf", "-.Inf", "-.INF"] then some (.real (-Binary64.infinity))
  else none

/-- The words for yes and no. They are texts, but can be given where a truth value is wanted. -/
def flagOfWord? (s : String) : Option Bool :=
  if s ∈ ["y", "Y", "yes", "Yes", "YES", "on", "On", "ON"] then some true
  else if s ∈ ["n", "N", "no", "No", "NO", "off", "Off", "OFF"] then some false
  else none

/-! ### Whole numbers -/

/-- The value of digits in a base of at most sixteen. -/
def digitsInBase? (base : Nat) (cs : List Char) : Option Nat :=
  cs.foldl
    (fun n c =>
      match n, Binary64.hexValue? c with
      | some n, some d => if d < base then some (base * n + d) else none
      | _, _ => none)
    (some 0)

/-- The value of a whole number without a sign. Its base is told by its first two characters; a zero
in front of other digits means base eight. -/
def magnitude? : List Char → Option Nat
  | [] => none
  | '0' :: x :: d :: rest =>
    if x == 'b' || x == 'B' then digitsInBase? 2 (d :: rest)
    else if x == 'o' || x == 'O' then digitsInBase? 8 (d :: rest)
    else if x == 'x' || x == 'X' then digitsInBase? 16 (d :: rest)
    else digitsInBase? 8 (x :: d :: rest)
  | '0' :: rest => digitsInBase? 8 rest
  | cs => digitsInBase? 10 cs

/-- A signed number of 64 bits. -/
def signed? (negative : Bool) (m : Nat) : Option Int :=
  if negative then (if m ≤ Word.half then some (-m) else none)
  else if m < Word.half then some m
  else none

/-- A number in a base, with a sign of its own. -/
def signedInBase? (base : Nat) (cs : List Char) : Option Int :=
  let (negative, digits) := Binary64.takeSign cs
  if digits.isEmpty then none else (digitsInBase? base digits).bind (signed? negative)

/-- Reads a whole number of 64 bits; without a sign it may use all of them. A sign may also stand
behind the base. -/
def wholeNumber? (cs : List Char) : Option Int :=
  let (negative, digits) := Binary64.takeSign cs
  let bare := digits.length == cs.length
  let direct :=
    (magnitude? digits).bind fun m =>
      if bare && m < Word.count then some (m : Int) else signed? negative m
  match direct, cs with
  | some n, _ => some n
  | none, '0' :: 'b' :: rest => signedInBase? 2 rest
  | none, '0' :: 'o' :: rest => signedInBase? 8 rest
  | none, _ => none

/-! ### Real numbers -/

/-- Nothing, or an exponent: a letter, perhaps a sign, and digits. -/
def isExponentPart : List Char → Bool
  | [] => true
  | x :: rest =>
    let digits := (Binary64.takeSign rest).2
    (x == 'e' || x == 'E') && !digits.isEmpty && digits.all Char.isDigit

/-- The text has the form of a real number in base ten. -/
def isRealNumber (cs : List Char) : Bool :=
  let body := (Binary64.takeSign cs).2
  let whole := body.takeWhile Char.isDigit
  match body.dropWhile Char.isDigit with
  | '.' :: rest =>
    let places := rest.takeWhile Char.isDigit
    !(whole.isEmpty && places.isEmpty) && isExponentPart (rest.dropWhile Char.isDigit)
  | rest => !whole.isEmpty && isExponentPart rest

/-! ### Resolution -/

/-- What a plain scalar stands for. Moments are recognised only where they are wanted. Underscores
between the digits of a number do not count. -/
def plainValue (moments : Bool) (s : String) : Value :=
  match valueOfWord? s, s.toList with
  | some v, _ => v
  | none, [] => .null
  | none, c :: rest =>
    if c == '.' then ((Binary64.ofText? s).map Value.real).getD (.text s)
    else if c.isDigit || c == '+' || c == '-' then
      let digits := (c :: rest).filter (· != '_')
      match if moments then Moment.ofText? (c :: rest) else none, wholeNumber? digits with
      | some m, _ => .moment m
      | none, some n => .whole n
      | none, none =>
        if isRealNumber digits then
          ((Binary64.ofText? (String.ofList digits)).map Value.real).getD (.text s)
        else .text s
    else .text s

/-- The tags that ask for a value of a certain kind. -/
def kindTags : List String := ["", "!!str", "!!bool", "!!int", "!!float", "!!null", "!!timestamp"]

/-- What a scalar with a tag stands for. A whole number is good enough where a real number is asked
for; a tag that asks for no kind of value leaves the text alone. -/
def taggedValue (tag s : String) : Except Fault Value :=
  if tag = "!!str" || tag ∉ kindTags then .ok (.text s)
  else
    let v := plainValue (tag = "" || tag = "!!timestamp") s
    if tag = "" || tag = v.tag then .ok v
    else
      match tag, v with
      | "!!float", .whole n =>
        if n < Word.half then .ok (.real (Float.ofInt n)) else .error (.mistagged v.tag s tag)
      | _, _ => .error (.mistagged v.tag s tag)

end EffectTiming.Document
