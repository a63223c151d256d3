import EffectTiming.Binary64.Parts
import EffectTiming.Word

/-!
# Reading numbers

A numeral is decimal (`-1.5e3`), hexadecimal with a binary exponent (`0x1.8p4`), or one of the words
`inf`, `infinity` and `nan` in any case. Digits may be grouped by single underscores. A numeral is
read as the nearest binary64 number; one that lies beyond the greatest finite number is refused.
-/

namespace EffectTiming.Binary64

/-- The value of a decimal digit. -/
def digitValue (c : Char) : Nat := c.toNat - '0'.toNat

/-- The value of a digit in base sixteen, in either case. -/
def hexValue? (c : Char) : Option Nat :=
  if c.isDigit then some (digitValue c)
  else if 'a' ≤ c ∧ c ≤ 'f' then some (c.toNat - 'a'.toNat + 10)
  else if 'A' ≤ c ∧ c ≤ 'F' then some (c.toNat - 'A'.toNat + 10)
  else none

/-- The value of a row of decimal digits. -/
def digitsValue (cs : List Char) : Nat := cs.foldl (fun n c => 10 * n + digitValue c) 0

/-- The value of a row of digits in base sixteen; other characters do not count. -/
def hexDigitsValue (cs : List Char) : Nat :=
  cs.foldl (fun n c => match hexValue? c with | some v => 16 * n + v | none => n) 0

/-- The number nearest to `m · 10 ^ e`. -/
def ofDecimal (m : Nat) (e : Int) : Float :=
  if m = 0 then 0.0
  else
    let top := (toString m).length + e
    if top < -400 then 0.0
    else if 400 < top then infinity
    else if 0 ≤ e then Float.ofScientific m false e.toNat
    else Float.ofScientific m true (-e).toNat

/-- The number nearest to `m · 2 ^ e`. A negative power of two is a power of five over a power of
ten. -/
def ofBinary (m : Nat) (e : Int) : Float :=
  if m = 0 then 0.0
  else
    let top := m.log2 + e
    if top < -1200 then 0.0
    else if 1200 < top then infinity
    else if 0 ≤ e then Float.ofScientific (m * Nat.pow 2 e.toNat) false 0
    else Float.ofScientific (m * Nat.pow 5 (-e).toNat) true (-e).toNat

/-- Underscores stand between digits only, where the base mark counts as a digit. `before` says
whether the character before was a digit, an underscore or something else. -/
inductive Neighbour where
  | digit | underscore | other
  deriving DecidableEq

/-- Every underscore has a digit on both sides. -/
def groupsWell (isDigit : Char → Bool) : Neighbour → List Char → Bool
  | before, [] => before != .underscore
  | before, c :: cs =>
    if isDigit c then groupsWell isDigit .digit cs
    else if c = '_' then before == .digit && groupsWell isDigit .underscore cs
    else before != .underscore && groupsWell isDigit .other cs

/-- Splits off a leading sign; `true` means minus. -/
def takeSign : List Char → Bool × List Char
  | '-' :: cs => (true, cs)
  | '+' :: cs => (false, cs)
  | cs => (false, cs)

/-- The digits (and underscores) before and after the point, and what follows them. -/
structure Mantissa where
  whole : List Char
  places : List Char
  rest : List Char

/-- Reads `digits[.digits]`. -/
def takeMantissa (isDigit : Char → Bool) (cs : List Char) : Mantissa :=
  let member (c : Char) : Bool := isDigit c || c == '_'
  let whole := cs.takeWhile member
  match cs.dropWhile member with
  | '.' :: more => ⟨whole, more.takeWhile member, more.dropWhile member⟩
  | rest => ⟨whole, [], rest⟩

/-- The value of the digits of an exponent. Past ten thousand no further digit counts: the number is
out of every range then. -/
def exponentValue (cs : List Char) : Nat :=
  cs.foldl (fun n c => if n < 10000 then 10 * n + digitValue c else n) 0

/-- Reads an exponent after its mark: a sign and at least one digit, up to the end. -/
def readExponent (cs : List Char) : Option Int :=
  let (negative, body) := takeSign cs
  match body with
  | [] => none
  | c :: _ =>
    if c.isDigit && body.all (fun c => c.isDigit || c == '_') then
      let n := exponentValue (body.filter Char.isDigit)
      some (if negative then -(n : Int) else n)
    else none

/-- Refuses an infinite result. -/
def finite? (x : Float) : Option Float := if x.isInf then none else some x

/-- Reads the digits of a decimal numeral. -/
def readDecimal (negative : Bool) (body : List Char) : Option Float :=
  let t := takeMantissa Char.isDigit body
  let whole := t.whole.filter Char.isDigit
  let places := t.places.filter Char.isDigit
  if whole.isEmpty && places.isEmpty then none
  else
    let exponent? : Option Int :=
      match t.rest with
      | [] => some 0
      | c :: cs => if c = 'e' ∨ c = 'E' then readExponent cs else none
    match exponent? with
    | none => none
    | some x =>
      if groupsWell Char.isDigit .other body then
        (finite? (ofDecimal (digitsValue (whole ++ places)) (x - places.length))).map
          (withSign negative)
      else none

/-- Reads what follows the mark `0x` of a hexadecimal numeral; the binary exponent is required. -/
def readHex (negative : Bool) (body : List Char) : Option Float :=
  let isHex (c : Char) : Bool := (hexValue? c).isSome
  let t := takeMantissa isHex body
  let whole := t.whole.filter isHex
  let places := t.places.filter isHex
  if whole.isEmpty && places.isEmpty then none
  else
    match t.rest with
    | c :: cs =>
      if c = 'p' ∨ c = 'P' then
        match readExponent cs with
        | none => none
        | some x =>
          if groupsWell isHex .digit body then
            (finite? (ofBinary (hexDigitsValue (whole ++ places)) (x - 4 * places.length))).map
              (withSign negative)
          else none
      else none
    | [] => none

/-- The numeral of a binary64 number. -/
def ofText? (s : String) : Option Float :=
  let cs := s.toList
  let (negative, body) := takeSign cs
  let word := String.ofList (body.map Char.toLower)
  if word = "inf" ∨ word = "infinity" then some (withSign negative infinity)
  else if s.toLower = "nan" then some notANumber
  else
    match body with
    | '0' :: 'x' :: rest@(_ :: _) => readHex negative rest
    | '0' :: 'X' :: rest@(_ :: _) => readHex negative rest
    | _ => readDecimal negative body

/-- Reads a whole number in base ten with an optional sign, within the sixty-four bit range. -/
def wholeNumber? (s : String) : Option Int :=
  let (negative, body) := takeSign s.toList
  if body.isEmpty || !body.all Char.isDigit then none
  else
    let n : Int := digitsValue body
    let v := if negative then -n else n
    if -Word.half ≤ v ∧ v < Word.half then some v else none

end EffectTiming.Binary64
