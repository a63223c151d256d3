import EffectTiming.Binary64.Numeral

/-!
# Moments

A moment is a date, or a date and a time of day: `2001-12-14`, `2001-12-14 21:59:43.1` or
`2001-12-14T21:59:43.1+01:00`. Months, days, hours, minutes and seconds may have a single digit.
-/

namespace EffectTiming.Document

/-- The zone of a moment. -/
inductive Zone where
  | universal
  /-- The zone of the program, which is no hour away from the universal one. -/
  | home
  | offset (minutes : Int)
  deriving DecidableEq, Repr

/-- A moment, as it is written. -/
structure Moment where
  year : Nat
  month : Nat
  day : Nat
  hour : Nat := 0
  minute : Nat := 0
  second : Nat := 0
  nanosecond : Nat := 0
  zone : Zone := .universal
  deriving DecidableEq, Repr

/-! ### Reading -/

/-- Takes a number of one or two digits that lies between two bounds. -/
def takeNumber (least most : Nat) : List Char → Option (Nat × List Char)
  | [] => none
  | c :: rest =>
    if !c.isDigit then none
    else
      let (n, rest) :=
        match rest with
        | d :: rest' =>
          if d.isDigit then (10 * Binary64.digitValue c + Binary64.digitValue d, rest')
          else (Binary64.digitValue c, rest)
        | [] => (Binary64.digitValue c, rest)
      if least ≤ n && n ≤ most then some (n, rest) else none

/-- Takes a character that has to be there. -/
def takeMark (x : Char) : List Char → Option (List Char)
  | c :: rest => if c == x then some rest else none
  | [] => none

/-- The number of days of a month. -/
def daysIn (year month : Nat) : Nat :=
  if month = 2 then (if year % 4 = 0 && (year % 100 ≠ 0 || year % 400 = 0) then 29 else 28)
  else if month ∈ [4, 6, 9, 11] then 30
  else 31

/-- Takes a date: a year of four digits, the month and the day. -/
def takeDate (cs : List Char) : Option (Moment × List Char) := do
  let digits := cs.takeWhile Char.isDigit
  if digits.length ≠ 4 then none
  let year := Binary64.digitsValue digits
  let rest ← takeMark '-' (cs.drop 4)
  let (month, rest) ← takeNumber 1 12 rest
  let rest ← takeMark '-' rest
  let (day, rest) ← takeNumber 1 (daysIn year month) rest
  return ({ year, month, day }, rest)

/-- Takes a fraction of a second, if there is one, in nanoseconds. Further digits do not count. -/
def takeFraction (cs : List Char) : Nat × List Char :=
  match cs with
  | x :: d :: rest =>
    if (x == '.' || x == ',') && d.isDigit then
      let digits := (d :: rest).takeWhile Char.isDigit
      (Binary64.digitsValue ((digits ++ List.replicate 9 '0').take 9), rest.dropWhile Char.isDigit)
    else (0, cs)
  | _ => (0, cs)

/-- Takes a time of day. -/
def takeClock (m : Moment) (cs : List Char) : Option (Moment × List Char) := do
  let (hour, rest) ← takeNumber 0 23 cs
  let rest ← takeMark ':' rest
  let (minute, rest) ← takeNumber 0 59 rest
  let rest ← takeMark ':' rest
  let (second, rest) ← takeNumber 0 59 rest
  let (nanosecond, rest) := takeFraction rest
  return ({ m with hour, minute, second, nanosecond }, rest)

/-- Reads a zone: the letter `Z`, or an offset in hours and minutes. -/
def zone? : List Char → Option Zone
  | ['Z'] => some .universal
  | [sign, a, b, ':', c, d] =>
    let hours := 10 * Binary64.digitValue a + Binary64.digitValue b
    let minutes := 10 * Binary64.digitValue c + Binary64.digitValue d
    if (sign == '+' || sign == '-') && [a, b, c, d].all Char.isDigit && hours ≤
    24 && minutes ≤ 60 then
      let offset : Int := 60 * hours + minutes
      some (if offset = 0 then .home else .offset (if sign == '-' then -offset else offset))
    else none
  | _ => none

/-- Reads a moment. -/
def Moment.ofText? (cs : List Char) : Option Moment := do
  let (date, rest) ← takeDate cs
  match rest with
  | [] => return date
  | x :: rest =>
    if x == 'T' || x == 't' then
      let (m, rest) ← takeClock date rest
      return { m with zone := ← zone? rest }
    else if x == ' ' then
      let (m, rest) ← takeClock date (rest.dropWhile (· == ' '))
      if rest.isEmpty then return m else none
    else none

/-! ### Printing -/

/-- The names of the months. -/
def monthNames : List String :=
  ["January", "February", "March", "April", "May", "June", "July", "August", "September", "October",
    "November", "December"]

/-- The written form of a zone in messages. -/
def Zone.shown : Zone → String
  | .universal => "time.UTC"
  | .home => "time.Local"
  | .offset _ => "time.Location(\"\")"

/-- The written form of a moment in messages. -/
def Moment.shown (m : Moment) : String :=
  "time.Date(" ++ toString m.year ++ ", time." ++ (monthNames[m.month - 1]?).getD "" ++ ", " ++
    String.intercalate ", " ([m.day, m.hour, m.minute, m.second, m.nanosecond].map toString) ++
    ", " ++ m.zone.shown ++ ")"

/-! ### Comparing -/

/-- What moments are ordered by: the fraction of the second comes first. -/
def Moment.key (m : Moment) : List Nat :=
  [m.nanosecond, m.year, m.month, m.day, m.hour, m.minute, m.second]

/-- Two moments are the same key of a table. Zones with an offset are always different. -/
def Moment.sameKey (a b : Moment) : Bool :=
  a == b &&
    match a.zone with
    | .offset _ => false
    | _ => true

end EffectTiming.Document
