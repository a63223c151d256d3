import EffectTiming.Binary64.Numeral
import EffectTiming.Binary64.Text
import EffectTiming.Text.Raw
import EffectTiming.Time.Span
import EffectTiming.Word

/-!
# Written spans

A written span is a sign and a row of numbers with units, such as `-1h30m`, `250ms` or `1.5s`.
`Span.read` reads one, `Span.text` writes one in the largest fitting units.
-/

namespace EffectTiming.Span

/-! ### Writing -/

/-- `n · 10 ^ (-places)` without trailing zeros and without a bare point. -/
def withPlaces (n places : Nat) : String :=
  let part := (Binary64.padZeros places (toString (n % Nat.pow 10 places))).toList
  let kept := (part.reverse.dropWhile (· == '0')).reverse
  toString (n / Nat.pow 10 places) ++ (if kept.isEmpty then "" else "." ++ String.ofList kept)

/-- The text of a span of `u` nanoseconds: below a second in one small unit, otherwise in hours,
minutes and seconds from the first that is not zero. -/
def magnitudeText (u : Nat) : String :=
  if u = 0 then "0s"
  else if u < 1000 then toString u ++ "ns"
  else if u < 1000000 then withPlaces u 3 ++ "µs"
  else if u < 1000000000 then withPlaces u 6 ++ "ms"
  else
    let minutes := u / 60000000000
    let seconds := withPlaces (u % 60000000000) 9 ++ "s"
    if minutes = 0 then seconds
    else if minutes < 60 then toString minutes ++ "m" ++ seconds
    else toString (minutes / 60) ++ "h" ++ toString (minutes % 60) ++ "m" ++ seconds

/-- The text of a count of nanoseconds, the extremes included. -/
def literal (d : Span) : String :=
  (if d.ns < 0 then "-" else "") ++ magnitudeText d.ns.natAbs

/-- The text of a span; the extremes have names. -/
def text (d : Span) : String :=
  if d = forever then "forever"
  else if d = negForever then "-forever"
  else d.literal

/-! ### Reading -/

/-- Why a text is not a written span. -/
inductive LiteralError where
  | invalid (input : RawText)
  | missingUnit (input : RawText)
  | unknownUnit (unit input : RawText)
  deriving DecidableEq, Repr

/-- What is said about a text that is not a written span. -/
def LiteralError.message : LiteralError → String
  | .invalid s => "time: invalid duration " ++ s.quotedBytes
  | .missingUnit s => "time: missing unit in duration " ++ s.quotedBytes
  | .unknownUnit u s => "time: unknown unit " ++ u.quotedBytes ++ " in duration " ++ s.quotedBytes

/-- The nanoseconds of a unit. The micro sign and the Greek letter both serve for microseconds. -/
def unit? (u : String) : Option Nat :=
  if u = "ns" then some 1
  else if u = "us" ∨ u = "µs" ∨ u = "μs" then some 1000
  else if u = "ms" then some 1000000
  else if u = "s" then some 1000000000
  else if u = "m" then some 60000000000
  else if u = "h" then some 3600000000000
  else none

/-- The digits after a point that count: further ones are dropped as soon as the next no longer fits
into sixty-three bits. The result is the number they form and how many they are. -/
def placesValue : Nat → Nat → List Char → Nat × Nat
  | n, count, [] => (n, count)
  | n, count, c :: cs =>
    let next := 10 * n + Binary64.digitValue c
    if n > (Word.half - 1) / 10 ∨ next > Word.half then (n, count)
    else placesValue next (count + 1) cs

/-- The nanoseconds of `0.places` units: the power of ten is divided out first, each step rounded to
binary64, and the fraction of a nanosecond is dropped. -/
def placesNs (places : List Char) (unit : Nat) : Nat :=
  let (n, count) := placesValue 0 0 places
  if n = 0 then 0
  else
    let power := (List.replicate count ()).foldl (fun (x : Float) _ => x * 10) 1
    (Binary64.truncate (Float.ofNat n * (Float.ofNat unit / power))).toNat

/-- The piece is a digit. -/
def isDigit (g : Glyph) : Bool := g.shown.isDigit

/-- The piece belongs to a number, not to a unit. -/
def isNumeric (g : Glyph) : Bool := g.shown == '.' || isDigit g

/-- One number with its unit: the digits before and after the point, the unit and the rest. -/
structure Component where
  whole : List Char
  places : List Char
  unit : RawText
  rest : List Glyph

/-- The digits that a text starts with. -/
def leadingDigits (gs : List Glyph) : List Char := (gs.takeWhile isDigit).map Glyph.shown

/-- Cuts the first component off a text. A point that follows nothing belongs to the number. -/
def component (gs : List Glyph) : Component :=
  let whole := leadingDigits gs
  match gs.dropWhile isDigit with
  | .char '.' :: more =>
    let after := more.dropWhile isDigit
    ⟨whole, leadingDigits more, ⟨after.takeWhile (!isNumeric ·)⟩, after.dropWhile (!isNumeric ·)⟩
  | after => ⟨whole, [], ⟨after.takeWhile (!isNumeric ·)⟩, after.dropWhile (!isNumeric ·)⟩

/-- What a component adds, in nanoseconds. -/
def Component.value (c : Component) (input : RawText) : Except LiteralError Nat :=
  let whole := Binary64.digitsValue c.whole
  if whole > Word.half then .error (.invalid input)
  else if c.whole.isEmpty && c.places.isEmpty then .error (.invalid input)
  else if c.unit.isEmpty then .error (.missingUnit input)
  else
    match unit? c.unit.text with
    | none => .error (.unknownUnit c.unit input)
    | some unit =>
      if whole > Word.half / unit then .error (.invalid input)
      else
        let v := whole * unit + placesNs c.places unit
        if v > Word.half then .error (.invalid input) else .ok v

/-- Adds up the components of a text, `fuel` at most. The sum is kept modulo `2 ^ 64`. -/
def sumComponents (input : RawText) : Nat → Nat → List Glyph → Except LiteralError Nat
  | _, total, [] => .ok total
  | 0, total, _ => .ok total
  | fuel + 1, total, g :: gs =>
    if isNumeric g then
      let part := component (g :: gs)
      match part.value input with
      | .error e => .error e
      | .ok v =>
        let sum := (total + v) % Word.count
        if sum > Word.half then .error (.invalid input)
        else sumComponents input fuel sum part.rest
    else .error (.invalid input)

/-- Takes a sign; the flag says that it is a minus. -/
def takeSign : List Glyph → Bool × List Glyph
  | .char '-' :: gs => (true, gs)
  | .char '+' :: gs => (false, gs)
  | gs => (false, gs)

/-- Reads a written span. -/
def read (input : RawText) : Except LiteralError Span :=
  let (negative, body) := takeSign input.glyphs
  if body = [.char '0'] then .ok zero
  else if body = [] then .error (.invalid input)
  else
    match sumComponents input body.length 0 body with
    | .error e => .error e
    | .ok n =>
      if negative then .ok (clamp (-(n : Int)))
      else if (n : Int) > greatest then .error (.invalid input)
      else .ok (clamp n)

end EffectTiming.Span
