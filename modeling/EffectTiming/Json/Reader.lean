import EffectTiming.Binary64.Numeral
import EffectTiming.Json.Basic
import EffectTiming.Text.Raw

/-!
# Reading JSON

The reader takes one value and nothing after it. The first character that cannot go on is reported
together with its place. Values nest up to a limit.
-/

namespace EffectTiming.JsonValue

/-- Where a character cannot stand. -/
inductive Place where
  | valueStart
  | literal (word : String) (expected : Char)
  | keyStart
  | afterKey
  | afterMember
  | afterElement
  | text
  | number
  | afterTop

/-- What is wrong with a text. -/
inductive SyntaxFault where
  | unexpectedEnd
  | unexpected (c : Char) (place : Place)
  /-- An escape that stands for nothing, with its backslash. -/
  | badEscape (escape : RawText)
  /-- Too many arrays and objects inside each other. -/
  | tooDeep

/-- A character in a message. -/
def shownChar (c : Char) : String :=
  let body :=
    if c = '\'' then ['\\', '\''] else if c = '"' then ['"'] else Text.quoteChar c
  String.ofList ('\'' :: body ++ ['\''])

/-- The wording of a place. -/
def Place.message : Place → String
  | .valueStart => "looking for beginning of value"
  | .literal word expected => "in literal " ++ word ++ " (expecting " ++ shownChar expected ++ ")"
  | .keyStart => "looking for beginning of object key string"
  | .afterKey => "after object key"
  | .afterMember => "after object key:value pair"
  | .afterElement => "after array element"
  | .text => "in string"
  | .number => "in numeric literal"
  | .afterTop => "after top-level value"

/-- An escape in a message: between backticks, or quoted if it holds a blank, a backtick or what
cannot be printed. -/
def shownEscape (escape : RawText) : String :=
  let hidden (g : Glyph) : Bool :=
    let c := g.shown
    c == '\x60' || c == '\ufffd' || Text.isBlank c || !Text.isPrintable c
  if escape.glyphs.any hidden then escape.quoted else "`" ++ escape.text ++ "`"

/-- The wording of a fault. -/
def SyntaxFault.message : SyntaxFault → String
  | .unexpectedEnd => "unexpected end of JSON input"
  | .unexpected c place => "invalid character " ++ shownChar c ++ " " ++ place.message
  | .badEscape escape => "invalid escape sequence " ++ shownEscape escape ++ " in string"
  | .tooDeep => "exceeded max depth"

/-- Reading gives a result and the rest of the text. -/
abbrev Reads (α : Type) := Except SyntaxFault (α × List Char)

/-- A character between values. -/
def isJsonSpace (c : Char) : Bool := c == ' ' || c == '\t' || c == '\r' || c == '\n'

/-- Passes what may stand between values. -/
def skipSpace (cs : List Char) : List Char := cs.dropWhile isJsonSpace

/-- The text cannot go on like this. -/
def stuck {α : Type} (place : Place) : List Char → Except SyntaxFault α
  | [] => .error .unexpectedEnd
  | c :: _ => .error (.unexpected c place)

/-- Reads the rest of a word. -/
def readWord (word : String) (value : JsonValue) : List Char → List Char → Reads JsonValue
  | [], cs => .ok (value, cs)
  | w :: ws, cs =>
    match cs with
    | c :: rest =>
      if c = w then readWord word value ws rest else .error (.unexpected c (.literal word w))
    | [] => .error .unexpectedEnd

/-! ### Texts -/

/-- What a one-letter escape stands for. -/
def simpleEscape? (c : Char) : Option Char :=
  if c = '"' ∨ c = '\\' ∨ c = '/' then some c
  else if c = 'b' then some '\x08'
  else if c = 'f' then some '\x0c'
  else if c = 'n' then some '\n'
  else if c = 'r' then some '\r'
  else if c = 't' then some '\t'
  else none

/-- The first `n` bytes of an escape; the last character may be cut. -/
def cutEscape (n : Nat) (cs : List Char) : RawText :=
  .ofBytes ((Text.bytes (String.ofList ('\\' :: cs.take n))).take n)

/-- Reads four digits in base sixteen behind a backslash and the letter `u`. -/
def readUnit (cs : List Char) : Reads Nat :=
  let digits := cs.take 4
  if digits.all fun c => (Binary64.hexValue? c).isSome then
    if digits.length = 4 then .ok (Binary64.hexDigitsValue digits, cs.drop 4)
    else .error .unexpectedEnd
  else .error (.badEscape (cutEscape 6 ('u' :: cs)))

/-- The second half of a pair of units, if it follows. -/
def lowUnit? : List Char → Option (Nat × List Char)
  | '\\' :: 'u' :: cs =>
    match readUnit cs with
    | .ok (n, rest) => if 0xdc00 ≤ n ∧ n < 0xe000 then some (n, rest) else none
    | .error _ => none
  | _ => none

/-- The character of a unit, which may need the one after it. A half without its other half is shown
as a replacement character. -/
def charOfUnit (n : Nat) (cs : List Char) : Char × List Char :=
  if 0xd800 ≤ n ∧ n < 0xdc00 then
    match lowUnit? cs with
    | some (low, rest) => (Char.ofNat (0x10000 + (n - 0xd800) * 1024 + (low - 0xdc00)), rest)
    | none => ('�', cs)
  else if 0xdc00 ≤ n ∧ n < 0xe000 then ('�', cs)
  else (Char.ofNat n, cs)

/-- Reads a text behind its opening quote. -/
def readText : Nat → List Char → Reads (List Char)
  | 0, _ => .error .unexpectedEnd
  | _, [] => .error .unexpectedEnd
  | fuel + 1, c :: cs =>
    if c = '"' then .ok ([], cs)
    else if c = '\\' then
      match cs with
      | [] => .error .unexpectedEnd
      | 'u' :: rest =>
        match readUnit rest with
        | .error e => .error e
        | .ok (n, rest) =>
          let (x, rest) := charOfUnit n rest
          match readText fuel rest with
          | .error e => .error e
          | .ok (xs, rest) => .ok (x :: xs, rest)
      | e :: rest =>
        match simpleEscape? e with
        | none => .error (.badEscape (cutEscape 2 [e]))
        | some x =>
          match readText fuel rest with
          | .error e => .error e
          | .ok (xs, rest) => .ok (x :: xs, rest)
    else if c.toNat < 0x20 then .error (.unexpected c .text)
    else
      match readText fuel cs with
      | .error e => .error e
      | .ok (xs, rest) => .ok (c :: xs, rest)

/-! ### Numbers -/

/-- Reads at least one digit. -/
def readDigits (cs : List Char) : Reads (List Char) :=
  match cs.takeWhile Char.isDigit with
  | [] => stuck .number cs
  | digits => .ok (digits, cs.dropWhile Char.isDigit)

/-- Reads the digits before the point: zero stands alone. -/
def readWhole : List Char → Reads (List Char)
  | '0' :: cs => .ok (['0'], cs)
  | cs => readDigits cs

/-- Reads a point and what follows it, if there is one. -/
def readPlaces : List Char → Reads (List Char)
  | '.' :: cs =>
    match readDigits cs with
    | .error e => .error e
    | .ok (digits, rest) => .ok ('.' :: digits, rest)
  | cs => .ok ([], cs)

/-- Reads an exponent, if there is one. -/
def readExponent : List Char → Reads (List Char)
  | c :: cs =>
    if c = 'e' ∨ c = 'E' then
      let (sign, digits) :=
        match cs with
        | '+' :: rest => (['+'], rest)
        | '-' :: rest => (['-'], rest)
        | rest => ([], rest)
      match readDigits digits with
      | .error e => .error e
      | .ok (ds, rest) => .ok (c :: sign ++ ds, rest)
    else .ok ([], c :: cs)
  | [] => .ok ([], [])

/-- Takes the minus sign in front of a number. -/
def takeMinus : List Char → List Char × List Char
  | '-' :: rest => (['-'], rest)
  | rest => ([], rest)

/-- Reads a number. -/
def readNumber (cs : List Char) : Reads JsonValue :=
  let (sign, cs) := takeMinus cs
  match readWhole cs with
  | .error e => .error e
  | .ok (whole, cs) =>
    match readPlaces cs with
    | .error e => .error e
    | .ok (places, cs) =>
      match readExponent cs with
      | .error e => .error e
      | .ok (exponent, cs) =>
        .ok (.number (String.ofList (sign ++ whole ++ places ++ exponent)), cs)

/-! ### Values -/

/-- How many arrays and objects may be open at once. -/
def depthLimit : Nat := 10000

mutual

/-- Reads a value inside `depth` others. -/
def readValue : Nat → Nat → List Char → Reads JsonValue
  | 0, _, _ => .error .unexpectedEnd
  | fuel + 1, depth, cs =>
    match skipSpace cs with
    | [] => .error .unexpectedEnd
    | c :: rest =>
      if c = 'n' then readWord "null" .null ['u', 'l', 'l'] rest
      else if c = 't' then readWord "true" (.bool true) ['r', 'u', 'e'] rest
      else if c = 'f' then readWord "false" (.bool false) ['a', 'l', 's', 'e'] rest
      else if c = '"' then
        match readText (rest.length + 1) rest with
        | .error e => .error e
        | .ok (xs, rest) => .ok (.string (String.ofList xs), rest)
      else if c = '-' ∨ c.isDigit then readNumber (c :: rest)
      else if (c = '[' ∨ c = '{') ∧ depthLimit ≤ depth then .error .tooDeep
      else if c = '[' then
        match skipSpace rest with
        | ']' :: rest => .ok (.array [], rest)
        | rest =>
          match readItems fuel (depth + 1) rest with
          | .error e => .error e
          | .ok (vs, rest) => .ok (.array vs, rest)
      else if c = '{' then
        match skipSpace rest with
        | '}' :: rest => .ok (.object [], rest)
        | rest =>
          match readMembers fuel (depth + 1) rest with
          | .error e => .error e
          | .ok (ms, rest) => .ok (.object ms, rest)
      else .error (.unexpected c .valueStart)

/-- Reads the items of an array up to its end. -/
def readItems : Nat → Nat → List Char → Reads (List JsonValue)
  | 0, _, _ => .error .unexpectedEnd
  | fuel + 1, depth, cs =>
    match readValue fuel depth cs with
    | .error e => .error e
    | .ok (v, rest) =>
      match skipSpace rest with
      | ']' :: rest => .ok ([v], rest)
      | ',' :: rest =>
        match readItems fuel depth rest with
        | .error e => .error e
        | .ok (vs, rest) => .ok (v :: vs, rest)
      | rest => stuck .afterElement rest

/-- Reads the members of an object up to its end. -/
def readMembers : Nat → Nat → List Char → Reads (List (String × JsonValue))
  | 0, _, _ => .error .unexpectedEnd
  | fuel + 1, depth, cs =>
    match skipSpace cs with
    | '"' :: rest =>
      match readText (rest.length + 1) rest with
      | .error e => .error e
      | .ok (key, rest) =>
        match skipSpace rest with
        | ':' :: rest =>
          match readValue fuel depth rest with
          | .error e => .error e
          | .ok (v, rest) =>
            match skipSpace rest with
            | '}' :: rest => .ok ([(String.ofList key, v)], rest)
            | ',' :: rest =>
              match readMembers fuel depth rest with
              | .error e => .error e
              | .ok (ms, rest) => .ok ((String.ofList key, v) :: ms, rest)
            | rest => stuck .afterMember rest
        | rest => stuck .afterKey rest
    | rest => stuck .keyStart rest

end

/-- Reads a text that holds one value. -/
def read (text : String) : Except SyntaxFault JsonValue :=
  let cs := text.toList
  match readValue (cs.length + 1) 0 cs with
  | .error e => .error e
  | .ok (v, rest) =>
    match skipSpace rest with
    | [] => .ok v
    | c :: _ => .error (.unexpected c .afterTop)

end EffectTiming.JsonValue
