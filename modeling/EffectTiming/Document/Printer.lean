import EffectTiming.Binary64.Text
import EffectTiming.Document.Mark
import EffectTiming.Document.Value
import EffectTiming.Text.Raw

/-!
# Writing documents

Mappings and sequences are written as blocks. A text is written plainly if it reads back as that
text, else between quotes; a text of several lines is a literal block.
-/

namespace EffectTiming.Document

/-- Numbers in documents. -/
def numberLayout : Binary64.Layout := { Binary64.general with
  infinity := ".inf", negativeInfinity := "-.inf", nan := ".nan" }

/-- The written form of a number. -/
def numberText (x : Float) : String := numberLayout.text x

/-! ### Texts that need quotes -/

/-- Groups of at most sixty behind colons, up to a point. -/
def isSixtyTail : Nat → List Char → Bool
  | 0, _ => false
  | fuel + 1, cs =>
    let group := cs.takeWhile Char.isDigit
    let rest := cs.dropWhile Char.isDigit
    let good :=
      match group with
      | [_] => true
      | [a, _] => a < '6'
      | _ => false
    good &&
      match rest with
      | [] => true
      | '.' :: places => places.all fun c => c.isDigit || c == '_'
      | ':' :: more => isSixtyTail fuel more
      | _ => false

/-- A number in base sixty, which some readers take for a number. -/
def isSixty (s : String) : Bool :=
  match (Binary64.takeSign s.toList).2 with
  | [] => false
  | c :: rest =>
    c.isDigit &&
      match rest.dropWhile (fun d => d.isDigit || d == '_') with
      | ':' :: more => isSixtyTail s.length more
      | _ => false

/-- The text would not be taken for anything but itself. -/
def readsAsText (s : String) : Bool :=
  (match plainValue true s with
    | .text _ => true
    | _ => false) && !isSixty s && (flagOfWord? s).isNone

/-- A character that can stand in a document as it is. -/
def isShown (c : Char) : Bool :=
  let n := c.toNat
  n == 0x0a || (0x20 ≤ n && n ≤ 0x7e) || (0xa0 ≤ n && n ≤ 0xd7ff) ||
    (0xe000 ≤ n && n ≤ 0xfffd && n != 0xfeff)

/-- The first character, or a later one behind `before`, has a meaning of its own in a block. -/
def isIndicator (first : Bool) (before : Char) (c : Char) (next : Option Char) : Bool :=
  let gapNext := (next.map isGap).getD true
  if first then
    "#,[]\x7b\x7d&*!|>'\"%@`".toList.contains c || ((c == '?' || c == ':' || c == '-') && gapNext)
  else (c == ':' && gapNext) || (c == '#' && (isGap before || isBreak before))

/-- Some character has a meaning of its own in a block. -/
def hasIndicator : Bool → Char → List Char → Bool
  | _, _, [] => false
  | first, before, c :: cs => isIndicator first before c cs.head? || hasIndicator false c cs

/-- Two neighbours satisfy `p` and `q`. -/
def hasNeighbours (p q : Char → Bool) : List Char → Bool
  | a :: b :: cs => (p a && q b) || hasNeighbours p q (b :: cs)
  | _ => false

/-- A space. -/
def isSpace (c : Char) : Bool := c == ' '

/-- Single quotes are enough: everything can be shown, and no space stands at the end of a line or
at the start of one. -/
def allowsSingleQuotes (cs : List Char) : Bool :=
  cs.all isShown && !hasNeighbours isSpace isBreak cs && !hasNeighbours isBreak isSpace cs

/-- No quotes are needed. -/
def allowsPlain (cs : List Char) : Bool :=
  let marked := cs.take 3 == ['-', '-', '-'] || cs.take 3 == ['.', '.', '.']
  let edges := [cs.head?, cs.getLast?]
  allowsSingleQuotes cs && !cs.any isBreak && !edges.contains (some ' ') && !marked &&
    !hasIndicator true ' ' cs

/-- A literal block is possible. -/
def allowsLiteral (cs : List Char) : Bool :=
  cs.all (fun c => isShown c || c == '\t') && !hasNeighbours isSpace isBreak cs &&
    cs.getLast? != some ' '

/-! ### Written texts -/

/-- The letter of an escape between double quotes. -/
def escapeLetter? (c : Char) : Option Char :=
  if c == '\x00' then some '0'
  else if c == '\x07' then some 'a'
  else if c == '\x08' then some 'b'
  else if c == '\t' then some 't'
  else if c == '\n' then some 'n'
  else if c == '\x0b' then some 'v'
  else if c == '\x0c' then some 'f'
  else if c == '\r' then some 'r'
  else if c == '\x1b' then some 'e'
  else if c == '"' || c == '\\' then some c
  else if c == '\u0085' then some 'N'
  else if c == '\u2028' then some 'L'
  else if c == '\u2029' then some 'P'
  else none

/-- A character between double quotes; some are shown as they are, unless all are escaped. -/
def escapeChar (all : Bool) (c : Char) : List Char :=
  let n := c.toNat
  match escapeLetter? c with
  | some x => ['\\', x]
  | none =>
    if isShown c && !all then [c]
    else if n = 0xa0 then ['\\', '_']
    else
      let digits (width : Nat) := (Text.hexDigits width n).map Char.toUpper
      if n ≤ 0xff then '\\' :: 'x' :: digits 2
      else if n ≤ 0xffff then '\\' :: 'u' :: digits 4
      else '\\' :: 'U' :: digits 8

/-- The text between double quotes. Behind a byte order mark at its start everything is escaped. -/
def doubleQuoted (s : String) : String :=
  let cs := s.toList
  String.ofList ('"' :: cs.flatMap (escapeChar (cs.head? == some byteOrderMark)) ++ ['"'])

/-- The characters of a text with spaces in front of those that start a line. -/
def indented (indent : Nat) : Bool → List Char → List Char
  | _, [] => []
  | starts, c :: cs =>
    if isBreak c then c :: indented indent true cs
    else (if starts then List.replicate indent ' ' else []) ++ c :: indented indent false cs

/-- The text between single quotes; a line after the first is indented by `indent`. -/
def singleQuoted (indent : Nat) (s : String) : String :=
  let body :=
    (indented indent false s.toList).flatMap fun c => if c == '\'' then ['\'', '\''] else [c]
  String.ofList ('\'' :: body ++ ['\''])

/-- Spaces at the start of a line. -/
def spaces (n : Nat) : String := String.ofList (List.replicate n ' ')

/-- The signs behind the bar of a literal block: the indentation if the text starts with a blank,
and what happens to line breaks at its end. -/
def literalHints (step : Nat) (cs : List Char) : String :=
  let startsBlank :=
    match cs.head? with
    | some c => c == ' ' || isBreak c
    | none => false
  let chomping :=
    match cs.reverse with
    | [] => "-"
    | [c] => if isBreak c then "+" else "-"
    | c :: d :: _ => if !isBreak c then "-" else if isBreak d then "+" else ""
  (if startsBlank then toString step else "") ++ chomping

/-- A literal block whose lines are indented by `indent`. -/
def literalBlock (step indent : Nat) (s : String) : String :=
  let cs := s.toList
  "|" ++ literalHints step cs ++ (if (cs.head?.map isBreak).getD true then "" else "\n") ++
    String.ofList (indented indent true cs)

/-- Pieces of seventy characters, each with the end of a line. -/
def wrapped : Nat → List Char → List Char
  | 0, _ => []
  | _, [] => []
  | fuel + 1, cs => cs.take 70 ++ '\n' :: wrapped fuel (cs.drop 70)

/-- The written form of bytes: a few stand on the line, more are a block. -/
def bytesForm (step indent : Nat) (bytes : List Nat) : String :=
  let digits := Text.toSixtyFour bytes
  "!!binary " ++
    if digits.length < 70 then String.ofList digits
    else literalBlock step indent (String.ofList (wrapped digits.length digits))

/-- The written form of a text of characters; the lines of a block are indented by `indent`. -/
def charsForm (step indent : Nat) (s : String) : String :=
  let cs := s.toList
  if cs.contains '\n' then
    if allowsLiteral cs then literalBlock step indent s else doubleQuoted s
  else if !readsAsText s then doubleQuoted s
  else if allowsPlain cs then s
  else if allowsSingleQuotes cs then singleQuoted indent s
  else doubleQuoted s

/-- The written form of a text; with stray bytes in it, that of its bytes. -/
def textForm (step indent : Nat) (r : RawText) : String :=
  if r.isText then charsForm step indent r.text else bytesForm step indent r.bytes

/-! ### Records -/

/-- What is written for a field. -/
inductive Written where
  | text (s : RawText)
  | number (x : Float)
  | flag (b : Bool)
  | null
  | record (fields : List (String × Written))

/-- The end of a line, unless the text ends with one. -/
def endLine (s : String) : String :=
  if (s.toList.getLast?.map isBreak).getD false then s else s ++ "\n"

/-- The next column that is a multiple of `step`. -/
def nextIndent (step indent : Nat) : Nat := step * ((indent + step) / step)

mutual

/-- The lines of a record whose keys stand at column `indent`. -/
def recordLines (step indent : Nat) : List (String × Written) → List String
  | [] => []
  | (key, value) :: rest =>
    (key ++ ":" ++ valueForm step indent value) :: recordLines step indent rest

/-- What follows a key and its colon, with the end of the line. -/
def valueForm (step indent : Nat) : Written → String
  | .text s => endLine (" " ++ textForm step (nextIndent step indent) s)
  | .number x => " " ++ numberText x ++ "\n"
  | .flag b => (if b then " true" else " false") ++ "\n"
  | .null => " null\n"
  | .record [] => " \x7b\x7d\n"
  | .record fields =>
    let inner := nextIndent step indent
    "\n" ++ String.join ((recordLines step inner fields).map (spaces inner ++ ·))

end

/-- A document that is one record. -/
def recordDocument (step : Nat) (fields : List (String × Written)) : String :=
  String.join (recordLines step 0 fields)

/-- The lines of a record in a sequence: the first one behind a dash, the others below it. -/
def itemLines : List String → List String
  | [] => ["- \x7b\x7d\n"]
  | line :: rest => ("- " ++ line) :: rest.map ("  " ++ ·)

/-- A document that is a sequence of records. -/
def sequenceDocument (step : Nat) (records : List (List (String × Written))) : String :=
  if records.isEmpty then "[]\n"
  else String.join (records.flatMap fun fields => itemLines (recordLines step 2 fields))

end EffectTiming.Document
