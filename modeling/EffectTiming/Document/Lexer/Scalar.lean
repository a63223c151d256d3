import EffectTiming.Binary64.Numeral
import EffectTiming.Document.Lexer.Comment
import EffectTiming.Document.Token

/-!
# Scalars as characters

Plain, quoted and block scalars. Line breaks inside a plain or quoted scalar are folded: one becomes
a space, and of several all but the first stay.
-/

namespace EffectTiming.Document

/-- A scalar that has been read. -/
structure ScalarRead where
  token : Token
  /-- The scalar ended after a line break, so a key may start here. -/
  newLine : Bool := false

/-- The gaps and line breaks between two words. -/
structure Blank where
  /-- Some line ended. -/
  broken : Bool := false
  gaps : String := ""
  first : String := ""
  others : String := ""

/-- What the blanks between two words turn into. -/
def Blank.text (b : Blank) : String :=
  if b.broken then
    if b.first = "\n" then (if b.others = "" then " " else b.others) else b.first ++ b.others
  else b.gaps

namespace Scan

/-- Takes gaps and line breaks. A tab may be forbidden in the indentation of further lines: then
`tabLimit` is the column up to which no tab may stand. -/
def takeBlank (start : Mark) (tabLimit : Nat) : Nat → Blank → Scan Blank
  | 0, b => return b
  | fuel + 1, b => do
    let c ← get
    match c.rest with
    | [] => return b
    | x :: _ =>
      if isGap x then
        if b.broken && c.mark.column < tabLimit && x == '\t' then fail start .tabInPlain
        skip
        need 1
        takeBlank start tabLimit fuel (if b.broken then b else { b with gaps := b.gaps.push x })
      else if isBreak x then
        let text ← takeBreak
        need 1
        takeBlank start tabLimit fuel
          (if b.broken then { b with others := b.others ++ text }
          else { b with broken := true, gaps := "", first := text })
      else return b

/-! ### Plain scalars -/

/-- A plain scalar ends before this text. -/
def endsPlain (flow : Bool) : List Char → Bool
  | [] => true
  | x :: rest =>
    isGap x || isBreak x || (x == ':' && endsWord rest) ||
      (flow && (x == ',' || x == '?' || x == '[' || x == ']' || x == '{' || x == '}'))

/-- Takes the characters up to the end of a word of a plain scalar. -/
def plainWord (flow : Bool) : Nat → String → Scan String
  | 0, text => return text
  | fuel + 1, text => do
    match (← get).rest with
    | [] => return text
    | x :: rest =>
      if endsPlain flow (x :: rest) then return text
      skip
      need 2
      plainWord flow fuel (text.push x)

/-- Takes the words of a plain scalar. `stop` is the end of the last word, `b` what stands before
the next one. -/
def plainWords (flow : Bool) (indent : Nat) (start : Mark) :
    Nat → String → Mark → Blank → Scan (String × Mark × Blank)
  | 0, text, stop, b => return (text, stop, b)
  | fuel + 1, text, stop, b => do
    need 4
    let c ← get
    if c.onDocumentMark '-' || c.onDocumentMark '.' || c.at? '#' then return (text, stop, b)
    let word ← plainWord flow (c.length + 1) ""
    let c ← get
    let (text, stop, b) :=
      if word.isEmpty then (text, stop, b) else (text ++ b.text ++ word, c.mark, ({} : Blank))
    if !(c.onGap || c.onBreak) then return (text, stop, b)
    need 1
    let b ← takeBlank start indent (c.length + 1) b
    if !flow && (← get).mark.column < indent then return (text, stop, b)
    plainWords flow indent start fuel text stop b

/-- Reads a plain scalar. `indent` is the least column of its further lines. -/
def plain (flow : Bool) (indent : Nat) : Scan ScalarRead := do
  let c ← get
  let (text, stop, b) ← plainWords flow indent c.mark (c.length + 1) "" c.mark {}
  return ⟨⟨.scalar text .plain, c.mark, stop⟩, b.broken⟩

/-! ### Quoted scalars -/

/-- What a one-letter escape in double quotes stands for. -/
def simpleEscape? (x : Char) : Option Char :=
  if x == '0' then some '\x00'
  else if x == 'a' then some '\x07'
  else if x == 'b' then some '\x08'
  else if x == 't' || x == '\t' then some '\t'
  else if x == 'n' then some '\n'
  else if x == 'v' then some '\x0b'
  else if x == 'f' then some '\x0c'
  else if x == 'r' then some '\r'
  else if x == 'e' then some '\x1b'
  else if x == ' ' then some ' '
  else if x == '"' then some '"'
  else if x == '\'' then some '\''
  else if x == '\\' then some '\\'
  else if x == 'N' then some '\u0085'
  else if x == '_' then some '\u00a0'
  else if x == 'L' then some '\u2028'
  else if x == 'P' then some '\u2029'
  else none

/-- How many digits in base sixteen follow an escape letter. -/
def escapeDigits? (x : Char) : Option Nat :=
  if x == 'x' then some 2 else if x == 'u' then some 4 else if x == 'U' then some 8 else none

/-- Reads the escape at the cursor, which stands on the backslash. -/
def escape (start : Mark) : Scan Char := do
  match (← get).rest[1]? with
  | none => fail start .unknownEscape
  | some x =>
    match simpleEscape? x with
    | some y =>
      modify (Cursor.skipN 2)
      return y
    | none =>
      match escapeDigits? x with
      | none => fail start .unknownEscape
      | some n =>
        modify (Cursor.skipN 2)
        need n
        let digits := (← get).rest.take n
        if digits.length < n || !digits.all (fun d => (Binary64.hexValue? d).isSome) then
          fail start .hexEscape
        let code := Binary64.hexDigitsValue digits
        if (0xd800 ≤ code && code ≤ 0xdfff) || 0x10ffff < code then fail start .invalidEscape
        modify (Cursor.skipN n)
        return Char.ofNat code

/-- Takes characters of a quoted scalar up to a blank or the closing quote. The flag says that the
run ended with an escaped line break. -/
def quotedRun (quote : Char) (start : Mark) : Nat → String → Scan (String × Bool)
  | 0, text => return (text, false)
  | fuel + 1, text => do
    let c ← get
    match c.rest with
    | [] => return (text, false)
    | x :: rest =>
      if isGap x || isBreak x then return (text, false)
      else if quote == '\'' && x == '\'' && rest.head? == some '\'' then
        modify (Cursor.skipN 2)
        need 2
        quotedRun quote start fuel (text.push '\'')
      else if x == quote then return (text, false)
      else if quote == '"' && x == '\\' then
        if rest.head?.any isBreak then
          need 3
          skip
          modify Cursor.skipLine
          return (text, true)
        let y ← escape start
        need 2
        quotedRun quote start fuel (text.push y)
      else
        skip
        need 2
        quotedRun quote start fuel (text.push x)

/-- Takes the text of a quoted scalar behind its opening quote. -/
def quotedText (quote : Char) (start : Mark) : Nat → String → Scan String
  | 0, text => return text
  | fuel + 1, text => do
    need 4
    let c ← get
    if c.onDocumentMark '-' || c.onDocumentMark '.' then fail start .documentMarkInQuotes
    if c.rest.isEmpty then fail start .unclosedQuote
    let (text, escapedBreak) ← quotedRun quote start (c.length + 1) text
    need 1
    if (← get).at? quote then return text
    let b ← takeBlank start 0 (c.length + 1) { broken := escapedBreak }
    quotedText quote start fuel (text ++ b.text)

/-- Reads a quoted scalar. -/
def quoted (quote : Char) : Scan ScalarRead := do
  let c ← get
  skip
  let text ← quotedText quote c.mark (c.length + 1) ""
  skip
  let style := if quote == '\'' then ScalarStyle.single else .double
  return ⟨⟨.scalar text style, c.mark, (← get).mark⟩, false⟩

/-! ### Block scalars -/

/-- What happens to the line breaks at the end of a block scalar. -/
inductive Chomping where
  | strip | clip | keep
  deriving DecidableEq

/-- The chomping indicator. -/
def chomping? : Option Char → Option Chomping
  | some '+' => some .keep
  | some '-' => some .strip
  | _ => none

/-- Reads the indentation indicator, if there is one; zero stands for none. -/
def increment (start : Mark) : Scan Nat := do
  match (← get).head? with
  | some x =>
    if x == '0' then fail start .zeroIndentation
    else if x.isDigit then
      skip
      return Binary64.digitValue x
    else return 0
  | none => return 0

/-- Reads the chomping and the indentation indicator of a block scalar, in either order. -/
def indicators (start : Mark) : Scan (Chomping × Nat) := do
  need 1
  match chomping? (← get).head? with
  | some chomping =>
    skip
    need 1
    return (chomping, ← increment start)
  | none =>
    let n ← increment start
    if n = 0 then return (.clip, 0)
    need 1
    match chomping? (← get).head? with
    | some chomping =>
      skip
      return (chomping, n)
    | none => return (.clip, n)

/-- Reads the header of a block scalar after its mark: the indicators and the rest of the line. -/
def blockHeader (start : Mark) : Scan (Chomping × Nat) := do
  let found ← indicators start
  skipWhile isGap
  if (← get).at? '#' then
    lineComment
    skipWhile (!isBreak ·)
  let c ← get
  if !endsLine c.rest then fail start .blockHeaderEnd
  if c.onBreak then skipLine
  return found

/-- Passes the spaces of an indentation that is at most `indent` wide; zero means that there is no
bound. -/
def skipIndent (indent : Nat) : Nat → Scan Unit
  | 0 => pure ()
  | fuel + 1 => do
    let c ← get
    if (indent = 0 || c.mark.column < indent) && c.at? ' ' then
      skip
      need 1
      skipIndent indent fuel

/-- Passes the indentation and the empty lines before a line of a block scalar. Indentation zero
means that it is not known yet; then `widest` gathers the widest one seen. -/
def blockBreaks (start : Mark) (indent : Nat) : Nat → Nat → String → Scan (Nat × String)
  | 0, widest, breaks => return (widest, breaks)
  | fuel + 1, widest, breaks => do
    need 1
    skipIndent indent ((← get).length + 1)
    let c ← get
    let widest := max widest c.mark.column
    if (indent = 0 || c.mark.column < indent) && c.at? '\t' then fail start .tabInBlock
    if !c.onBreak then return (widest, breaks)
    let text ← takeBreak
    blockBreaks start indent fuel widest (breaks ++ text)

/-- Takes the lines of a block scalar. `pending` is the break after the last line, `breaks` are the
empty lines after it, `wasBlank` says that the last line started with a gap. -/
def blockLines (literal : Bool) (start : Mark) (indent : Nat) :
    Nat → String → String → String → Bool → Scan (String × String × String)
  | 0, text, pending, breaks, _ => return (text, pending, breaks)
  | fuel + 1, text, pending, breaks, wasBlank => do
    let c ← get
    if c.mark.column ≠ indent || c.rest.isEmpty then return (text, pending, breaks)
    let blank := c.onGap
    let joint :=
      if !literal && !wasBlank && !blank && pending == "\n" then (if breaks = "" then " " else "")
      else pending
    let line ← takeWhile (!isBreak ·)
    let after ← takeBreak
    let (_, next) ← blockBreaks start indent (c.length + 1) 0 ""
    blockLines literal start indent fuel (text ++ joint ++ breaks ++ line) after next blank

/-- Reads a block scalar. `level` is the indentation of the block around it. -/
def block (literal : Bool) (level : Int) : Scan ScalarRead := do
  let c ← get
  let fuel := c.length + 1
  skip
  let (chomping, n) ← blockHeader c.mark
  let given := if n = 0 then 0 else n + level.toNat
  let (widest, breaks) ← blockBreaks c.mark given fuel 0 ""
  let indent := if given ≠ 0 then given else max (max widest (level + 1).toNat) 1
  need 1
  let (text, pending, breaks) ← blockLines literal c.mark indent fuel "" "" breaks false
  let text := if chomping = .strip then text else text ++ pending
  let text := if chomping = .keep then text ++ breaks else text
  return ⟨⟨.scalar text (if literal then .literal else .folded), c.mark, (← get).mark⟩, false⟩

end Scan

end EffectTiming.Document
