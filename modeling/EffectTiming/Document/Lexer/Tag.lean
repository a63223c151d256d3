import EffectTiming.Binary64.Numeral
import EffectTiming.Document.Cursor
import EffectTiming.Document.Token
import EffectTiming.Text.Raw

/-!
# Anchors, tags and directives

The tokens that start with `&`, `*`, `!` or, at the start of a line, with `%`.
-/

namespace EffectTiming.Document.Scan

/-- Reads an anchor or an alias: a name, and then a blank or one of a few indicators. -/
def anchor (body : String → TokenBody) : Scan Token := do
  let start := (← get).mark
  skip
  let name ← takeWhile isNameChar
  let c ← get
  let closed := endsWord c.rest || c.satisfies "?:,]\x7d%@`".toList.contains
  if name = "" || !closed then fail start .anchorName
  return ⟨body name, start, c.mark⟩

/-! ### Tags -/

/-- A character of a tag. -/
def isTagChar (c : Char) : Bool := isNameChar c || ";/?:@&=+$,.!~*'()[]%".toList.contains c

/-- The number of bytes of a character that starts with the given byte; none for an inner byte. -/
def leadWidth? (byte : Nat) : Option Nat :=
  if byte < 0x80 then some 1
  else if byte / 32 = 6 then some 2
  else if byte / 16 = 14 then some 3
  else if byte / 8 = 30 then some 4
  else none

/-- Reads one byte written as a percent sign and two digits in base sixteen. -/
def escapedByte? : List Char → Option Nat
  | '%' :: a :: b :: _ =>
    match Binary64.hexValue? a, Binary64.hexValue? b with
    | some x, some y => some (16 * x + y)
    | _, _ => none
  | _ => none

/-- Takes one escaped byte that satisfies `p`. -/
def escapedByte (start : Mark) (p : Nat → Bool) (problem : Problem) : Scan Nat := do
  need 3
  match escapedByte? (← get).rest with
  | none => fail start .tagEscape
  | some byte =>
    if !p byte then fail start problem
    modify (Cursor.skipN 3)
    return byte

/-- Takes the further bytes of an escaped character. -/
def escapedTail (start : Mark) : Nat → Scan (List Nat)
  | 0 => return []
  | n + 1 => do
    let byte ← escapedByte start (· / 64 = 2) .tagEscapeTrail
    return byte :: (← escapedTail start n)

/-- Takes the bytes of an escaped character. They need not be the shortest form of one. -/
def escapedChar (start : Mark) : Scan (List Nat) := do
  let byte ← escapedByte start (fun b => (leadWidth? b).isSome) .tagEscapeStart
  return byte :: (← escapedTail start ((leadWidth? byte).getD 1 - 1))

/-- Takes the characters of a tag, as bytes. -/
def tagBytes (start : Mark) : Nat → List Nat → Scan (List Nat)
  | 0, bytes => return bytes
  | fuel + 1, bytes => do
    match (← get).head? with
    | none => return bytes
    | some x =>
      if x == '%' then
        let more ← escapedChar start
        need 1
        tagBytes start fuel (bytes ++ more)
      else if isTagChar x then
        skip
        need 1
        tagBytes start fuel (bytes ++ [x.toNat])
      else return bytes

/-- Takes the characters of a tag behind the part that is known already. Without such a part there
has to be at least one. -/
def tagText (start : Mark) (known : Option String) : Scan String := do
  need 1
  let c ← get
  let bytes ← tagBytes start (c.length + 1) (Text.bytes (known.getD ""))
  if known.isNone && (← get).mark.index = c.mark.index then fail start .tagUri
  return (RawText.ofBytes bytes).text

/-- Reads a tag handle: an exclamation mark, a name, and perhaps another exclamation mark. A handle
by itself has to end with one. -/
def tagHandle (start : Mark) (whole : Bool) : Scan String := do
  need 1
  if !(← get).at? '!' then fail start .tagMark
  skip
  let name ← takeWhile isNameChar
  if (← get).at? '!' then
    skip
    return "!" ++ name ++ "!"
  if whole && name ≠ "" then fail start .tagMark
  return "!" ++ name

/-- The handle and the suffix of a tag. A tag without a handle of its own has the primary handle,
except for the bare exclamation mark. -/
def tagParts (start : Mark) : Scan (String × String) := do
  need 2
  if (← get).next? '<' then
    modify (Cursor.skipN 2)
    let suffix ← tagText start none
    if !(← get).at? '>' then fail start .tagClose
    skip
    return ("", suffix)
  let handle ← tagHandle start false
  if 1 < handle.length && handle.endsWith "!" then return (handle, ← tagText start none)
  let suffix ← tagText start (some (handle.drop 1).toString)
  return if suffix = "" then ("", "!") else ("!", suffix)

/-- Reads a tag. -/
def tag : Scan Token := do
  let start := (← get).mark
  let (handle, suffix) ← tagParts start
  need 1
  let c ← get
  if !endsWord c.rest then fail start .tagEnd
  return ⟨.tag handle suffix, start, c.mark⟩

/-! ### Directives -/

/-- Takes the digits of a version number, of which `count` have been taken. -/
def versionDigits (start : Mark) : Nat → Nat → Nat → Scan (Nat × Nat)
  | 0, count, n => return (count, n)
  | fuel + 1, count, n => do
    match (← get).head? with
    | some x =>
      if !x.isDigit then return (count, n)
      if count = 2 then fail start .longVersion
      skip
      need 1
      versionDigits start fuel (count + 1) (10 * n + Binary64.digitValue x)
    | none => return (count, n)

/-- Reads a version number of at most two digits. -/
def versionNumber (start : Mark) : Scan Nat := do
  need 1
  let (count, n) ← versionDigits start 3 0 0
  if count = 0 then fail start .versionNumber
  return n

/-- Reads what follows the name of a version directive. -/
def versionDirective (start : Mark) : Scan TokenBody := do
  skipWhile isGap
  let major ← versionNumber start
  if !(← get).at? '.' then fail start .versionPoint
  skip
  return .version major (← versionNumber start)

/-- Reads what follows the name of a tag directive: a handle and what it stands for. -/
def tagDirective (start : Mark) : Scan TokenBody := do
  skipWhile isGap
  let handle ← tagHandle start true
  need 1
  if !(← get).onGap then fail start .tagSpace
  skipWhile isGap
  let stem ← tagText start none
  need 1
  if !endsWord (← get).rest then fail start .tagEnd
  return .tagDirective handle stem

/-- Reads a directive with the rest of its line. -/
def directive : Scan Token := do
  let start := (← get).mark
  skip
  let name ← takeWhile isNameChar
  if name = "" then fail start .directiveName
  if !endsWord (← get).rest then fail start .directiveCharacter
  let body ←
    if name = "YAML" then versionDirective start
    else if name = "TAG" then tagDirective start
    else fail start .unknownDirective
  let stop := (← get).mark
  skipWhile isGap
  if (← get).at? '#' then skipWhile (!isBreak ·)
  let c ← get
  if !endsLine c.rest then fail start .directiveEnd
  if c.onBreak then skipLine
  return ⟨body, start, stop⟩

end EffectTiming.Document.Scan
