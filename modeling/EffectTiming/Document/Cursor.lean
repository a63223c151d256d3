import EffectTiming.Document.Fault

/-!
# Reading positions

A document arrives in blocks of 512 bytes, and its characters are checked when their block arrives.
A cursor is the rest of the document together with the window that holds what has arrived of it:
`need` lets further blocks in until the window is wide enough. Past the end of the document every
further look widens the window by one empty place.

The window moves up to the cursor whenever a block arrives. As long as it starts with a byte order
mark, the first character of every line is passed over.

A fault does not undo what was read up to it: reading can go on behind it.
-/

namespace EffectTiming.Document

/-- The number of bytes of a block. -/
def blockBytes : Nat := 512

/-- The rest of a document, where it starts, and how many lines ended since the last character that
is not a gap. -/
structure Cursor where
  rest : List Char
  /-- The number of characters of the whole document, which bounds every loop over it. -/
  length : Nat
  mark : Mark := {}
  newlines : Nat := 0
  /-- How many places the window still holds. -/
  held : Nat := 0
  /-- The window starts with a byte order mark. -/
  marked : Bool := false
  /-- How many bytes the next block may have. -/
  room : Nat := blockBytes
  /-- A fault that was met but does not end the reading yet. -/
  noted : Option Fault := none

namespace Cursor

/-- The next character. -/
def head? (c : Cursor) : Option Char := c.rest.head?

/-- The next character is `x`. -/
def at? (c : Cursor) (x : Char) : Bool := c.rest.head? == some x

/-- The character after the next one is `x`. -/
def next? (c : Cursor) (x : Char) : Bool := c.rest[1]? == some x

/-- The next character satisfies `p`. -/
def satisfies (c : Cursor) (p : Char → Bool) : Bool :=
  match c.rest with
  | [] => false
  | x :: _ => p x

/-- A line ends here. -/
def onBreak (c : Cursor) : Bool := c.satisfies isBreak

/-- A gap stands here. -/
def onGap (c : Cursor) : Bool := c.satisfies isGap

/-- Three equal characters stand at the start of a line, and nothing follows them directly. -/
def onDocumentMark (c : Cursor) (x : Char) : Bool :=
  c.mark.column == 0 &&
    match c.rest with
    | a :: b :: d :: rest => a == x && b == x && d == x && endsWord rest
    | _ => false

/-- The text of the line break at the cursor: separators of Unicode stay, all others become a line
feed. -/
def breakText (c : Cursor) : String :=
  match c.rest with
  | [] => ""
  | x :: _ =>
    if x == '\u2028' || x == '\u2029' then String.singleton x else if isBreak x then "\n" else ""

/-! ### Moving on -/

/-- Passes one place of a line. -/
def skip (c : Cursor) : Cursor :=
  { c with
    rest := c.rest.tail
    mark := { c.mark with index := c.mark.index + 1, column := c.mark.column + 1 }
    newlines := if c.onGap then c.newlines else 0
    held := c.held - 1 }

/-- Passes as many places of a line. -/
def skipN : Nat → Cursor → Cursor
  | 0, c => c
  | n + 1, c => skipN n c.skip

/-- Passes a line break; a carriage return and the line feed after it are one. -/
def skipLine (c : Cursor) : Cursor :=
  let passed (n : Nat) (rest : List Char) : Cursor :=
    { c with
      rest
      mark := ⟨c.mark.index + n, c.mark.line + 1, 0⟩
      newlines := c.newlines + 1
      held := c.held - n }
  match c.rest with
  | '\r' :: '\n' :: rest => passed 2 rest
  | x :: rest => if isBreak x then passed 1 rest else c
  | [] => c

/-! ### The window -/

/-- How many of the characters fit into a block. -/
def fitting : Nat → List Char → Nat
  | _, [] => 0
  | room, c :: cs => if c.utf8Size ≤ room then fitting (room - c.utf8Size) cs + 1 else 0

/-- Lets blocks in until the window holds `n` places or the document has ended; at most `fuel`
blocks. The flag says that all their characters are allowed; otherwise the window ends before the
first that is not. -/
def fill (n : Nat) : Nat → Cursor → Cursor × Bool
  | 0, c => (c, true)
  | fuel + 1, c =>
    if n ≤ c.held then (c, true)
    else
      match c.rest.drop c.held with
      | [] => ({ c with held := c.held + 1 }, true)
      | waiting =>
        let block := waiting.take (fitting c.room waiting)
        let good := (block.takeWhile isAllowed).length
        let c := { c with held := c.held + good, room := blockBytes }
        if good = block.length then fill n fuel c else (c, false)

/-- Widens the window to `n` places. If that takes a block, the window moves up to the cursor. -/
def widen (n : Nat) (c : Cursor) : Cursor × Bool :=
  if n ≤ c.held then (c, true) else fill n n { c with marked := c.at? byteOrderMark }

/-- The cursor at the start of a document. A byte order mark at the very start does not count,
though it takes up room in the first block. -/
def ofText (text : List Char) : Cursor :=
  let length := text.length
  if text.head? == some byteOrderMark then { rest := text.tail, length, room := blockBytes - 3 }
  else { rest := text, length }

end Cursor

/-! ### Scanning -/

/-- Reading that moves a cursor. -/
abbrev Scan := ExceptT Fault (StateM Cursor)

namespace Scan

/-- Makes sure that the window holds `n` places. -/
def need (n : Nat) : Scan Unit := do
  let (c, good) := (← get).widen n
  set c
  if !good then throw (.unreadableAfter c.noted)

/-- A fault at the cursor that started at `start`. -/
def fail {α : Type} (start : Mark) (p : Problem) : Scan α := do
  throw (.lexical start (← get).mark p)

/-- Passes one place of a line. -/
def skip : Scan Unit := modify Cursor.skip

/-- Passes a line break that may take two characters. -/
def skipLine : Scan Unit := do
  need 2
  modify Cursor.skipLine

/-- Passes a line break and gives its text. -/
def takeBreak : Scan String := do
  need 2
  let text := (← get).breakText
  modify Cursor.skipLine
  return text

/-- Takes characters as long as they satisfy `p`, at most `fuel` of them. -/
def takeUpTo (p : Char → Bool) : Nat → String → Scan String
  | 0, text => return text
  | fuel + 1, text => do
    match (← get).rest with
    | x :: _ =>
      if p x then
        skip
        need 1
        takeUpTo p fuel (text.push x)
      else return text
    | [] => return text

/-- Takes the characters at the cursor that satisfy `p`. -/
def takeWhile (p : Char → Bool) : Scan String := do
  need 1
  takeUpTo p (← get).length ""

/-- Passes the characters at the cursor that satisfy `p`. -/
def skipWhile (p : Char → Bool) : Scan Unit := do
  let _ ← takeWhile p

end Scan

end EffectTiming.Document
