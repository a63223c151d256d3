import EffectTiming.Document.Cursor

/-!
# Comments

A comment runs to the end of its line. The gaps in front of a comment, and between two comments also
the line breaks, are looked through only so far; what lies further ahead is left for later. A
character that is not allowed ends this search, too: it is noted, but the token at hand is still
read.

Comments on lines of their own belong to the token behind them, which they head, or to the token
before them, as its foot. Only the heads are kept.
-/

namespace EffectTiming.Document

/-- Comments in front of a token. -/
structure HeadComment where
  /-- The index at which the first of them starts. -/
  index : Nat
  /-- Their lines; an empty one stands for empty lines. -/
  lines : Array String

/-- What decides to which token comments belong. -/
structure CommentPlace where
  /-- The column of the innermost block. -/
  indent : Nat
  /-- The comments stand between brackets. -/
  flow : Bool
  /-- The line on which a comment has to start to be the foot of the token before it. -/
  footLine : Option Nat

/-- Comments that are being gathered. -/
structure CommentDraft where
  /-- The lines found so far. -/
  lines : Array String := #[]
  /-- Where the first of them starts. -/
  start : Mark := {}
  /-- The line of the next place that is looked at, as far as it is counted. -/
  line : Nat
  /-- No empty line was met so far. -/
  gapless : Bool
  /-- The place follows an empty line. -/
  afterEmpty : Bool := false

namespace CommentDraft

/-- The gathered comments turn out to be the foot of the token before them. -/
def drop (d : CommentDraft) : CommentDraft := { d with lines := #[] }

/-- A line ends without a comment. If it is the first one to do so, the comments in front of it may
be a foot; otherwise they continue behind the empty line. -/
def endLine (p : CommentPlace) (d : CommentDraft) (textEnds : Bool) : CommentDraft :=
  if d.afterEmpty then d
  else if d.gapless && (p.footLine == some d.start.line || d.start.column < p.indent) then d.drop
  else if d.lines.isEmpty || textEnds then d
  else { d with lines := d.lines.push "" }

/-- Something stands at a column that is not the column of the comments. -/
def meet (p : CommentPlace) (d : CommentDraft) (column : Nat) : CommentDraft :=
  if column < p.indent && column ≠ d.start.column then d.drop else d

/-- A comment starts. -/
def startAt (d : CommentDraft) (start : Mark) : CommentDraft :=
  { d with start := if d.lines.isEmpty then start else d.start, afterEmpty := false }

/-- The gathered comments as a head. -/
def head? (d : CommentDraft) : Option HeadComment :=
  if d.lines.isEmpty then none else some ⟨d.start.index, d.lines⟩

end CommentDraft

/-- A line break that is a single byte. -/
def isByteBreak (c : Char) : Bool := c == '\r' || c == '\n'

namespace Scan

/-- How far ahead a comment is looked for. -/
def commentReach : Nat := 512

/-- Widens the window for a search to `n` places, if that is possible. -/
def peekAhead (n : Nat) : Scan Bool := do
  let (c, good) := (← get).widen n
  set (if good then c else { c with noted := some (.unreadableAfter c.noted) })
  return good

/-! ### Comments on the line of a token -/

/-- Looks for a comment behind gaps, from the place `ahead` of the cursor on and at most `fuel`
places far. -/
def findLineComment : Nat → Nat → Scan (Option Nat)
  | 0, _ => return none
  | fuel + 1, ahead => do
    if !(← peekAhead (ahead + 1)) then return none
    match (← get).rest[ahead]? with
    | none => return none
    | some x =>
      if isGap x then findLineComment fuel (ahead + 1)
      else return if x == '#' then some ahead else none

/-- Passes everything up to the end of the line of the comment that starts at the given index, and
gives the comment. -/
def passComment (index : Nat) : Nat → String → Scan String
  | 0, text => return text
  | fuel + 1, text => do
    need 1
    let c ← get
    match c.rest with
    | [] => return text
    | x :: _ =>
      if isBreak x then
        if index ≤ c.mark.index then return text
        skipLine
        passComment index fuel text
      else
        skip
        passComment index fuel (if index ≤ c.mark.index then text.push x else text)

/-- Passes the comment that starts `ahead` of the cursor. -/
def passCommentAhead (ahead : Nat) : Scan String := do
  let c ← get
  passComment (c.mark.index + ahead) (c.length + 1) ""

/-- Passes a comment that follows on the same line, if there is one. -/
def lineComment : Scan Unit := do
  if (← get).newlines = 0 then
    match ← findLineComment commentReach 0 with
    | none => pure ()
    | some found =>
      let _ ← passCommentAhead found

/-! ### Comments on lines of their own -/

/-- Looks for a further comment from the place `ahead` of the cursor on, at most `fuel` places far,
and gives its place and column. In front of it there may be gaps and line breaks; but a line break
of several bytes ends the search, since the place behind it is `inside` it. -/
def findComment (p : CommentPlace) :
    Nat → Nat → Nat → Bool → CommentDraft → Scan (Option (Nat × Nat) × CommentDraft)
  | 0, _, _, _, d => return (none, d)
  | fuel + 1, ahead, column, inside, d => do
    if !(← peekAhead (ahead + 1)) then return (none, d)
    if inside then return (none, d.meet p column)
    match (← get).rest[ahead]? with
    | none => return (none, d.endLine p true)
    | some x =>
      if isGap x then findComment p fuel (ahead + 1) (column + 1) false d
      else if p.flow && (x == ']' || x == '}') then return (none, d.drop)
      else if isBreak x then
        let d := d.endLine p false
        findComment p fuel (ahead + 1) 0 (!isByteBreak x)
          { d with line := d.line + 1, gapless := false, afterEmpty := true }
      else
        let d := d.meet p column
        return (if x == '#' then some (ahead, column) else none, d)

/-- Passes comments with nothing but gaps and line breaks between them, the first of which starts no
nearer than `ahead` of the cursor. The end of the last line stays. -/
def passComments (p : CommentPlace) : Nat → Nat → Nat → Bool → CommentDraft → Scan CommentDraft
  | 0, _, _, _, d => return d
  | fuel + 1, ahead, column, inside, d => do
    match ← findComment p (commentReach - ahead) ahead column inside d with
    | (none, d) => return d
    | (some (found, column), d) =>
      let start : Mark := ⟨(← get).mark.index + found, d.line, column⟩
      let text ← passCommentAhead found
      let c ← get
      let d := d.startAt start
      passComments p fuel 1 0 (c.satisfies fun x => isBreak x && !isByteBreak x)
        { d with lines := d.lines.push text, line := c.mark.line }

/-- Passes the comment at the cursor and those that follow it, and gives them if they are the head
of the next token. The comments stand in a block at the column `indent` or between brackets;
`linked` says that there is a token before them to which they can belong. -/
def comments (indent : Nat) (flow linked : Bool) : Scan (Option HeadComment) := do
  let c ← get
  let footLine :=
    c.mark.line + 1 - c.newlines + (if c.newlines = 0 && 1 < c.mark.column then 1 else 0)
  let p : CommentPlace := ⟨indent, flow, if linked then some footLine else none⟩
  let d ← passComments p (c.length + 1) 0 c.mark.column false
    { line := c.mark.line, gapless := c.newlines ≤ 1 }
  return d.head?

end Scan

end EffectTiming.Document
