import EffectTiming.Document.Lexer.Scalar
import EffectTiming.Document.Lexer.Tag

/-!
# From characters to tokens

The lexer keeps the indentation of the open blocks and, for each open collection, the place of a
token that may turn out to be a key: only a colon on the same line decides that, and the tokens for
the key and for the mapping that it opens are then put in front of it.

A fault is noticed before the tokens in front of it are used: a token is handed out only together
with the two tokens after it, and only once it is settled whether it starts a key. `tokens` gives
the tokens that can be handed out, and the faults on the way to them: one fault may be passed over,
and the lexer goes on behind it.

Comments are handed out together with the first token behind them that does not merely end a block.

Closing a bracket settles the last possible key inside it; where there was none, it settles the
bracket itself. The bracket may then be handed out before the colon behind it is found, and the
tokens for the key come too late: they stand where the colon does.
-/

namespace EffectTiming.Document

/-- A token that may turn out to be a key. -/
structure PendingKey where
  /-- Nothing but a key can stand at this indentation. -/
  required : Bool
  /-- The position of the token among all tokens. -/
  number : Nat
  mark : Mark

/-- The possible key of the blocks or of an open bracket. -/
structure KeySlot where
  key : Option PendingKey := none
  /-- The number and the place of the last possible key, or else of the bracket. -/
  number : Nat := 0
  mark : Mark := {}

/-- The state of the lexer. -/
structure Lexer where
  cursor : Cursor
  /-- The tokens found so far. -/
  tokens : Array Token := #[]
  /-- How many tokens have been handed out. -/
  handed : Nat := 0
  /-- A key may start at the cursor. -/
  keyAllowed : Bool := true
  /-- The column of the innermost block, or `-1`. -/
  indent : Int := -1
  /-- The columns of the blocks around it, and how many they are. -/
  indents : List Int := []
  blockLevel : Nat := 0
  /-- The possible keys of the open brackets, the innermost one apart from those around it; the last
  one is that of the blocks. -/
  slot : KeySlot := {}
  outerSlots : List KeySlot := []
  /-- How many brackets are open. -/
  flowLevel : Nat := 0
  /-- The numbers of the tokens that are not handed out before it is settled whether they are keys,
  and how many brackets are around the slots that settle it. -/
  awaited : List (Nat × Nat) := []
  /-- The comments that are not handed out yet. -/
  heads : List HeadComment := []

namespace Lexer

/-- The slot inside as many brackets. -/
def slotInside? (level : Nat) (l : Lexer) : Option KeySlot :=
  if level ≤ l.flowLevel then (l.slot :: l.outerSlots)[l.flowLevel - level]? else none

/-- The innermost slot holds no key any more. -/
def clearKey (l : Lexer) : Lexer := { l with slot := { l.slot with key := none } }

/-- The slot inside as many brackets holds no key any more. -/
def clearInside (level : Nat) (l : Lexer) : Lexer :=
  if level = l.flowLevel then l.clearKey
  else
    { l with outerSlots := l.outerSlots.modify (l.flowLevel - level - 1) fun s =>
      { s with key := none } }

/-- The token with the given number need not wait any more. -/
def release (number : Nat) (l : Lexer) : Lexer :=
  { l with awaited := l.awaited.eraseP (·.1 == number) }

end Lexer

/-- Finding tokens. -/
abbrev Lexes := ExceptT Fault (StateM Lexer)

namespace Lexes

/-- Moves the cursor. -/
def scan {α : Type} (read : Scan α) : Lexes α := do
  let (result, cursor) := read.run.run (← get).cursor
  modify fun l => { l with cursor }
  liftExcept result

/-- The place of the cursor. -/
def mark : Lexes Mark := return (← get).cursor.mark

/-- A fault at the cursor that started at `start`. -/
def fail {α : Type} (start : Mark) (p : Problem) : Lexes α := do
  throw (.lexical start (← mark) p)

/-- The cursor stands between brackets. -/
def inFlow : Lexes Bool := return (← get).flowLevel != 0

/-- Says whether a key may start at the cursor. -/
def allowKey (allowed : Bool) : Lexes Unit := modify fun l => { l with keyAllowed := allowed }

/-- Adds a token. -/
def push (t : Token) : Lexes Unit := modify fun l => { l with tokens := l.tokens.push t }

/-- Puts a token in front of the one with the given number, or to the end if that one has been
handed out already. -/
def insert (number : Nat) (t : Token) : Lexes Unit :=
  modify fun l =>
    if number < l.handed then { l with tokens := l.tokens.push t }
    else
      { l with tokens := l.tokens.insertIdxIfInBounds number t }

/-- Passes `n` characters that form a token. -/
def consume (n : Nat) (body : TokenBody) : Lexes Unit := do
  let start ← mark
  scan (modify (Cursor.skipN n))
  push ⟨body, start, ← mark⟩

/-! ### Keys -/

/-- The token may still be a key: it stands on the line of the cursor and not far before it. -/
def stillPossible (k : PendingKey) : Lexes Bool := do
  let here ← mark
  return here.line ≤ k.mark.line && here.index ≤ k.mark.index + 1024

/-- Gives up the innermost possible key. It is a fault if nothing else can stand there. -/
def dropKey : Lexes Unit := do
  match (← get).slot.key with
  | none => pure ()
  | some k =>
    if k.required then fail k.mark .missingColon
    modify fun l => l.clearKey.release k.number

/-- Remembers that the next token may be a key. -/
def saveKey : Lexes Unit := do
  let l ← get
  if l.keyAllowed then
    dropKey
    let number := l.tokens.size
    let required := l.flowLevel == 0 && l.indent == l.cursor.mark.column
    modify fun l =>
      { l with
        slot := ⟨some ⟨required, number, l.cursor.mark⟩, number, l.cursor.mark⟩
        awaited := (number, l.flowLevel) :: l.awaited }

/-! ### Indentation -/

/-- Closes the blocks that are indented further than `column`. -/
def closeBlocks (column : Int) (mark : Mark) : List Int → Lexer → Lexer
  | [], l => l
  | outer :: rest, l =>
    if column < l.indent then
      closeBlocks column mark rest
        { l with
          indent := outer
          indents := rest
          blockLevel := l.blockLevel - 1
          tokens := l.tokens.push ⟨.blockEnd, mark, mark⟩ }
    else l

/-- Closes the blocks that are indented further than `column`; between brackets there are none. -/
def unroll (column : Int) (mark : Mark) : Lexes Unit := do
  if !(← inFlow) then modify fun l => closeBlocks column mark l.indents l

/-- Opens a block at `column` if it is indented further than the one around it. Its token goes in
front of the token with the given number, or to the end. -/
def roll (column : Nat) (number : Option Nat) (body : TokenBody) (mark : Mark) : Lexes Unit := do
  let l ← get
  if l.flowLevel = 0 && l.indent < (column : Int) then
    set { l with
      indents := l.indent :: l.indents
      blockLevel := l.blockLevel + 1
      indent := (column : Int) }
    if 10000 ≤ l.blockLevel then fail l.slot.mark .tooDeep
    match number with
    | some n => insert n ⟨body, mark, mark⟩
    | none => push ⟨body, mark, mark⟩

/-! ### Tokens -/

/-- The last token can have comments below it: it is not a colon. A comma counts with the token
before it. -/
def lastTakesFoot : Lexes Bool := do
  let ts := (← get).tokens
  let last := ts.back?.map Token.body
  return (if last == some .flowEntry && 1 < ts.size then (ts[ts.size - 2]?).map Token.body
    else last) != some .value

/-- Passes comments on lines of their own, and keeps those that head the next token. The last token
stops on a line before `before`, unless that is the first line. -/
def comments (before : Mark) : Lexes Unit := do
  let l ← get
  let linked := before.line ≠ 0 && (← lastTakesFoot)
  match ← scan (Scan.comments l.indent.toNat (l.flowLevel != 0) linked) with
  | none => pure ()
  | some head => modify fun l => { l with heads := l.heads ++ [head] }

/-- Passes blanks, line breaks and comments up to the next token. A tab is a blank only where no key
may start. -/
def toNextToken (before : Mark) : Nat → Lexes Unit
  | 0 => pure ()
  | fuel + 1 => do
    let flow ← inFlow
    let tabs := flow || !(← get).keyAllowed
    scan do
      Scan.need 1
      let c ← get
      if c.mark.column == 0 && c.marked then Scan.skip
      Scan.skipWhile (fun x => x == ' ' || (tabs && x == '\t'))
    if (← get).cursor.at? '#' then comments before
    if (← get).cursor.onBreak then
      scan Scan.skipLine
      if !flow then allowKey true
      toNextToken before fuel

/-- The end of the document text. -/
def streamEnd : Lexes Unit := do
  let c := (← get).cursor
  let mark := if c.mark.column == 0 then c.mark else ⟨c.mark.index, c.mark.line + 1, 0⟩
  modify fun l => { l with cursor := { c with mark } }
  unroll (-1) mark
  dropKey
  allowKey false
  push ⟨.streamEnd, mark, mark⟩

/-- A directive. -/
def directive : Lexes Unit := do
  unroll (-1) (← mark)
  dropKey
  allowKey false
  push (← scan Scan.directive)

/-- The start or the end of a document. -/
def documentMark (body : TokenBody) : Lexes Unit := do
  unroll (-1) (← mark)
  dropKey
  allowKey false
  consume 3 body

/-- An opening bracket. -/
def openFlow (body : TokenBody) : Lexes Unit := do
  saveKey
  modify fun l =>
    { l with
      slot := { number := l.tokens.size, mark := l.cursor.mark }
      outerSlots := l.slot :: l.outerSlots
      flowLevel := l.flowLevel + 1 }
  if 10000 < (← get).flowLevel then fail (← mark) .tooDeep
  allowKey true
  consume 1 body

/-- Leaves the innermost bracket. -/
def leaveFlow : Lexes Unit :=
  modify fun l =>
    match l.outerSlots with
    | [] => l
    | outer :: rest =>
      { l.release l.slot.number with
        slot := outer, outerSlots := rest, flowLevel := l.flowLevel - 1 }

/-- A closing bracket. -/
def closeFlow (body : TokenBody) : Lexes Unit := do
  dropKey
  leaveFlow
  allowKey false
  consume 1 body

/-- A comma between brackets. -/
def flowEntry : Lexes Unit := do
  dropKey
  allowKey true
  consume 1 .flowEntry

/-- Opens a block at the cursor unless it stands between brackets. -/
def openBlock (body : TokenBody) (problem : Problem) : Lexes Unit := do
  let l ← get
  let here := l.cursor.mark
  if l.flowLevel = 0 then
    if !l.keyAllowed then fail here problem
    roll here.column none body here

/-- A dash in front of an entry. -/
def blockEntry : Lexes Unit := do
  openBlock .blockSequenceStart .entryNotAllowed
  dropKey
  allowKey true
  consume 1 .blockEntry

/-- A question mark in front of a key. -/
def explicitKey : Lexes Unit := do
  openBlock .blockMappingStart .keyNotAllowed
  dropKey
  allowKey !(← inFlow)
  consume 1 .key

/-- The key in front of a colon, if the pending token is one. -/
def settledKey : Lexes (Option PendingKey) := do
  match (← get).slot.key with
  | none => return none
  | some k =>
    if ← stillPossible k then return some k
    if k.required then fail k.mark .missingColon
    return none

/-- A colon in front of a value. -/
def valueMark : Lexes Unit := do
  match ← settledKey with
  | some k =>
    insert k.number ⟨.key, k.mark, k.mark⟩
    roll k.mark.column (some k.number) .blockMappingStart k.mark
    modify fun l => l.clearKey.release k.number
    allowKey false
  | none =>
    modify Lexer.clearKey
    openBlock .blockMappingStart .valueNotAllowed
    allowKey !(← inFlow)
  consume 1 .value

/-- A token that is read by its own function and may be a key. -/
def keyLike (read : Scan Token) : Lexes Unit := do
  saveKey
  allowKey false
  push (← scan read)

/-- A plain or quoted scalar. -/
def flowScalar (read : Scan ScalarRead) : Lexes Unit := do
  saveKey
  allowKey false
  let r ← scan read
  allowKey r.newLine
  push r.token

/-- A block scalar. -/
def blockScalar (literal : Bool) : Lexes Unit := do
  dropKey
  allowKey true
  let r ← scan (Scan.block literal (← get).indent)
  push r.token

/-- A plain scalar may start with this text. -/
def startsPlain (flow : Bool) : List Char → Bool
  | [] => false
  | x :: rest =>
    !(isGap x || isBreak x || "-?:,[]\x7b\x7d#&*!|>'\"%@`".toList.contains x) ||
      (x == '-' && !(match rest with | [] => false | y :: _ => isGap y)) ||
      (!flow && (x == '?' || x == ':') && !endsWord rest)

/-- The token that starts with the character `x` at the cursor. -/
def tokenAt (x : Char) (rest : List Char) : Lexes Unit := do
  let flow ← inFlow
  if x == '[' then openFlow .flowSequenceStart
  else if x == '{' then openFlow .flowMappingStart
  else if x == ']' then closeFlow .flowSequenceEnd
  else if x == '}' then closeFlow .flowMappingEnd
  else if x == ',' then flowEntry
  else if x == '-' && endsWord rest then blockEntry
  else if x == '?' && (flow || endsWord rest) then explicitKey
  else if x == ':' && (flow || endsWord rest) then valueMark
  else if x == '*' then keyLike (Scan.anchor .alias)
  else if x == '&' then keyLike (Scan.anchor .anchor)
  else if x == '!' then keyLike Scan.tag
  else if x == '|' && !flow then blockScalar true
  else if x == '>' && !flow then blockScalar false
  else if x == '\'' || x == '"' then flowScalar (Scan.quoted x)
  else if startsPlain flow (x :: rest) then
    flowScalar (Scan.plain flow ((← get).indent + 1).toNat)
  else fail (← mark) .cannotStartToken

/-- A comment may follow a token on its line, unless the token is a dash. -/
def afterToken : Lexes Unit := do
  match (← get).tokens.back? with
  | some ⟨.blockEntry, _, _⟩ => pure ()
  | _ => scan Scan.lineComment

/-- Finds the next token. After the end of the text there are only further ends. -/
def fetch : Lexes Unit := do
  scan (Scan.need 1)
  if (← get).tokens.isEmpty then consume 0 .streamStart
  else
    let before ← mark
    toNextToken before ((← get).cursor.length + 1)
    unroll (← mark).column before
    scan (Scan.need 4)
    let c := (← get).cursor
    match c.rest with
    | [] => streamEnd
    | x :: rest =>
      if c.mark.column == 0 && x == '%' then directive
      else if c.onDocumentMark '-' then documentMark .documentStart
      else if c.onDocumentMark '.' then documentMark .documentEnd
      else
        tokenAt x rest
        afterToken

/-- The next token has to wait until it is settled whether it is a key. A key that has become
impossible is cleared, but its token stays awaited: it waits for later keys of the same slot,
too. -/
def waits : Lexes Bool := do
  let l ← get
  match l.awaited.lookup l.handed with
  | none => return false
  | some level =>
    match l.slotInside? level with
    | some ⟨some k, _, _⟩ =>
      if ← stillPossible k then return true
      if k.required then fail k.mark .missingColon
      modify (Lexer.clearInside level)
      return false
    | _ => return false

/-- Finds tokens until the next one can be handed out. -/
def settle : Nat → Lexes Unit
  | 0 => pure ()
  | fuel + 1 => do
    let l ← get
    let wanted ← if l.tokens.size < l.handed + 3 then pure true else waits
    if wanted then
      fetch
      settle fuel

/-- Hands out the next token. -/
def hand : Lexes (Option Token) := do
  settle ((← get).cursor.length + 8)
  let l ← get
  set { l with handed := l.handed + 1 }
  return l.tokens[l.handed]?

end Lexes

/-- Takes the comments in front of a token out of those that are kept. The end of a block has
none. -/
def Lexer.headsOf (t : Token) (l : Lexer) : List HeadComment × Lexer :=
  if t.body = .blockEnd then ([], l)
  else
    let (found, rest) := l.heads.span (·.index ≤ t.start.index)
    (found, { l with heads := rest })

/-- What the lexer gives next. -/
structure Handed where
  /-- A token, or the fault that was met on the way to it. -/
  token : Except Fault Token
  /-- The comments in front of the token. -/
  heads : List HeadComment := []
  /-- The last fault met so far that did not end the reading. -/
  noted : Option Fault := none

/-- What a lexer gives, with at most so many faults in it. -/
def handedFrom : Nat → Nat → Lexer → List Handed
  | 0, _, _ => []
  | _, 0, _ => []
  | fuel + 1, faults + 1, l =>
    match Lexes.hand.run.run l with
    | (.error e, l) =>
      { token := .error e, noted := l.cursor.noted } ::
        handedFrom fuel faults { l with cursor := { l.cursor with noted := some e } }
    | (.ok none, _) => []
    | (.ok (some t), l) =>
      let (heads, l) := l.headsOf t
      let noted := l.cursor.noted
      { token := .ok t, heads, noted } ::
        if t.body = .streamEnd then [] else handedFrom fuel (faults + 1) l

/-- What the lexer gives for a text. A second fault is always the last one. -/
def tokens (text : List Char) : List Handed :=
  handedFrom (4 * text.length + 16) 2 { cursor := .ofText text }

end EffectTiming.Document
