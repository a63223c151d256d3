import EffectTiming.Document.Lexer
import EffectTiming.Document.Node

/-!
# From tokens to nodes

A document is read from its tokens one after another. A fault of the tokens counts once all tokens
in front of it are used up, so the first fault of a document is the one that is reported. A fault
that was only noted on the way to a token counts as soon as a step of the reading is complete: a
scalar, an alias, the start or the end of a collection or of the document.

Comments gather in front of the next scalar, alias or bracket, which takes them. Comments in front
of a dash belong to what follows the dash: if that is a block of its own, they are taken by that
block. To find out, the token behind the dash is looked at twice, and a fault met at the first look
is only noted.
-/

namespace EffectTiming.Document

/-- What is left to read, and what is known of the nodes read so far. -/
structure Feed where
  /-- The tokens that are left, and the faults between them. -/
  tokens : List Handed
  /-- The last fault met on the way to the tokens seen so far that did not end the reading. -/
  noted : Option Fault := none
  /-- The lines of the comments that no node has taken so far; an empty one stands for empty
  lines. -/
  head : Array String := #[]
  /-- What the tag handles stand for. -/
  handles : List (String × String) := []
  /-- The numbers of the anchors, the latest first. -/
  anchors : List (String × Nat) := []
  /-- The nodes with anchors that are read to their end. -/
  anchored : List (Nat × Node) := []
  /-- How many aliases there are so far. -/
  aliases : Nat := 0

/-- Reading with a feed. -/
abbrev Reads (α : Type) := StateT Feed (Except Fault) α

/-- The next token. The comments in front of it are gathered when it is seen first. -/
def peek : Reads Token := do
  let feed ← get
  match feed.tokens with
  | [] => return ⟨.streamEnd, {}, {}⟩
  | ⟨.error fault, _, _⟩ :: _ => throw fault
  | ⟨.ok t, heads, noted⟩ :: rest =>
    set { feed with
      tokens := ⟨.ok t, [], noted⟩ :: rest
      noted
      head := feed.head ++ (heads.map HeadComment.lines).toArray.flatten }
    return t

/-- Passes the next token. -/
def advance : Reads Unit := modify fun feed => { feed with tokens := feed.tokens.tail }

/-- A step of the reading is complete. -/
def complete : Reads Unit := do
  match (← get).noted with
  | some fault => throw fault
  | none => pure ()

/-- A step of the reading is complete, and what was read takes the comments in front of it. -/
def completeWithHead : Reads Unit := do
  complete
  modify fun feed => { feed with head := #[] }

/-- Passes the next token and gives the one after it. -/
def next : Reads Token := do
  advance
  peek

/-- The token starts a block. -/
def Token.opensBlock (t : Token) : Bool :=
  t.body == .blockSequenceStart || t.body == .blockMappingStart

/-- Passes a dash. A block behind it takes the comments in front of the dash. -/
def passDash : Reads Unit := do
  let size := (← get).head.size
  advance
  if size ≠ 0 then
    match (← get).tokens with
    | ⟨.error fault, _, _⟩ :: rest =>
      modify fun feed => { feed with tokens := rest, noted := some fault }
    | _ =>
      if (← peek).opensBlock then
        modify fun feed => { feed with head := feed.head.extract size feed.head.size }

/-- Refuses the next token. -/
def refuse {α : Type} (start : Mark) (t : Token) (p : Problem) : Reads α :=
  throw (.grammatical start t.start p)

/-- The line of a mark, counted from one. -/
def Mark.number (m : Mark) : Nat := m.line + 1

/-! ### Properties -/

/-- The anchor and the tag in front of a node. -/
structure Properties where
  start : Mark
  anchor : Option String := none
  tag : String := ""

/-- The tag of a core type is written with two exclamation marks. -/
def shortTag (tag : String) : String :=
  let stem := "tag:yaml.org,2002:"
  if tag.startsWith stem then "!!" ++ (tag.drop stem.length).toString else tag

/-- The tag with a handle and a suffix. -/
def resolveTag (start : Mark) (t : Token) (handle suffix : String) : Reads String := do
  if handle = "" then return suffix
  match (← get).handles.lookup handle with
  | some stem => return stem ++ suffix
  | none => refuse start t .undefinedHandle

/-- Reads the anchor and the tag in front of a node, in either order. -/
def readProperties : Reads Properties := do
  let t ← peek
  match t.body with
  | .anchor name =>
    let u ← next
    match u.body with
    | .tag handle suffix =>
      let _ ← next
      return ⟨t.start, some name, ← resolveTag t.start u handle suffix⟩
    | _ => return ⟨t.start, some name, ""⟩
  | .tag handle suffix =>
    let u ← next
    match u.body with
    | .anchor name =>
      let _ ← next
      return ⟨t.start, some name, ← resolveTag t.start t handle suffix⟩
    | _ => return ⟨t.start, none, ← resolveTag t.start t handle suffix⟩
  | _ => return { start := t.start }

/-- The tag of a node: the given one, or that of its kind. -/
def Properties.tagOr (p : Properties) (tag : String) : String :=
  if p.tag = "" || p.tag = "!" then tag else shortTag p.tag

/-- The tag of a scalar that has none of its own. Only a plain scalar can stand for anything but
itself. -/
def scalarTag (text : String) (style : ScalarStyle) : String :=
  if style ≠ .plain then "!!str"
  else if text = "<<" then "!!merge"
  else (plainValue true text).tag

/-- Gives the next number to an anchor. -/
def nameAnchor : Option String → Reads (Option Nat)
  | none => return none
  | some name => do
    let number := (← get).anchors.length
    modify fun feed => { feed with anchors := (name, number) :: feed.anchors }
    return some number

/-- Keeps a node under the number of its anchor. -/
def keepAnchored (number : Option Nat) (node : Node) : Reads Node := do
  match number with
  | some n => modify fun feed => { feed with anchored := (n, node) :: feed.anchored }
  | none => pure ()
  return node

/-- The node that an alias stands for has to be known. -/
def readAlias (t : Token) (name : String) : Reads Node := do
  advance
  completeWithHead
  let feed ← get
  match feed.anchors.lookup name with
  | some target =>
    set { feed with aliases := feed.aliases + 1 }
    return .alias t.start.number name target feed.aliases
  | none => throw (.unknownAnchor name)

/-- The scalar without text in a place where nothing stands. -/
def readNothing (line : Nat) : Reads Node := do
  complete
  return .empty line

/-- Passes the token that ends a block sequence. -/
def readSequenceEnd : Reads (List Node) := do
  advance
  complete
  return []

/-- Passes the token that ends any other collection. -/
def readEnd {α : Type} : Reads (List α) := do
  advance
  completeWithHead
  return []

/-! ### Nodes -/

/-- None of the given tokens comes next. -/
def Token.isNone (t : Token) (bodies : List TokenBody) : Bool := !bodies.contains t.body

mutual

/-- Reads a node. Between brackets it cannot be a block; a value of a block mapping may be a
sequence that is not indented. -/
def readNode (block indentless : Bool) : Nat → Reads Node
  | 0 => do refuse {} (← peek) .nodeContent
  | fuel + 1 => do
    let t ← peek
    match t.body with
    | .alias name => readAlias t name
    | _ =>
      let p ← readProperties
      let number ← nameAnchor p.anchor
      let node ← readContent block indentless p fuel
      keepAnchored number node

/-- Reads what follows the properties of a node. -/
def readContent (block indentless : Bool) (p : Properties) : Nat → Reads Node
  | 0 => do refuse p.start (← peek) .nodeContent
  | fuel + 1 => do
    let t ← peek
    let line := p.start.number
    let absent : Reads Node := do
      if p.anchor.isNone && p.tag = "" then refuse p.start t .nodeContent
      complete
      return .scalar line (p.tagOr "!!null") ""
    match t.body with
    | .blockEntry =>
      if indentless then
        complete
        return .sequence line (p.tagOr "!!seq") (← readDashes fuel)
      else absent
    | .scalar text style =>
      advance
      completeWithHead
      return .scalar line (p.tagOr (scalarTag text style)) text
    | .flowSequenceStart =>
      completeWithHead
      advance
      return .sequence line (p.tagOr "!!seq") (← readFlowItems t.start true fuel)
    | .flowMappingStart =>
      completeWithHead
      advance
      return .mapping line (p.tagOr "!!map") (← readFlowEntries t.start true fuel)
    | .blockSequenceStart =>
      if block then
        complete
        advance
        return .sequence line (p.tagOr "!!seq") (← readItems t.start fuel)
      else absent
    | .blockMappingStart =>
      if block then
        complete
        advance
        return .mapping line (p.tagOr "!!map") (← readEntries t.start fuel)
      else absent
    | _ => absent

/-- Reads the items of a block sequence. -/
def readItems (start : Mark) : Nat → Reads (List Node)
  | 0 => do refuse start (← peek) .dash
  | fuel + 1 => do
    let t ← peek
    match t.body with
    | .blockEntry =>
      passDash
      let u ← peek
      let item ←
        if u.isNone [.blockEntry, .blockEnd] then readNode true false fuel
        else readNothing t.stop.number
      return item :: (← readItems start fuel)
    | .blockEnd => readSequenceEnd
    | _ => refuse start t .dash

/-- Reads the items of a sequence that is not indented. -/
def readDashes : Nat → Reads (List Node)
  | 0 => return []
  | fuel + 1 => do
    let t ← peek
    match t.body with
    | .blockEntry =>
      passDash
      let u ← peek
      let item ←
        if u.isNone [.blockEntry, .key, .value, .blockEnd] then readNode true false fuel
        else readNothing t.stop.number
      return item :: (← readDashes fuel)
    | _ =>
      complete
      return []

/-- Reads the entries of a block mapping. -/
def readEntries (start : Mark) : Nat → Reads (List (Node × Node))
  | 0 => do refuse start (← peek) .key
  | fuel + 1 => do
    let t ← peek
    match t.body with
    | .key =>
      let u ← next
      let key ←
        if u.isNone [.key, .value, .blockEnd] then readNode true true fuel
        else readNothing t.stop.number
      let value ← readBlockValue fuel
      return (key, value) :: (← readEntries start fuel)
    | .blockEnd => readEnd
    | _ => refuse start t .key

/-- Reads the value of an entry of a block mapping. -/
def readBlockValue : Nat → Reads Node
  | 0 => do refuse {} (← peek) .nodeContent
  | fuel + 1 => do
    let t ← peek
    match t.body with
    | .value =>
      let u ← next
      if u.isNone [.key, .value, .blockEnd] then readNode true true fuel
      else readNothing t.stop.number
    | _ => readNothing t.start.number

/-- Reads the items of a flow sequence; before every item but the first there is a comma. -/
def readFlowItems (start : Mark) (first : Bool) : Nat → Reads (List Node)
  | 0 => do refuse start (← peek) .sequenceComma
  | fuel + 1 => do
    let t ← peek
    let t ←
      if first || t.body == .flowSequenceEnd then pure t
      else if t.body == .flowEntry then next
      else refuse start t .sequenceComma
    match t.body with
    | .flowSequenceEnd => readEnd
    | .key =>
      advance
      complete
      let item ← readPair t.start fuel
      return item :: (← readFlowItems start false fuel)
    | _ =>
      let item ← readNode false false fuel
      return item :: (← readFlowItems start false fuel)

/-- Reads a mapping of one entry inside a flow sequence. -/
def readPair (start : Mark) : Nat → Reads Node
  | 0 => do refuse start (← peek) .nodeContent
  | fuel + 1 => do
    let t ← peek
    let key ←
      if t.isNone [.value, .flowEntry, .flowSequenceEnd] then readNode false false fuel
      else do
        advance
        readNothing t.stop.number
    let value ← readFlowValue [.flowEntry, .flowSequenceEnd] fuel
    let _ ← peek
    complete
    return .mapping start.number "!!map" [(key, value)]

/-- Reads the value of an entry between brackets, which ends before one of the given tokens. -/
def readFlowValue (ends : List TokenBody) : Nat → Reads Node
  | 0 => do refuse {} (← peek) .nodeContent
  | fuel + 1 => do
    let t ← peek
    if t.body == .value then
      let u ← next
      if u.isNone ends then readNode false false fuel else readNothing u.start.number
    else readNothing t.start.number

/-- Reads the entries of a flow mapping; before every entry but the first there is a comma. A key
without a question mark and without a colon has no value. -/
def readFlowEntries (start : Mark) (first : Bool) : Nat → Reads (List (Node × Node))
  | 0 => do refuse start (← peek) .mappingComma
  | fuel + 1 => do
    let t ← peek
    let t ←
      if first || t.body == .flowMappingEnd then pure t
      else if t.body == .flowEntry then next
      else refuse start t .mappingComma
    match t.body with
    | .flowMappingEnd => readEnd
    | .key =>
      let u ← next
      let key ←
        if u.isNone [.value, .flowEntry, .flowMappingEnd] then readNode false false fuel
        else readNothing u.start.number
      let value ← readFlowValue [.flowEntry, .flowMappingEnd] fuel
      return (key, value) :: (← readFlowEntries start false fuel)
    | _ =>
      let key ← readNode false false fuel
      let u ← peek
      let value ← readNothing u.start.number
      return (key, value) :: (← readFlowEntries start false fuel)

end

/-! ### Documents -/

/-- The tag handles that need no directive. -/
def defaultHandles : List (String × String) := [("!", "!"), ("!!", "tag:yaml.org,2002:")]

/-- Reads the directives in front of a document. -/
def readDirectives : Nat → Bool → Reads Unit
  | 0, _ => pure ()
  | fuel + 1, versioned => do
    let t ← peek
    match t.body with
    | .version major minor =>
      if versioned then refuse {} t .duplicateVersion
      if major ≠ 1 || minor ≠ 1 then refuse {} t .incompatible
      advance
      readDirectives fuel true
    | .tagDirective handle stem =>
      if ((← get).handles.lookup handle).isSome then refuse {} t .duplicateTag
      modify fun feed => { feed with handles := (handle, stem) :: feed.handles }
      advance
      readDirectives fuel versioned
    | _ => pure ()

/-- The comments in front of a document that its root takes: those behind the last empty line. -/
def rootHead (head : Array String) : Array String :=
  head.extract (head.size - (head.toList.reverse.takeWhile (· ≠ "")).length) head.size

/-- Reads the first document of a text; a text without any gives none. What follows the document is
looked at only as far as its next token. -/
def readDocument (fuel : Nat) : Reads (Option Node) := do
  let _ ← peek
  complete
  let t ← next
  if t.body == .streamEnd then
    complete
    return none
  readDirectives fuel false
  let u ← peek
  let explicit := u.body == .documentStart
  if !explicit && t.start ≠ u.start then refuse {} u .documentStart
  modify fun feed => { feed with handles := feed.handles ++ defaultHandles }
  complete
  if !explicit then modify fun feed => { feed with head := rootHead feed.head }
  let root ←
    if explicit then do
      let v ← next
      match v.body with
      | .version .. | .tagDirective .. | .documentStart | .documentEnd | .streamEnd =>
        readNothing v.start.number
      | _ => readNode true false fuel
    else readNode true false fuel
  let _ ← peek
  complete
  return some root

/-- Reads the first document of a text. -/
def read (text : String) : Except Fault (Option Tree) :=
  let stream := tokens text.toList
  match (readDocument (4 * stream.length + 16)).run { tokens := stream } with
  | .error e => .error e
  | .ok (none, _) => .ok none
  | .ok (some root, feed) =>
    .ok (some ⟨root, feed.anchored, (stream.length + 1) * (feed.aliases + 1)⟩)

end EffectTiming.Document
