import EffectTiming.Document.Datum
import EffectTiming.Document.Node

/-!
# From nodes to records

A mapping is decoded into a record field by field. A value of the wrong type and a key without a
field are mismatches: they are gathered, and decoding goes on. A fault ends it at once.

A mapping may take entries from others by a merge key; its own entries and those merged first win.
To know them, its own keys are looked at once more, and whatever nodes they are, they are decoded as
data.

Every look at a node is counted, and so are those that came through an alias: a large document that
consists of hardly anything else is refused.
-/

namespace EffectTiming.Document

/-- A node that does not fit the record. -/
inductive Mismatch where
  /-- A value of the wrong type. -/
  | wrongType (line : Nat) (tag value type : String)
  /-- A key without a field. -/
  | unknownField (line : Nat) (name type : String)
  /-- A key that occurs twice. -/
  | repeatedKey (line : Nat) (name : String) (first : Nat)
  /-- A field that is given twice, under keys that are written differently. -/
  | repeatedField (line : Nat) (name type : String)
  deriving DecidableEq, Repr

/-- A value in a message: a long one is cut after seven bytes. -/
def shortened (value : String) : String :=
  let bytes := Text.bytes value
  if 10 < bytes.length then (RawText.ofBytes (bytes.take 7)).text ++ "..." else value

/-- The wording of a mismatch. -/
def Mismatch.message : Mismatch → String
  | .wrongType line tag value type =>
    let shown := if tag = "!!seq" || tag = "!!map" then value else " `" ++ shortened value ++ "`"
    "line " ++ toString line ++ ": cannot unmarshal " ++ tag ++ shown ++ " into " ++ type
  | .unknownField line name type =>
    "line " ++ toString line ++ ": field " ++ name ++ " not found in type " ++ type
  | .repeatedKey line name first =>
    "line " ++ toString line ++ ": mapping key " ++ Text.quoted name ++
      " already defined at line " ++
      toString first
  | .repeatedField line name type =>
    "line " ++ toString line ++ ": field " ++ name ++ " already set in type " ++ type

/-- The report of several mismatches. -/
def reportMismatches (ms : List Mismatch) : String :=
  "yaml: unmarshal errors:\n  " ++ String.intercalate "\n  " (ms.map Mismatch.message)

/-- Where a node is decoded: the nodes with anchors, and the aliases that are being followed. -/
structure Scope where
  anchored : List (Nat × Node)
  followed : List Nat := []

/-- What decoding has come to. -/
structure Tally where
  mismatches : Array Mismatch := #[]
  /-- How many looks at a node there were. -/
  looks : Nat := 0
  /-- How many of them came through an alias. -/
  aliased : Nat := 0
  /-- The keys that are taken already, while entries are merged. -/
  taken : Option (List Datum) := none

/-- Decoding with mismatches gathered along the way. -/
abbrev Decodes (α : Type) := StateT Tally (Except Fault) α

/-- Notes a mismatch. -/
def note (m : Mismatch) : Decodes Unit :=
  modify fun t => { t with mismatches := t.mismatches.push m }

/-! ### Aliases -/

/-- The share of looks that may come through aliases: nearly all in a document of medium size, a
tenth in a very large one. -/
def allowedShare (looks : Nat) : Float :=
  if looks ≤ 400000 then 0.99
  else if 4000000 ≤ looks then 0.1
  else 0.99 - 0.89 * (Float.ofNat (looks - 400000) / 3600000)

/-- Too many looks came through aliases. -/
def Tally.excessive (t : Tally) : Bool :=
  100 < t.aliased && 1000 < t.looks &&
    Float.ofNat t.aliased / Float.ofNat t.looks > allowedShare t.looks

/-- Counts a look at a node. -/
def look (scope : Scope) : Decodes Unit := do
  let t ← get
  let aliased := if scope.followed.isEmpty then t.aliased else t.aliased + 1
  let t := { t with looks := t.looks + 1, aliased }
  if t.excessive then throw .excessiveAliasing
  set t

/-- Looks at a node, or at the node that an alias stands for. An alias inside the node that it
stands for is found out when it is met again. -/
def follow (scope : Scope) (node : Node) : Decodes (Scope × Node) := do
  look scope
  match node with
  | .alias _ name target number =>
    if scope.followed.contains number then throw (.selfContained name)
    let inner := { scope with followed := number :: scope.followed }
    look inner
    match scope.anchored.lookup target with
    | some node => return (inner, node)
    | none => throw (.unknownAnchor name)
  | node => return (scope, node)

/-! ### Scalars -/

/-- What a scalar stands for; bytes are taken for text. -/
def scalarValue (tag value : String) : Except Fault Value :=
  if tag = "!!binary" then
    match Text.ofSixtyFour? value with
    | some bytes => .ok (.text (.ofBytes bytes))
    | none => .error .invalidBase64
  else taggedValue tag value

/-- The keys of a mapping that occur twice, with the line of each pair's first one. -/
def repeatedKeys : List (Node × Node) → List Mismatch
  | [] => []
  | (key, _) :: rest =>
    (rest.filter fun (other, _) => key.sameKind other && key.label == other.label).map
      (fun (other, _) => .repeatedKey other.line other.label key.line) ++ repeatedKeys rest

/-- Notes that a collection stands where a value of the given type is wanted. -/
def notCollection (type : String) : Node → Decodes Unit
  | .sequence line tag _ => note (.wrongType line tag "" type)
  | .mapping line tag entries =>
    match repeatedKeys entries with
    | [] => note (.wrongType line tag "" type)
    | ms => ms.forM note
  | _ => pure ()

/-- Decodes a scalar of a type. The decoder gives the value if the scalar fits; nothing is decoded
from null. -/
def decodeScalar {α : Type} (type : String) (decode : String → Value → Option α) (node : Node) :
    Decodes (Option α) := do
  match node with
  | .scalar line tag value =>
    match ← scalarValue tag value with
    | .null => return none
    | v =>
      match decode value v with
      | some a => return some a
      | none =>
        note (.wrongType line tag value type)
        return none
  | node =>
    notCollection type node
    return none

/-- Decodes a text: every scalar has one. -/
def decodeText : Node → Decodes (Option RawText) :=
  decodeScalar "string" fun written v =>
    match v with
    | .text s => some s
    | _ => some written

/-- The number that a value gives. -/
def Value.number? : Value → Option Float
  | .whole n => some (Float.ofInt n)
  | .real x => some x
  | _ => none

/-- Decodes a number. -/
def decodeNumber : Node → Decodes (Option Float) := decodeScalar "float64" fun _ v => v.number?

/-- The truth value that a value gives: words for yes and no are understood as well. -/
def Value.flag? : Value → Option Bool
  | .flag b => some b
  | .text s => flagOfWord? s.text
  | _ => none

/-- Decodes a truth value. -/
def decodeFlag : Node → Decodes (Option Bool) := decodeScalar "bool" fun _ v => v.flag?

/-! ### Data

While the keys of a mapping are decoded for a merge, a mapping among them shares the keys that are
taken; what stands inside that mapping does not. -/

/-- The tag of a node, or of the node that an alias stands for. -/
def tagOf (scope : Scope) : Node → String
  | .scalar _ tag _ | .sequence _ tag _ | .mapping _ tag _ => tag
  | .alias _ _ target _ =>
    match scope.anchored.lookup target with
    | some (.scalar _ tag _) | some (.sequence _ tag _) | some (.mapping _ tag _) => tag
    | _ => ""

/-- The key is a merge key. -/
def isMerge : Node → Bool
  | .scalar _ tag value => tag == "!!merge" && value == "<<"
  | _ => false

/-- The mapping that a merge key brings in is a mapping. -/
def isMapping (scope : Scope) : Node → Bool
  | .mapping .. => true
  | .alias _ _ target _ =>
    match scope.anchored.lookup target with
    | some (.mapping ..) => true
    | _ => false
  | _ => false

/-- The nodes that a merge key brings in. -/
def mergeSources : Node → List Node
  | .sequence _ _ items => items
  | node => [node]

/-- All keys of a mapping are texts or merge keys. -/
def isTextual (scope : Scope) (entries : List (Node × Node)) : Bool :=
  entries.all fun (key, _) => ["!!str", "!!merge"].contains (tagOf scope key)

/-- Gives the keys that are taken, and leaves none for what is decoded next. -/
def releaseTaken : Decodes (Option (List Datum)) :=
  modifyGet fun t => (t.taken, { t with taken := none })

/-- Sets the keys that are taken. -/
def setTaken (taken : Option (List Datum)) : Decodes Unit := modify fun t => { t with taken }

/-- The key is among the taken ones. Only values can be compared. -/
def isTaken (taken : Option (List Datum)) (key : Datum) : Decodes Bool := do
  match taken, key.collectionType? with
  | none, _ => return false
  | some _, some type => throw (.uncomparableKey type)
  | some keys, none => return keys.any key.sameKey

/-- Takes a key. -/
def takeKey (key : Datum) : Decodes Unit := do
  let taken := (← get).taken
  let _ ← isTaken taken key
  setTaken (taken.map (key :: ·))

/-- A table on its way: its rows, the keys that are taken if entries are being merged, and what is
to be merged into it. -/
structure TableProgress where
  rows : List (Datum × Datum)
  taken : Option (List Datum)
  merged : Option Node := none

mutual

/-- Decodes a node of any kind. Nothing comes of a mapping with repeated keys. -/
def decodeDatum : Nat → Scope → Node → Decodes (Option Datum)
  | 0, _, _ => return none
  | fuel + 1, scope, node => do
    let (scope, node) ← follow scope node
    match node with
    | .scalar _ tag value => return some (.value (← scalarValue tag value))
    | .sequence _ _ items => return some (.list (← items.filterMapM (decodeDatum fuel scope)))
    | .mapping _ _ entries =>
      let textual := isTextual scope entries
      return (← decodeTable textual fuel scope entries []).map (.table textual)
    | .alias .. => return none

/-- Decodes a mapping into the rows of a table. -/
def decodeTable (textual : Bool) : Nat → Scope → List (Node × Node) → List (Datum × Datum) →
    Decodes (Option (List (Datum × Datum)))
  | 0, _, _, _ => return none
  | fuel + 1, scope, entries, rows => do
    match repeatedKeys entries with
    | [] =>
      let p ← entries.foldlM (decodeRow textual fuel scope) { rows, taken := ← releaseTaken }
      setTaken p.taken
      match p.merged with
      | none => return some p.rows
      | some sources =>
        if p.taken.isNone then takeKeys fuel scope entries
        let rows ←
          (mergeSources sources).foldlM
            (fun rows source => do
              if !isMapping scope source then throw .mergeWantsMap
              let (inner, source) ← follow scope source
              match source with
              | .mapping _ _ entries =>
                return (← decodeTable textual fuel inner entries rows).getD rows
              | _ => return rows)
            p.rows
        if p.taken.isNone then setTaken none
        return some rows
    | ms =>
      ms.forM note
      return none

/-- Decodes one entry of a mapping into a row of a table. -/
def decodeRow (textual : Bool) :
    Nat → Scope → TableProgress → Node × Node → Decodes TableProgress
  | 0, _, p, _ => return p
  | fuel + 1, scope, p, (key, value) => do
    if isMerge key then return { p with merged := some value }
    let found ←
      if textual then do
        let (_, key) ← follow scope key
        pure ((← decodeText key).map fun s => .value (.text s))
      else decodeDatum fuel scope key
    match found with
    | none => return p
    | some name =>
      if ← isTaken p.taken name then return p
      let p := { p with taken := p.taken.map (name :: ·) }
      if name.collectionType?.isSome then throw (.invalidKey name.shown)
      match ← decodeDatum fuel scope value with
      | some datum => return { p with rows := Datum.putRow name datum p.rows }
      | none =>
        if tagOf scope value = "!!null" && !Datum.hasKey p.rows name then
          return { p with rows := Datum.putRow name (.value .null) p.rows }
        else return p

/-- Takes the own keys of a mapping, as far as anything comes of them. -/
def takeKeys : Nat → Scope → List (Node × Node) → Decodes Unit
  | 0, _, _ => pure ()
  | fuel + 1, scope, entries => do
    setTaken (some [])
    entries.forM fun (key, _) => do
      match ← decodeDatum fuel scope key with
      | some name => takeKey name
      | none => pure ()

end

/-! ### Records -/

/-- A field of a record: its name, and how a node that is no alias changes the record. -/
structure RecordField (ρ : Type) where
  name : String
  decode : Scope → Node → ρ → Decodes ρ

/-- A field that keeps its value unless it gets a new one. -/
def RecordField.of {ρ α : Type} (name : String) (decode : Node → Decodes (Option α))
    (set : ρ → α → ρ) : RecordField ρ :=
  ⟨name, fun _ node r => do
    match ← decode node with
    | some a => return set r a
    | none => return r⟩

/-- The node is a collection that its tag declares to be nothing. -/
def isNullCollection : Node → Bool
  | .sequence _ tag _ | .mapping _ tag _ => tag == "!!null"
  | _ => false

/-- A field that may be absent; null takes its value away. -/
def RecordField.optional {ρ α : Type} (name type : String) (decode : Node → Decodes (Option α))
    (set : ρ → Option α → ρ) : RecordField ρ :=
  ⟨name, fun _ node r => do
    if isNullCollection node then
      notCollection ("*" ++ type) node
      return r
    else return set r (← decode node)⟩

/-- A record on its way: its value, the fields that the mapping has set, the keys that are taken if
entries are being merged, and what is to be merged into it. -/
structure Progress (ρ : Type) where
  record : ρ
  done : List String := []
  taken : Option (List Datum)
  merged : Option Node := none

/-- Decodes one entry of a mapping. -/
def decodeEntry {ρ : Type} (type : String) (fields : List (RecordField ρ)) (scope : Scope)
    (p : Progress ρ) (entry : Node × Node) : Decodes (Progress ρ) := do
  let (key, value) := entry
  if isMerge key then return { p with merged := some value }
  let (_, name) ← follow scope key
  match ← decodeText name with
  | none => return p
  | some name =>
    let datum : Datum := .value (.text name)
    if ← isTaken p.taken datum then return p
    let p := { p with taken := p.taken.map (datum :: ·) }
    match fields.find? (fun f => (f.name : RawText) == name) with
    | none =>
      note (.unknownField key.line name.text type)
      return p
    | some field =>
      if p.done.contains field.name then
        note (.repeatedField key.line field.name type)
        return p
      let (inner, node) ← follow scope value
      let record ← field.decode inner node p.record
      return { p with record, done := field.name :: p.done }

/-- A number of steps that is enough to decode a node with at most `depth` nodes inside one
another. -/
def datumFuel (depth : Nat) : Nat := 4 * depth + 4

/-- Decodes a mapping into a record. Merges nest no deeper than the given number. -/
def decodeMapping {ρ : Type} (type : String) (fields : List (RecordField ρ)) :
    Nat → Scope → Node → ρ → Decodes ρ
  | 0, _, _, r => return r
  | depth + 1, scope, node, r => do
    match node with
    | .scalar line tag value =>
      match ← scalarValue tag value with
      | .null => pure ()
      | _ => note (.wrongType line tag value type)
      return r
    | .mapping _ _ entries =>
      match repeatedKeys entries with
      | [] =>
        let start : Progress ρ := { record := r, taken := ← releaseTaken }
        let p ← entries.foldlM (decodeEntry type fields scope) start
        setTaken p.taken
        match p.merged with
        | none => return p.record
        | some sources =>
          if p.taken.isNone then takeKeys (datumFuel (depth + 1)) scope entries
          let record ←
            (mergeSources sources).foldlM
              (fun r source => do
                if !isMapping scope source then throw .mergeWantsMap
                let (inner, source) ← follow scope source
                decodeMapping type fields depth inner source r)
              p.record
          if p.taken.isNone then setTaken none
          return record
      | ms =>
        ms.forM note
        return r
    | node =>
      notCollection type node
      return r

/-- Decodes a record. Merges nest no deeper than `depth`. -/
def decodeRecord {ρ : Type} (type : String) (fields : List (RecordField ρ)) (depth : Nat)
    (scope : Scope) (node : Node) (r : ρ) : Decodes ρ :=
  decodeMapping type fields depth scope node r

end EffectTiming.Document
