import EffectTiming.Json.Reader
import EffectTiming.Text.Case
import EffectTiming.Trace.Basic

/-!
# Traces as text

A trace is kept as one JSON object. Writing fails if some progress is not a finite number. Reading
takes null for an empty trace, leaves fields alone that are null, and ignores members it does not
know.
-/

namespace EffectTiming

/-- A progress that cannot be written. -/
structure UnwritableNumber where
  value : Float

/-- The wording of the failure to write a number. -/
def UnwritableNumber.message (u : UnwritableNumber) : String :=
  "json: unsupported value: " ++ JsonValue.numberLayout.text u.value

namespace TraceSample

/-- The written form of a progress. -/
def progressJson : Option Float → Except UnwritableNumber JsonValue
  | none => .ok .null
  | some x =>
    if Binary64.isFinite x then .ok (.number (JsonValue.numberLayout.text x)) else .error ⟨x⟩

/-- The written form of a sample. -/
def toJson (s : TraceSample) : Except UnwritableNumber JsonValue :=
  (progressJson s.progress).map fun progress =>
    .object
      ([("time", .string s.time), ("phase", .string s.phase)] ++
        (if s.iteration.isEmpty then [] else [("iteration", .string s.iteration)]) ++
        [("progress", progress)] ++
        (if s.beforeFlag then [("beforeFlag", .bool true)] else []))

end TraceSample

namespace Trace

/-- The written form of the samples. -/
def samplesJson : Option (List TraceSample) → Except UnwritableNumber JsonValue
  | none => .ok .null
  | some samples => (samples.mapM TraceSample.toJson).map JsonValue.array

/-- The written form of a trace. -/
def toJson (t : Trace) : Except UnwritableNumber JsonValue :=
  (samplesJson t.samples).map fun samples =>
    .object [("name", .string t.name), ("samples", samples)]

/-- The text of a trace. -/
def text (t : Trace) : Except UnwritableNumber String := t.toJson.map JsonValue.pretty

end Trace

/-! ### Reading -/

/-- A step from a value to one that it holds. -/
inductive JsonStep where
  | member (key : String)
  | item (n : Nat)

/-- The written form of a step. -/
def JsonStep.text : JsonStep → String
  | .member key => key
  | .item n => toString n

/-- A value of the wrong type: what was found, where, and what is wanted there. -/
structure JsonMismatch where
  found : String
  /-- The steps from the trace to the value, with the keys as they are in the text. -/
  path : List JsonStep
  wanted : String

/-- The place of a mismatch: the whole value, a member or an item. -/
def JsonMismatch.place (m : JsonMismatch) : String :=
  let path := String.intercalate "." ("Trace" :: m.path.map JsonStep.text)
  match m.path.getLast? with
  | none => "Go value"
  | some (.member _) => "Go struct field " ++ path
  | some (.item _) => path

/-- The wording of a mismatch. -/
def JsonMismatch.message (m : JsonMismatch) : String :=
  "json: cannot unmarshal " ++ m.found ++ " into " ++ m.place ++ " of type " ++ m.wanted

namespace JsonValue

/-- The kind of a value in messages. -/
def kind : JsonValue → String
  | .null => "null"
  | .bool _ => "bool"
  | .number _ => "number"
  | .string _ => "string"
  | .array _ => "array"
  | .object _ => "object"

/-- A member has the given name, in any case. -/
def isNamed (name : String) (key : String) : Bool :=
  key == name || Text.sameWord key (Text.lower name)

/-- The text of a value; null leaves the text that is there. -/
def textOr (path : List JsonStep) (old : RawText) : JsonValue → Except JsonMismatch RawText
  | .string s => .ok s
  | .null => .ok old
  | v => .error ⟨v.kind, path, "string"⟩

/-- The truth value of a value; null leaves the one that is there. -/
def flagOr (path : List JsonStep) (old : Bool) : JsonValue → Except JsonMismatch Bool
  | .bool b => .ok b
  | .null => .ok old
  | v => .error ⟨v.kind, path, "bool"⟩

/-- The number of a value, or none for null. -/
def number? (path : List JsonStep) : JsonValue → Except JsonMismatch (Option Float)
  | .number literal =>
    match Binary64.ofText? literal with
    | some x => .ok (some x)
    | none => .error ⟨"number " ++ literal, path, "float64"⟩
  | .null => .ok none
  | v => .error ⟨v.kind, path, "float64"⟩

end JsonValue

namespace TraceSample

/-- Takes a member of an object into a sample. -/
def setMember (path : List JsonStep) (s : TraceSample) (member : String × JsonValue) :
    Except JsonMismatch TraceSample :=
  let (key, v) := member
  let path := path ++ [.member key]
  if JsonValue.isNamed "time" key then (v.textOr path s.time).map fun time => { s with time }
  else if JsonValue.isNamed "phase" key then (v.textOr path s.phase).map
    fun phase => { s with phase }
  else if JsonValue.isNamed "iteration" key then
    (v.textOr path s.iteration).map fun iteration => { s with iteration }
  else if JsonValue.isNamed "progress" key then
    (v.number? path).map fun progress => { s with progress }
  else if JsonValue.isNamed "beforeFlag" key then
    (v.flagOr path s.beforeFlag).map fun beforeFlag => { s with beforeFlag }
  else .ok s

/-- Reads a sample over an older one, which null leaves as it is. -/
def readOver (path : List JsonStep) (old : TraceSample) :
    JsonValue → Except JsonMismatch TraceSample
  | .object members => members.foldlM (setMember path) old
  | .null => .ok old
  | v => .error ⟨v.kind, path, "testing.Sample"⟩

end TraceSample

namespace Trace

/-- Reads samples over older ones as long as there are some; the first has the number `n`. -/
def samplesOver (path : List JsonStep) :
    Nat → List TraceSample → List JsonValue → Except JsonMismatch (List TraceSample)
  | _, _, [] => .ok []
  | n, olds, v :: vs => do
    let s ← TraceSample.readOver (path ++ [.item n]) (olds.head?.getD {}) v
    return s :: (← samplesOver path (n + 1) olds.tail vs)

/-- A trace on its way, with the samples of an earlier list that a shorter one left over: a still
later list is read over them. -/
structure Draft where
  trace : Trace := {}
  spare : List TraceSample := []

/-- Takes a list of samples into a trace. An empty list leaves nothing over. -/
def Draft.setSamples (path : List JsonStep) (d : Draft) (vs : List JsonValue) :
    Except JsonMismatch Draft := do
  let olds := d.trace.samples.getD [] ++ d.spare
  let samples ← samplesOver path 0 olds vs
  let spare := if vs.isEmpty then [] else olds.drop vs.length
  return { trace := { d.trace with samples := some samples }, spare }

/-- Takes a member of an object into a trace. -/
def Draft.setMember (d : Draft) (member : String × JsonValue) : Except JsonMismatch Draft :=
  let (key, v) := member
  let path := [.member key]
  if JsonValue.isNamed "name" key then
    (v.textOr path d.trace.name).map fun name => { d with trace := { d.trace with name } }
  else if JsonValue.isNamed "samples" key then
    match v with
    | .array vs => d.setSamples path vs
    | .null => .ok { trace := { d.trace with samples := none } }
    | v => .error ⟨v.kind, path, "[]testing.Sample"⟩
  else .ok d

/-- Reads a trace. -/
def ofJson : JsonValue → Except JsonMismatch Trace
  | .object members => (members.foldlM Draft.setMember {}).map Draft.trace
  | .null => .ok {}
  | v => .error ⟨v.kind, [], "testing.Trace"⟩

/-- Why a text holds no trace. -/
inductive ReadError where
  | malformed (fault : JsonValue.SyntaxFault)
  | mistyped (mismatch : JsonMismatch)

/-- The wording of an error. -/
def ReadError.message : ReadError → String
  | .malformed fault => fault.message
  | .mistyped mismatch => mismatch.message

/-- Reads a trace from a text. -/
def read (text : String) : Except ReadError Trace :=
  match JsonValue.read text with
  | .error e => .error (.malformed e)
  | .ok v => (ofJson v).mapError .mistyped

end Trace

end EffectTiming
