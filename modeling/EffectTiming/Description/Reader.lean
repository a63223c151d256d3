import EffectTiming.Description.Basic
import EffectTiming.Document.Decode
import EffectTiming.Document.Reader
import EffectTiming.Failure
import EffectTiming.Text.Blank
import EffectTiming.Text.Case

/-!
# Reading descriptions

A description is the first document of a text. Keys that no field has are refused.
-/

namespace EffectTiming

open Document

namespace Description

/-- Decodes an iteration count: a number, or the word `infinite`. -/
def decodeIterations (node : Node) : Decodes (Option Float) := do
  match node with
  | .scalar line tag value =>
    if tag = "!!null" then
      let _ ← scalarValue tag value
      return none
    if Text.sameWord (Text.trim value) "infinite" then return some Binary64.infinity
    match scalarValue tag value with
    | .ok .null => return some 0
    | .ok v =>
      match v.number? with
      | some x => return some x
      | none => throw (.refused line "iterations must be a number or \"infinite\"")
    | .error _ => throw (.refused line "iterations must be a number or \"infinite\"")
  | node => throw (.refused node.line "iterations must be a scalar")

/-- The fields of a timing. -/
def timingFields : List (RecordField TimingText) :=
  [ .of "delay" decodeText fun r s => { r with delay := s },
    .of "endDelay" decodeText fun r s => { r with endDelay := s },
    .of "duration" decodeText fun r s => { r with duration := s },
    .optional "iterations" "config.Iterations" decodeIterations fun r x =>
      { r with iterations := x },
    .of "iterationStart" decodeNumber fun r x => { r with iterationStart := x },
    .of "direction" decodeText fun r s => { r with direction := s },
    .of "fill" decodeText fun r s => { r with fill := s },
    .of "easing" decodeText fun r s => { r with easing := s } ]

/-- The fields of a timeline. -/
def timelineFields : List (RecordField TimelineText) :=
  [ .of "progress" decodeFlag fun r b => { r with progress := b },
    .of "duration" decodeText fun r s => { r with duration := s } ]

/-- The fields of an animation. -/
def playbackFields : List (RecordField PlaybackText) :=
  [ .optional "rate" "float64" decodeNumber fun r x => { r with rate := x },
    .of "endpoint" decodeText fun r s => { r with endpoint := s },
    .of "boundary" decodeFlag fun r b => { r with boundary := b },
    .of "finished" decodeFlag fun r b => { r with finished := b } ]

/-- The fields of a description, whose documents nest at most `depth` deep. -/
def fields (depth : Nat) : List (RecordField Description) :=
  [ .of "version" decodeText fun r s => { r with version := s },
    ⟨"timing", fun scope node r => do
      let timing ← decodeRecord "config.TimingConfig" timingFields depth scope node r.timing
      return { r with timing }⟩,
    ⟨"timeline", fun scope node r => do
      let timeline ← decodeRecord "config.TimelineConfig" timelineFields depth scope node r.timeline
      return { r with timeline }⟩,
    ⟨"playback", fun scope node r => do
      let playback ← decodeRecord "config.PlaybackConfig" playbackFields depth scope node r.playback
      return { r with playback }⟩ ]

/-- Why a text holds no description. -/
inductive ReadError where
  | empty
  | faulty (fault : Fault)
  | mismatched (mismatches : List Mismatch)

/-- The wording of an error. -/
def ReadError.message : ReadError → String
  | .empty => "empty document"
  | .faulty fault => fault.message
  | .mismatched ms => reportMismatches ms

/-- The error breaks the program off. -/
def ReadError.isCrash : ReadError → Bool
  | .faulty (.uncomparableKey _) => true
  | _ => false

/-- The failure that an error gives. -/
def ReadError.failure (e : ReadError) : Failure :=
  if e.isCrash then .aborted "" (.text e.message)
  else .timing "config.Parse" .config "" (.plain e.message)

/-- Decodes the tree of a document. -/
def ofTree (tree : Tree) : Except ReadError Description :=
  let scope : Scope := { anchored := tree.anchored }
  let decoded : Decodes Description := do
    -- The document itself is the first thing to be looked at.
    look scope
    let (inner, root) ← follow scope tree.root
    decodeRecord "config.Config" (fields tree.depth) tree.depth inner root {}
  match decoded.run {} with
  | .error fault => .error (.faulty fault)
  | .ok (d, tally) =>
    if tally.mismatches.isEmpty then .ok d else .error (.mismatched tally.mismatches.toList)

/-- Reads a description. -/
def parse (text : String) : Except ReadError Description :=
  match Document.read text with
  | .error fault => .error (.faulty fault)
  | .ok none => .error .empty
  | .ok (some tree) => ofTree tree

/-- Reads a description; a failure says so. -/
def read (text : String) : Except Failure Description := (parse text).mapError ReadError.failure

end Description

end EffectTiming
