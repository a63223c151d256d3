import EffectTiming.Failure
import EffectTiming.Keyword

/-!
# The words of effect timing

Fill modes, playback directions, phases and endpoint behaviours.
-/

namespace EffectTiming

/-- Whether an effect applies outside its active interval. -/
inductive FillMode where
  /-- Only during the active interval. -/
  | none
  /-- The final value is kept after the active interval. -/
  | forwards
  /-- The initial value applies before the active interval. -/
  | backwards
  | both
  /-- Stands for `none`. -/
  | auto
  deriving DecidableEq, Repr

instance : Keyword FillMode where
  all := [.none, .forwards, .backwards, .both, .auto]
  word
    | .none => "none"
    | .forwards => "forwards"
    | .backwards => "backwards"
    | .both => "both"
    | .auto => "auto"
  title := "FillMode"

namespace FillMode

/-- The word of a fill mode. -/
def text (f : FillMode) : String := Keyword.word f

/-- The fill mode that applies. -/
def resolve : FillMode → FillMode
  | .auto => .none
  | f => f

/-- The mode covers the time after the active interval. -/
def fillsForwards : FillMode → Bool
  | .forwards | .both => true
  | _ => false

/-- The mode covers the time before the active interval. -/
def fillsBackwards : FillMode → Bool
  | .backwards | .both => true
  | _ => false

/-- Reads a fill mode. -/
def read (s : RawText) : Except Failure FillMode :=
  match Keyword.read? FillMode s.text with
  | some f => .ok f
  | Option.none => .error (.unreadable "animation.ParseFillMode" "fill mode" s "unknown keyword")

end FillMode

/-- Which iterations run backwards. -/
inductive Direction where
  | normal
  | reverse
  /-- Odd iterations run backwards. -/
  | alternate
  /-- Even iterations run backwards. -/
  | alternateReverse
  deriving DecidableEq, Repr

instance : Keyword Direction where
  all := [.normal, .reverse, .alternate, .alternateReverse]
  word
    | .normal => "normal"
    | .reverse => "reverse"
    | .alternate => "alternate"
    | .alternateReverse => "alternate-reverse"
  title := "PlaybackDirection"

namespace Direction

/-- The word of a direction. -/
def text (d : Direction) : String := Keyword.word d

/-- Reads a direction. -/
def read (s : RawText) : Except Failure Direction :=
  match Keyword.read? Direction s.text with
  | some d => .ok d
  | none =>
    .error (.unreadable "animation.ParsePlaybackDirection" "playback direction" s "unknown keyword")

end Direction

/-- Where a local time lies relative to the active interval. -/
inductive Phase where
  /-- There is no local time. -/
  | idle
  | before
  | active
  | after
  deriving DecidableEq, Repr

instance : Keyword Phase where
  all := [.idle, .before, .active, .after]
  word
    | .idle => "idle"
    | .before => "before"
    | .active => "active"
    | .after => "after"
  title := "Phase"

/-- The word of a phase. -/
def Phase.text (p : Phase) : String := Keyword.word p

/-- Whether the ends of the active interval belong to it. -/
inductive Endpoint where
  | inclusive
  /-- A sample exactly on an end lies in the phase that playback is heading to. -/
  | exclusive
  deriving DecidableEq, Repr

instance : Keyword Endpoint where
  all := [.inclusive, .exclusive]
  word
    | .inclusive => "inclusive"
    | .exclusive => "exclusive"
  title := "EndpointBehavior"

/-- The word of an endpoint behaviour. -/
def Endpoint.text (e : Endpoint) : String := Keyword.word e

end EffectTiming
