import EffectTiming.Description.Resolve
import EffectTiming.Sampling.Range
import EffectTiming.Text.Split

/-!
# Range flags

The flags `--from`, `--to` and `--step` set the parts of a range. The value stands behind an equals
sign or is the next argument; of two flags with one name the later one counts. The arguments are
first cut into pieces, which no longer tell how a flag was spelled, and the pieces are then applied
one after the other.
-/

namespace EffectTiming

/-- A flag that sets a part of a range. -/
inductive RangeFlag where
  | start
  | stop
  | step
  deriving DecidableEq, Repr

/-- What is wrong with range flags. -/
inductive FlagFault where
  | noValue (flag : RangeFlag)
  | unreadable (cause : Failure)
  | unresolved (flag : RangeFlag)
  | range (cause : RangeFault)

/-- A flag with its value, a flag without one, or an argument that is neither. -/
inductive FlagPiece where
  | other (arg : RawText)
  | setting (flag : RangeFlag) (value : RawText)
  | cutOff (flag : RangeFlag)

/-- What is left once range flags are read. -/
structure FlagReading where
  /-- The arguments that are no part of a flag; none if a flag is at fault. -/
  rest : List RawText
  /-- The range with all flags applied that were read. -/
  range : SampleRange
  fault : Option FlagFault

namespace RangeFlag

/-- The flags in the order in which they are looked for. -/
def all : List RangeFlag := [.start, .stop, .step]

/-- The name of a flag. -/
def name : RangeFlag → String
  | .start => "--from"
  | .stop => "--to"
  | .step => "--step"

/-- Sets the part that a flag is for. -/
def set (f : RangeFlag) (d : Span) (r : SampleRange) : SampleRange :=
  match f with
  | .start => { r with first := d }
  | .stop => { r with last := d }
  | .step => { r with step := d }

/-- How an argument spells a flag: with a value behind an equals sign, or without one. -/
inductive Spelling where
  | joined (value : RawText)
  | bare

/-- How an argument spells this flag, if it does. -/
def spelling? (f : RangeFlag) (arg : RawText) : Option Spelling :=
  match Text.dropStart? (RawText.ofString (f.name ++ "=")).glyphs arg.glyphs with
  | some value => some (.joined ⟨value⟩)
  | none => if arg = f.name then some .bare else none

/-- The flag that an argument spells. -/
def find? (arg : RawText) : Option (RangeFlag × Spelling) :=
  all.findSome? fun f => (f.spelling? arg).map (f, ·)

/-- The pieces of arguments. What follows a flag without an equals sign is its value, whatever it
looks like. -/
def pieces : List RawText → List FlagPiece
  | [] => []
  | arg :: args =>
    match find? arg with
    | none => .other arg :: pieces args
    | some (f, .joined value) => .setting f value :: pieces args
    | some (f, .bare) =>
      match args with
      | [] => [.cutOff f]
      | value :: args => .setting f value :: pieces args

/-- Reads a value and sets the part that the flag is for. -/
def apply (f : RangeFlag) (s : Setup) (value : RawText) (r : SampleRange) :
    Except FlagFault SampleRange :=
  match s.readTime value with
  | .error cause => .error (.unreadable cause)
  | .ok .unresolved => .error (.unresolved f)
  | .ok (.resolved d) => .ok (f.set d r)

end RangeFlag

namespace FlagFault

/-- The failure that a fault is reported as. -/
def failure : FlagFault → Failure
  | .noValue flag => .plain (flag.name ++ " requires a value")
  | .unreadable cause => cause
  | .unresolved flag => .plain (flag.name ++ " must be a resolved time")
  | .range cause => .plain cause.message

end FlagFault

namespace SampleRange

/-- Applies the flags among the pieces, up to the first one at fault, and gives the arguments that
are left. -/
def applyPieces (s : Setup) :
    List FlagPiece → SampleRange → SampleRange × Except FlagFault (List RawText)
  | [], r => (r, .ok [])
  | .other arg :: ps, r =>
    let (r, rest) := applyPieces s ps r
    (r, rest.map (arg :: ·))
  | .setting f value :: ps, r =>
    match f.apply s value r with
    | .error e => (r, .error e)
    | .ok r => applyPieces s ps r
  | .cutOff f :: _, r => (r, .error (.noValue f))

/-- Applies the flags among the arguments to a range, which must then be valid. -/
def readFlags (s : Setup) (args : List RawText) (r : SampleRange) : FlagReading :=
  match applyPieces s (RangeFlag.pieces args) r with
  | (r, .error e) => { rest := [], range := r, fault := some e }
  | (r, .ok rest) =>
    match r.validate with
    | .error e => { rest, range := r, fault := some (.range e) }
    | .ok () => { rest, range := r, fault := none }

end SampleRange

end EffectTiming
