import EffectTiming.Document.Mark

/-!
# Tokens

The tokens of a document. Block collections are marked by their indentation, flow collections by
brackets.
-/

namespace EffectTiming.Document

/-- How a scalar is written. -/
inductive ScalarStyle where
  | plain | single | double | literal | folded
  deriving DecidableEq, Repr

/-- What a token says. -/
inductive TokenBody where
  | streamStart
  | streamEnd
  | version (major minor : Nat)
  | tagDirective (handle stem : String)
  | documentStart
  | documentEnd
  | blockSequenceStart
  | blockMappingStart
  | blockEnd
  | flowSequenceStart
  | flowSequenceEnd
  | flowMappingStart
  | flowMappingEnd
  | blockEntry
  | flowEntry
  | key
  | value
  | alias (name : String)
  | anchor (name : String)
  | tag (handle suffix : String)
  | scalar (text : String) (style : ScalarStyle)
  deriving DecidableEq, Repr

/-- A token and the places where it starts and stops. -/
structure Token where
  body : TokenBody
  start : Mark
  stop : Mark
  deriving Repr

end EffectTiming.Document
