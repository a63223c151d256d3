import EffectTiming.Time.Literal

/-!
# Local times

The time of an effect as its animation sees it; an animation without a current time has none.
-/

namespace EffectTiming

/-- A time relative to an effect. -/
inductive LocalTime where
  /-- The animation has no current time. -/
  | unresolved
  | resolved (time : Span)
  deriving DecidableEq, Inhabited

namespace LocalTime

/-- The time, if there is one. -/
def time? : LocalTime → Option Span
  | .unresolved => none
  | .resolved d => some d

/-- The text of a local time. -/
def text : LocalTime → String
  | .unresolved => "unresolved"
  | .resolved d => d.text

end LocalTime

end EffectTiming
