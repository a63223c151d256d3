import EffectTiming.Easing.Bezier
import EffectTiming.Easing.Staircase

/-!
# Easing functions

An easing maps the progress within an iteration to the progress that is shown. The result may leave
the unit interval. `Easing.fault?` says what makes an easing unusable.
-/

namespace EffectTiming

/-- The curves with names of their own. -/
inductive NamedCurve where
  | ease | easeIn | easeOut | easeInOut
  deriving DecidableEq, Repr

namespace NamedCurve

/-- The name of a curve. -/
def text : NamedCurve → String
  | .ease => "ease"
  | .easeIn => "ease-in"
  | .easeOut => "ease-out"
  | .easeInOut => "ease-in-out"

/-- The curve behind a name. -/
def curve : NamedCurve → Bezier
  | .ease => ⟨0.25, 0.1, 0.25, 1⟩
  | .easeIn => ⟨0.42, 0, 1, 1⟩
  | .easeOut => ⟨0, 0, 0.58, 1⟩
  | .easeInOut => ⟨0.42, 0, 0.58, 1⟩

end NamedCurve

/-- An easing function. -/
inductive Easing where
  | linear
  /-- A curve that is written as a name. The control points stand beside the name and need not be
  those that belong to it. -/
  | named (name : NamedCurve) (curve : Bezier)
  | bezier (curve : Bezier)
  | steps (stairs : Staircase)

/-- The easing of a name, with the control points that belong to it. -/
def NamedCurve.easing (n : NamedCurve) : Easing := .named n n.curve

/-- Why an easing is unusable. -/
inductive EasingFault where
  | controlNotFinite
  | controlOutside
  | unknownPosition
  | tooFewForJumpNone
  | countNotPositive
  deriving DecidableEq, Repr

/-- The wording of a fault. -/
def EasingFault.text : EasingFault → String
  | .controlNotFinite => "control points must be finite"
  | .controlOutside => "x coordinates must lie in [0, 1]"
  | .unknownPosition => "unknown step position"
  | .tooFewForJumpNone => "jump-none needs at least two steps"
  | .countNotPositive => "step count must be positive"

/-- What makes a curve unusable: it has to be a function over the unit interval. -/
def Bezier.fault? (c : Bezier) : Option EasingFault :=
  if c.values.any (!Binary64.isFinite ·) then some .controlNotFinite
  else if c.x1 < 0 || c.x1 > 1 || c.x2 < 0 || c.x2 > 1 then some .controlOutside
  else none

/-- What makes a step function unusable: it needs a known position and at least one jump. -/
def Staircase.fault? (s : Staircase) : Option EasingFault :=
  match s.position with
  | .unknown _ => some .unknownPosition
  | .known p =>
    if p = .jumpNone ∧ s.count < 2 then some .tooFewForJumpNone
    else if s.count < 1 then some .countNotPositive
    else none

namespace Easing

/-- The eased progress at `x`. `before` picks the lower side of a jump. -/
def eval : Easing → Float → Bool → Float
  | .linear, x, _ => x
  | .named _ c, x, _ => c.eval x
  | .bezier c, x, _ => c.eval x
  | .steps s, x, before => s.eval x before

/-- The written form of an easing. -/
def text : Easing → String
  | .linear => "linear"
  | .named n _ => n.text
  | .bezier c => c.text
  | .steps s => s.text

/-- What makes an easing unusable. -/
def fault? : Easing → Option EasingFault
  | .linear => none
  | .named _ c => c.fault?
  | .bezier c => c.fault?
  | .steps s => s.fault?

/-- The easing leaves progress as it is. -/
def isLinear : Easing → Bool
  | .linear => true
  | _ => false

/-- Two easings count as the same if they are written the same. -/
def same (a b : Easing) : Bool :=
  if a.isLinear || b.isLinear then a.isLinear && b.isLinear else a.text == b.text

end Easing

end EffectTiming
