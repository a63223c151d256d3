import EffectTiming.Binary64.Text

/-!
# Bezier curves

A curve from `(0, 0)` to `(1, 1)` with two control points. Its height over `t` is found by solving
for the curve parameter: first by Newton's steps, then, if those stall, by halving an interval. Both
loops stop as soon as the parameter meets `t` up to `tolerance`.
-/

namespace EffectTiming

/-- The control points of a curve. -/
structure Bezier where
  x1 : Float
  y1 : Float
  x2 : Float
  y2 : Float

/-- One coordinate of a curve with control values `a` and `b`, at the parameter `t`. -/
def Bezier.coordinate (a b t : Float) : Float :=
  let inv := 1 - t
  3 * inv * inv * t * a + 3 * inv * t * t * b + t * t * t

/-- The derivative of a coordinate by the parameter. -/
def Bezier.slope (a b t : Float) : Float :=
  let inv := 1 - t
  3 * inv * inv * a + 6 * inv * t * (b - a) + 3 * t * t * (1 - b)

/-- How near a solution has to come. -/
def Bezier.tolerance : Float := 1e-7

/-- The nearest point of the unit interval. -/
def clampUnit (x : Float) : Float := if x < 0 then 0 else if x > 1 then 1 else x

/-- How a search for the parameter ends. -/
inductive Bezier.Search where
  /-- The parameter meets the target. -/
  | solved (u : Float)
  /-- The steps ran out or the curve is too flat to go on. -/
  | stalled (u : Float)

namespace Bezier

/-- At most `n` of Newton's steps from `u`. -/
def newton (c : Bezier) (t : Float) : Nat → Float → Search
  | 0, u => .stalled u
  | n + 1, u =>
    let x := coordinate c.x1 c.x2 u - t
    if x.abs < tolerance then .solved u
    else
      let dx := slope c.x1 c.x2 u
      if dx.abs < tolerance then .stalled u else newton c t n (u - x / dx)

/-- At most `n` halvings of the interval from `lo` to `hi`, trying `u` first. -/
def bisect (c : Bezier) (t : Float) : Nat → Float → Float → Float → Float
  | 0, _, _, u => u
  | n + 1, lo, hi, u =>
    let x := coordinate c.x1 c.x2 u - t
    if x.abs < tolerance then u
    else if x > 0 then bisect c t n lo u ((lo + u) * 0.5)
    else bisect c t n u hi ((u + hi) * 0.5)

/-- The height of the curve over `t`; flat outside the unit interval. -/
def eval (c : Bezier) (t : Float) : Float :=
  if t ≤ 0 then 0
  else if t ≥ 1 then 1
  else
    match newton c t 8 t with
    | .solved u => coordinate c.y1 c.y2 (clampUnit u)
    | .stalled u => coordinate c.y1 c.y2 (bisect c t 12 0 1 (clampUnit u))

/-- The four coordinates in the order in which they are written. -/
def values (c : Bezier) : List Float := [c.x1, c.y1, c.x2, c.y2]

/-- The written form of a curve. -/
def text (c : Bezier) : String :=
  "cubic-bezier(" ++ String.intercalate ", " (c.values.map Binary64.general.text) ++ ")"

end Bezier

end EffectTiming
