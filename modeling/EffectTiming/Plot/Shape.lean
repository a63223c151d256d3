import EffectTiming.Binary64.Parts

/-!
# Shapes

Convex shapes with straight sides, and how much of a pixel they cover. A shape is cut along the four
sides of the pixel, and what is left of it is measured. Covered areas are counted in shares: 65535
of them make up a whole pixel.
-/

namespace EffectTiming.Plot

/-- A point of the picture, the origin being its upper left corner. -/
structure Point where
  x : Float32
  y : Float32

/-- A convex shape, given by its corners in order. -/
abbrev Shape := List Point

/-- The number of shares of a whole pixel. -/
abbrev wholeShare : Nat := 65535

/-- The neighbours on a closed round. -/
def rounds {α : Type} : List α → List (α × α)
  | [] => []
  | a :: rest => (a :: rest).zip (rest ++ [a])

namespace Shape

/-- An upright rectangle. -/
def rectangle (left top right bottom : Float32) : Shape :=
  [⟨left, top⟩, ⟨right, top⟩, ⟨right, bottom⟩, ⟨left, bottom⟩]

/-- The length of the hypotenuse. -/
def hypotenuse (a b : Float) : Float :=
  let long := if a.abs < b.abs then b.abs else a.abs
  let short := if a.abs < b.abs then a.abs else b.abs
  if long == 0 then 0 else long * (1 + short / long * (short / long)).sqrt

/-- A straight line with half width one; nothing for a line without length. -/
def line (a b : Point) : Shape :=
  let dx := b.x - a.x
  let dy := b.y - a.y
  let length := (hypotenuse dx.toFloat dy.toFloat).toFloat32
  if length == 0 then []
  else
    let nx := -dy / length
    let ny := dx / length
    [⟨a.x + nx, a.y + ny⟩, ⟨b.x + nx, b.y + ny⟩, ⟨b.x - nx, b.y - ny⟩, ⟨a.x - nx, a.y - ny⟩]

/-! ### Areas -/

/-- The point of a side at which `height` is zero, if it has different signs at the two ends. -/
def crossing (height : Float × Float → Float) (p q : Float × Float) : Float × Float :=
  let t := height p / (height p - height q)
  (p.1 + (q.1 - p.1) * t, p.2 + (q.2 - p.2) * t)

/-- The part of a shape where `height` is not negative; `height` is linear. -/
def cut (height : Float × Float → Float) (corners : List (Float × Float)) : List (Float × Float) :=
  (rounds corners).flatMap fun (p, q) =>
    let here := height p ≥ 0
    let there := height q ≥ 0
    (if here then [p] else []) ++ (if here != there then [crossing height p q] else [])

/-- The area of a shape. -/
def area (corners : List (Float × Float)) : Float :=
  let twice := (rounds corners).foldl
    (fun (total : Float) (p, q) => total + (p.1 * q.2 - q.1 * p.2)) 0
  (twice / 2).abs

/-- How much of the pixel at a column and a row a shape covers. -/
def coverage (s : Shape) (column row : Nat) : Float :=
  let corners := s.map fun p => (p.x.toFloat - Float.ofNat column, p.y.toFloat - Float.ofNat row)
  area <| cut (·.1) <| cut (1 - ·.1) <| cut (·.2) <| cut (1 - ·.2) corners

/-- The share of a pixel that shapes cover together. The areas are added up, and the sum counts as
far as it fits into the pixel. -/
def share (shapes : List Shape) (column row : Nat) : Nat :=
  let total := shapes.foldl (fun total s => total + s.coverage column row) 0
  if total ≥ 1 then wholeShare else (Binary64.truncate (65535.99609375 * total)).toNat

end Shape

end EffectTiming.Plot
