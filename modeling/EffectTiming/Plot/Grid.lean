import EffectTiming.Plot.Shape

/-!
# Shapes on a grid

In small pictures corners are moved onto a grid with 512 lines to a pixel, and covered areas are
found in whole numbers. Each side of a shape adds, in every row that it passes, the area to its
right; going round a shape, what lies beyond it cancels out. `mask` lists the shares of all pixels.
-/

namespace EffectTiming.Plot.Grid

/-- The lines to a pixel. -/
abbrev lines : Int := 512

/-- The grid line at or before a coordinate, on the side of zero. -/
def units (x : Float32) : Int := Binary64.truncate (x * 512).toFloat

/-- What a side adds to the pixels of a row, as pairs of a column and an area. The side passes `d`
lines of the row downwards, and goes from `x` to `x'` meanwhile. The areas are in square units, `2 ^
18` to a pixel, each of them cut off to a whole number. -/
def sideAreas (d x x' : Int) : List (Int × Int) :=
  let x₀ := min x x'
  let x₁ := max x x'
  let first := x₀ / lines
  let last := (x₁ + lines - 1) / lines
  if last ≤ first + 1 then
    let middle := (x + x') / 2 - first * lines
    [(first, d * (lines - middle)), (first + 1, d * middle)]
  else
    let run := x₁ - x₀
    let into := x₀ - first * lines
    let left := (lines - into) * (lines - into)
    let right := (x₁ - last * lines + lines) * (x₁ - last * lines + lines)
    let part (area : Int) : Int := Int.tdiv (area * d) (2 * run)
    let inner :=
      if last = first + 2 then [(first + 1, part (2 * run * lines - left - right))]
      else
        let second := (lines + lines / 2 - into) * (2 * lines)
        let between := (List.range (last - first - 3).toNat).map fun (i : Nat) =>
          (first + 2 + (i : Int), Int.tdiv (d * (lines * lines)) run)
        (first + 1, part (second - left)) :: between ++
          [(last - 1,
            part (2 * run * lines - second - (last - first - 3) * (2 * lines * lines) - right))]
    (first, part left) :: inner ++ [(last, part right)]

/-- The areas of a row-wise picture. -/
structure Areas where
  width : Nat
  cells : Array Int

/-- Adds to the areas in a row. -/
def Areas.add (areas : Areas) (row : Nat) (amounts : List (Int × Int)) : Areas :=
  { areas with
    cells := amounts.foldl
      (fun cells (column, amount) =>
        cells.modify (row * areas.width + min column.toNat areas.width) (· + amount))
      areas.cells }

/-- A side that goes downwards. -/
structure Side where
  /-- `1`, or `-1` if the shape has the side upwards. -/
  direction : Int
  top : Int
  bottom : Int
  /-- How far the side goes to the right in each row. -/
  slope : Float32

/-- Passes a number of rows along a side, from a row and a place within it on. -/
def Side.pass (s : Side) : Nat → Int → Int → Areas → Areas
  | 0, _, _, areas => areas
  | rows + 1, row, x, areas =>
    let dy := min ((row + 1) * lines) s.bottom - max (row * lines) s.top
    let x' := x + Binary64.truncate ((Float.ofInt dy).toFloat32 * s.slope).toFloat
    let areas := if row < 0 then areas else areas.add row.toNat (sideAreas (dy * s.direction) x x')
    s.pass rows (row + 1) x' areas

/-- Adds what a side of a shape covers. Sides that are level add nothing. -/
def addSide (height : Nat) (areas : Areas) (a b : Point) : Areas :=
  let (direction, a, b) := if b.y < a.y then ((-1 : Int), b, a) else (1, a, b)
  if b.y - a.y ≤ 0.000001 then areas
  else
    let side : Side := ⟨direction, units a.y, units b.y, (b.x - a.x) / (b.y - a.y)⟩
    let row := side.top / lines
    let stop := min ((side.bottom + lines - 1) / lines) height
    side.pass (stop - row).toNat row (units a.x) areas

/-- Adds what a shape covers. -/
def addShape (height : Nat) (areas : Areas) (s : Shape) : Areas :=
  (rounds s).foldl (fun areas (a, b) => addSide height areas a b) areas

/-- The share of an area. -/
def shareOf (area : Int) : Nat := min (area.natAbs / 4) wholeShare

/-- The shares of all pixels, row by row: the area of a pixel is what all sides before it and in it
add. -/
def mask (width height : Nat) (shapes : List Shape) : Array Nat :=
  let areas := shapes.foldl (addShape height) ⟨width, Array.replicate (width * height) 0⟩
  (areas.cells.foldl
    (fun ((total, shares) : Int × Array Nat) amount =>
      (total + amount, shares.push (shareOf (total + amount))))
    (0, #[])).2

end EffectTiming.Plot.Grid
