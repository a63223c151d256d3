import EffectTiming.Binary64.Parts
import EffectTiming.Plot.Band
import EffectTiming.Plot.Grid
import EffectTiming.Timing.Computed

/-!
# Pictures

A picture shows progress over time with one sample in each column. Behind the curve stand the bands
of the phases and a guide at progress zero and at progress one.
-/

namespace EffectTiming.Plot

/-- An opaque colour. -/
structure Color where
  red : Nat
  green : Nat
  blue : Nat
  deriving DecidableEq, Repr

namespace Color

/-- The ground of a picture. -/
def white : Color := ⟨255, 255, 255⟩

/-- The colour of the curve. -/
def curve : Color := ⟨0xd3, 0x2f, 0x2f⟩

/-- The colour of the guides. -/
def guide : Color := ⟨0x9e, 0x9e, 0x9e⟩

/-- The colour of a phase; outside all phases the ground shows. -/
def ofPhase : Phase → Option Color
  | .idle => none
  | .before => some ⟨0xe3, 0xf2, 0xfd⟩
  | .active => some white
  | .after => some ⟨0xe8, 0xf5, 0xe9⟩

/-- A part of a colour below another one with the given share. -/
def mix (share above below : Nat) : Nat :=
  (below * 257 * (wholeShare - share) + above * 257 * share) / wholeShare / 256

/-- A colour below another one with the given share. -/
def under (below : Color) (share : Nat) (above : Color) : Color :=
  let part := mix share
  ⟨part above.red below.red, part above.green below.green, part above.blue below.blue⟩

end Color

/-- The free space at each side of a picture. -/
def margin : Nat := 24

/-- A plot of progress over time. -/
structure Picture where
  width : Nat
  height : Nat
  bands : List Band
  /-- How much of the pixel at a column and a row the guides cover. -/
  guides : Nat → Nat → Nat
  /-- How much of the pixel at a column and a row the curve covers. -/
  curve : Nat → Nat → Nat

namespace Picture

/-- The least and the greatest progress to show; zero and one are always shown. -/
def bounds (progress : List (Option Float)) : Float × Float :=
  progress.foldl
    (fun (lo, hi) p =>
      match p with
      | none => (lo, hi)
      | some x => (if x < lo then x else lo, if hi < x then x else hi))
    (0, 1)

/-- The height of a progress in a picture that shows the given bounds. -/
def heightOf (height : Nat) (bounds : Float × Float) (progress : Float) : Float :=
  Float.ofNat margin + Float.ofNat (height - 2 * margin) * (bounds.2 - progress) /
    (bounds.2 - bounds.1)

/-- The greatest width and height of pictures that are drawn on a grid. -/
def gridLimit : Nat := 512

/-- How much of each pixel shapes cover. In large pictures `near` picks the shapes that may reach a
column. -/
def covered (width height : Nat) (shapes : List Shape)
    (near : Nat → List Shape) : Nat → Nat → Nat :=
  if width ≤ gridLimit ∧ height ≤ gridLimit then
    let mask := Grid.mask width height shapes
    fun column row => mask.getD (row * width + column) 0
  else fun column row => Shape.share (near column) column row

/-- The line along a guide. -/
def guideLine (width : Nat) (height : Float32) : Shape :=
  .rectangle (Float32.ofNat margin) (height - 0.5) (Float32.ofNat (width - margin)) (height + 0.5)

/-- The parts of the curve, of which the first one ends at column `column`. A part joins two columns
in both of which the effect applies. -/
def segments (column : Nat) : List (Option Float32) → List Shape
  | y :: y' :: rest =>
    let part : Shape :=
      match y, y' with
      | some y, some y' =>
        .line ⟨Float32.ofNat (margin + column - 1), y⟩ ⟨Float32.ofNat (margin + column), y'⟩
      | _, _ => []
    part :: segments (column + 1) (y' :: rest)
  | _ => []

/-- The parts of the curve that may reach a column of pixels: none is more than a pixel wider than
the columns that it joins. -/
def segmentsNear (parts : Array Shape) (column : Nat) : List Shape :=
  [margin + 1, margin, margin - 1].map fun offset =>
    if column < offset then [] else parts.getD (column - offset) []

/-- The picture of samples, one to a column. -/
def ofSamples (width height : Nat) (samples : List ComputedTiming) : Picture :=
  let progress := samples.map ComputedTiming.progress
  let place (x : Float) : Float32 := (heightOf height (bounds progress) x).toFloat32
  let guides := [guideLine width (place 0), guideLine width (place 1)]
  let parts := segments 1 (progress.map (·.map place))
  let indexed := parts.toArray
  { width, height
    bands := Plot.bands (samples.map (·.phase))
    guides := covered width height guides fun _ => guides
    curve := covered width height parts (segmentsNear indexed) }

/-- The colour of the band that a pixel lies in. -/
def ground (p : Picture) (column row : Nat) : Color :=
  if margin ≤ row ∧ row < p.height - margin then
    match p.bands.find? fun b => margin + b.start ≤ column ∧ column < margin + b.stop with
    | some b => (Color.ofPhase b.phase).getD .white
    | none => .white
  else .white

/-- The colour of a pixel. -/
def color (p : Picture) (column row : Nat) : Color :=
  ((p.ground column row).under (p.guides column row) .guide).under (p.curve column row) .curve

end Picture

end EffectTiming.Plot
