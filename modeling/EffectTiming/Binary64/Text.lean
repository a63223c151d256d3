import EffectTiming.Binary64.Digits

/-!
# Numbers as text

A `Layout` says how the shortest digits of a number are set: which exponents are written
positionally, how wide an exponent is, and how the special numbers are spelt. `general` is the
layout of every report; other documents choose their own record.
-/

namespace EffectTiming.Binary64

/-- The decisions of a number format. -/
structure Layout where
  /-- The least exponent that is still written positionally. -/
  least : Int
  /-- The first exponent that is no longer written positionally. -/
  beyond : Int
  /-- The least number of digits of a written exponent. -/
  exponentWidth : Nat
  infinity : String
  negativeInfinity : String
  nan : String

/-- Numbers in reports: positional from `0.0001` up to six digits before the point, otherwise with
an exponent of at least two digits. -/
def general : Layout := ⟨-4, 6, 2, "+Inf", "-Inf", "NaN"⟩

/-- `n` zeros. -/
def zeros (n : Nat) : String := String.ofList (List.replicate n '0')

/-- Puts zeros in front of a text until it has `width` characters. -/
def padZeros (width : Nat) (s : String) : String := zeros (width - s.length) ++ s

/-- The digits around a decimal point. -/
def positional (d : Decimal) : String :=
  let ds := d.text
  if 0 ≤ d.exponent then ds ++ zeros d.exponent.toNat
  else
    let places := (-d.exponent).toNat
    let cs := (padZeros (places + 1) ds).toList
    let whole := cs.length - places
    String.ofList (cs.take whole) ++ "." ++ String.ofList (cs.drop whole)

/-- The first digit, a point before the others if there are any, and the exponent. -/
def scientific (width : Nat) (d : Decimal) : String :=
  let lead :=
    match d.text.toList with
    | [] => ""
    | [c] => String.ofList [c]
    | c :: rest => String.ofList (c :: '.' :: rest)
  let x := d.scientific
  lead ++ (if x < 0 then "e-" else "e+") ++ padZeros width (toString x.natAbs)

/-- The digits of a decimal in a layout. -/
def Layout.decimal (l : Layout) (d : Decimal) : String :=
  if l.least ≤ d.scientific ∧ d.scientific < l.beyond then positional d
  else scientific l.exponentWidth d

/-- The text of a number: its shortest digits, set in the layout. -/
def Layout.text (l : Layout) (x : Float) : String :=
  match parts x with
  | .nan => l.nan
  | .infinite negative => if negative then l.negativeInfinity else l.infinity
  | .finite negative m e => (if negative then "-" else "") ++ l.decimal (shortest m e)

/-- The number with exactly `places` digits after the point, a half going to the even neighbour. -/
def fixed (places : Nat) (x : Float) : String :=
  match parts x with
  | .nan => general.nan
  | .infinite negative => if negative then general.negativeInfinity else general.infinity
  | .finite negative m e =>
    let n := roundDiv (m * Nat.pow 2 e.toNat * Nat.pow 10 places) (Nat.pow 2 (-e).toNat)
    let cs := (padZeros (places + 1) (toString n)).toList
    let whole := cs.length - places
    (if negative then "-" else "") ++ String.ofList (cs.take whole) ++
      (if places = 0 then "" else "." ++ String.ofList (cs.drop whole))

end EffectTiming.Binary64
