import EffectTiming.Word

/-!
# The parts of a binary64 number

A finite number is a sign, a whole significand `m` and an exponent `e`; its value is `± m · 2 ^ e`.
Whole parts, remainders and roundings are computed on these parts in exact integer arithmetic, one
rounding at most at the very end, so all of them evaluate inside the logic.
-/

namespace EffectTiming.Binary64

/-- What the sixty-four bits of a number say. -/
inductive Parts where
  /-- The value `m · 2 ^ e`, negated if `negative`. Zero has `m = 0` and keeps its sign. -/
  | finite (negative : Bool) (m : Nat) (e : Int)
  | infinite (negative : Bool)
  | nan
  deriving DecidableEq, Repr

/-- The bit of a significand that is not stored, `2 ^ 52`. -/
abbrev hiddenBit : Nat := 4503599627370496

/-- Splits a number into its parts. -/
def parts (x : Float) : Parts :=
  let bits := x.toBits.toNat
  let negative := decide (Word.half ≤ bits)
  let exponent : Nat := bits / hiddenBit % 2048
  let fraction : Nat := bits % hiddenBit
  if exponent = 2047 then
    if fraction = 0 then .infinite negative else .nan
  else if exponent = 0 then
    .finite negative fraction (-1074)
  else
    .finite negative (fraction + hiddenBit) (exponent - 1075)

/-- Positive infinity. -/
def infinity : Float := Float.ofBits 0x7ff0000000000000

/-- The quiet number that equals nothing. -/
def notANumber : Float := Float.ofBits 0x7ff8000000000000

/-- Zero with the given sign. -/
def signedZero (negative : Bool) : Float := if negative then -0.0 else 0.0

/-- Gives a magnitude its sign. -/
def withSign (negative : Bool) (magnitude : Float) : Float :=
  if negative then -magnitude else magnitude

/-- `m · 2 ^ e` without its fraction. -/
def wholePart (m : Nat) (e : Int) : Nat :=
  if 0 ≤ e then m * Nat.pow 2 e.toNat else m / Nat.pow 2 (-e).toNat

/-- The whole number next to `x` on the side of zero; zero where `x` is not finite. -/
def truncate (x : Float) : Int :=
  match parts x with
  | .finite negative m e => if negative then -(wholePart m e : Int) else wholePart m e
  | _ => 0

/-- The greatest whole number that is not above `x`. Whole numbers, infinities and the number that
equals nothing are left as they are, so the sign of a zero stays. -/
def floor (x : Float) : Float :=
  match parts x with
  | .finite negative m e =>
    if 0 ≤ e then x
    else
      let unit := Nat.pow 2 (-e).toNat
      if m % unit = 0 then x
      else if negative then -Float.ofNat (m / unit + 1) else Float.ofNat (m / unit)
  | _ => x

/-- What is left of `x` after its whole part is taken away, with the sign of `x`, also on zero. -/
def fraction (x : Float) : Float :=
  match parts x with
  | .finite negative m e =>
    if 0 ≤ e then signedZero negative
    else
      let unit := Nat.pow 2 (-e).toNat
      if m % unit = 0 then signedZero negative
      else x - withSign negative (Float.ofNat (m / unit))
  | _ => notANumber

/-- The nearest whole number; a half goes away from zero, and a zero keeps the sign of `x`. -/
def round (x : Float) : Float :=
  match parts x with
  | .finite negative m e =>
    if 0 ≤ e then x
    else
      let unit := Nat.pow 2 (-e).toNat
      let up := if unit ≤ 2 * (m % unit) then 1 else 0
      withSign negative (Float.ofNat (m / unit + up))
  | _ => x

/-- `x` is neither infinite nor the number that equals nothing. -/
def isFinite (x : Float) : Bool :=
  match parts x with
  | .finite .. => true
  | _ => false

end EffectTiming.Binary64
