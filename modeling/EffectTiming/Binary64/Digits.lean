import EffectTiming.Binary64.Parts

/-!
# The fewest digits that read back

Every number `m · 2 ^ e` stands for an interval of reals: those that round to it. A decimal reads
back as the number exactly if it lies in that interval. `shortest` looks at the decimals with one
digit, then with two, and so on, and takes the first that reads back; of two with equally many
digits it takes the nearer one.
-/

namespace EffectTiming.Binary64

/-- The decimal `digits · 10 ^ exponent`. -/
structure Decimal where
  digits : Nat
  exponent : Int
  deriving DecidableEq, Repr

namespace Decimal

/-- Moves the zeros at the end of the digits into the exponent, at most `fuel` of them. -/
def stripZeros : Nat → Decimal → Decimal
  | 0, d => d
  | fuel + 1, d =>
    if d.digits ≠ 0 ∧ d.digits % 10 = 0 then stripZeros fuel ⟨d.digits / 10, d.exponent + 1⟩ else d

/-- The text of the digits. -/
def text (d : Decimal) : String := toString d.digits

/-- The exponent of the first digit: `x` has the form `d.ddd · 10 ^ x.scientific`. -/
def scientific (d : Decimal) : Int := d.text.length - 1 + d.exponent

end Decimal

/-- An interval around a number, all ends counted in quarters of its last binary place: the number
is `4 · m`, the interval runs from `low` to `high` and holds its ends if `closed`. -/
structure Reach where
  low : Nat
  middle : Nat
  high : Nat
  closed : Bool

/-- The interval of reals that round to `m · 2 ^ e`. Below a power of two the numbers stand twice as
dense, so the interval ends sooner there. -/
def reach (m : Nat) (e : Int) : Reach :=
  { low := if m = hiddenBit ∧ -1074 < e then 4 * m - 1 else 4 * m - 2
    middle := 4 * m
    high := 4 * m + 2
    closed := m % 2 = 0 }

/-- The position of the first decimal digit of `m · 2 ^ e`, for `m ≠ 0`: the `k` with
`10 ^ k ≤ m · 2 ^ e < 10 ^ (k + 1)`. The guess from the binary length is at most one too low. -/
def decimalExponent (m : Nat) (e : Int) : Int :=
  let guess := Int.fdiv ((m.log2 + e) * 30103) 100000
  let next := guess + 1
  let left := m * Nat.pow 2 e.toNat * Nat.pow 10 (-next).toNat
  let right := Nat.pow 10 next.toNat * Nat.pow 2 (-e).toNat
  if right ≤ left then next else guess

/-- The decimals of the grid `10 ^ grid` on both sides of the number, kept if they read back: the
nearer one of those, and the even one if both are equally near. -/
def nearestOnGrid (m : Nat) (e grid : Int) : Option Decimal :=
  let r := reach m e
  -- Both the number and the grid step, as whole multiples of one small unit.
  let scale := Nat.pow 2 (e - 2).toNat * Nat.pow 10 (-grid).toNat
  let step := Nat.pow 2 (2 - e).toNat * Nat.pow 10 grid.toNat
  let value := r.middle * scale
  let below := value / step
  let inside (d : Nat) : Bool :=
    let p := d * step
    if r.closed then decide (r.low * scale ≤ p ∧ p ≤ r.high * scale)
    else decide (r.low * scale < p ∧ p < r.high * scale)
  let gapBelow := value - below * step
  let gapAbove := (below + 1) * step - value
  let takeBelow := gapBelow < gapAbove || (gapBelow == gapAbove && below % 2 == 0)
  match inside below, inside (below + 1) with
  | true, true => some ⟨if takeBelow then below else below + 1, grid⟩
  | true, false => some ⟨below, grid⟩
  | false, true => some ⟨below + 1, grid⟩
  | false, false => none

/-- Tries `count`, `count + 1`, … digits, `fuel` times. -/
def shortestFrom (m : Nat) (e first : Int) : Nat → Nat → Decimal
  | 0, _ => ⟨m * Nat.pow 2 e.toNat, 0⟩
  | fuel + 1, count =>
    match nearestOnGrid m e (first + 1 - count) with
    | some d => d
    | none => shortestFrom m e first fuel (count + 1)

/-- The shortest decimal that reads back as `m · 2 ^ e`. Seventeen digits always suffice. -/
def shortest (m : Nat) (e : Int) : Decimal :=
  if m = 0 then ⟨0, 0⟩
  else Decimal.stripZeros 20 (shortestFrom m e (decimalExponent m e) 17 1)

/-- `numerator / denominator` to the nearest whole number, a half going to the even one. -/
def roundDiv (numerator denominator : Nat) : Nat :=
  let q := numerator / denominator
  let r := numerator % denominator
  if denominator < 2 * r ∨ (denominator = 2 * r ∧ q % 2 = 1) then q + 1 else q

end EffectTiming.Binary64
