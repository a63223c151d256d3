/-!
# Bytes of a text

The bytes of a text in UTF-8, the first character of a sequence of bytes, and bytes written in base
sixty-four.
-/

namespace EffectTiming.Text

/-- The byte is an inner byte of a character. -/
def isInner (b : Nat) : Bool := b / 64 = 2

/-- The bytes of a text. -/
def bytes (s : String) : List Nat := s.toUTF8.toList.map UInt8.toNat

/-- The first character of a sequence of bytes and how many bytes it takes; none if the first byte
starts no character. The shortest form of a character is the only one. -/
def firstChar? : List Nat → Option (Char × Nat)
  | a :: b :: c :: d :: _ =>
    if a < 0x80 then some (Char.ofNat a, 1)
    else if 0xc2 ≤ a && a < 0xe0 && isInner b then some (Char.ofNat (a % 32 * 64 + b % 64), 2)
    else if 0xe0 ≤ a && a < 0xf0 && isInner b && isInner c then
      let n := a % 16 * 4096 + b % 64 * 64 + c % 64
      if 0x800 ≤ n && !(0xd800 ≤ n && n < 0xe000) then some (Char.ofNat n, 3) else none
    else if 0xf0 ≤ a && a < 0xf5 && isInner b && isInner c && isInner d then
      let n := a % 8 * 262144 + b % 64 * 4096 + c % 64 * 64 + d % 64
      if 0x10000 ≤ n && n < 0x110000 then some (Char.ofNat n, 4) else none
    else none
  | _ => none

/-! ### Bytes written in base sixty-four -/

/-- The value of a digit in base sixty-four. -/
def sixBits? (c : Char) : Option Nat :=
  if 'A' ≤ c && c ≤ 'Z' then some (c.toNat - 'A'.toNat)
  else if 'a' ≤ c && c ≤ 'z' then some (c.toNat - 'a'.toNat + 26)
  else if c.isDigit then some (c.toNat - '0'.toNat + 52)
  else if c = '+' then some 62
  else if c = '/' then some 63
  else none

/-- The bytes of groups of four digits. Only the last group may be filled up with equals signs. -/
def sixtyFour? : List Char → Option (List Nat)
  | [] => some []
  | [a, b, '=', '='] => do
    let x := (← sixBits? a) * 64 + (← sixBits? b)
    return [x / 16]
  | [a, b, c, '='] => do
    let x := ((← sixBits? a) * 64 + (← sixBits? b)) * 64 + (← sixBits? c)
    return [x / 1024, x / 4 % 256]
  | a :: b :: c :: d :: rest => do
    let x := (((← sixBits? a) * 64 + (← sixBits? b)) * 64 + (← sixBits? c)) * 64 + (← sixBits? d)
    return x / 65536 :: x / 256 % 256 :: x % 256 :: (← sixtyFour? rest)
  | _ => none

/-- The bytes that are written in base sixty-four; line breaks do not count. -/
def ofSixtyFour? (s : String) : Option (List Nat) :=
  sixtyFour? (s.toList.filter fun c => c ≠ '\r' ∧ c ≠ '\n')

/-- A digit in base sixty-four. -/
def sixBits (n : Nat) : Char :=
  if n < 26 then Char.ofNat ('A'.toNat + n)
  else if n < 52 then Char.ofNat ('a'.toNat + n - 26)
  else if n < 62 then Char.ofNat ('0'.toNat + n - 52)
  else if n = 62 then '+'
  else '/'

/-- Bytes in base sixty-four. The last group is filled up with equals signs. -/
def toSixtyFour : List Nat → List Char
  | [] => []
  | [a] => [sixBits (a / 4), sixBits (a % 4 * 16), '=', '=']
  | [a, b] => [sixBits (a / 4), sixBits (a % 4 * 16 + b / 16), sixBits (b % 16 * 4), '=']
  | a :: b :: c :: rest =>
    sixBits (a / 4) :: sixBits (a % 4 * 16 + b / 16) :: sixBits (b % 16 * 4 + c / 64) ::
      sixBits (c % 64) :: toSixtyFour rest

end EffectTiming.Text
