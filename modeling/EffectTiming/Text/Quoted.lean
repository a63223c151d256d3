import EffectTiming.Text.Printable

/-!
# Quoted text

Texts in messages stand between double quotes. `quoted` leaves printable characters as they are and
escapes all others; `quoteCharBytes`, used for durations, keeps ASCII only and writes everything
else byte by byte.
-/

namespace EffectTiming.Text

/-- A digit in base sixteen. -/
def hexDigit (n : Nat) : Char := (Nat.toDigits 16 (n % 16)).headD '0'

/-- The last `width` digits of `n` in base sixteen. -/
def hexDigits : Nat → Nat → List Char
  | 0, _ => []
  | width + 1, n => hexDigits width (n / 16) ++ [hexDigit n]

/-- The written form of one character between quotes. -/
def quoteChar (c : Char) : List Char :=
  let n := c.toNat
  if c = '"' then ['\\', '"']
  else if c = '\\' then ['\\', '\\']
  else if isPrintable c then [c]
  else if n = 0x07 then ['\\', 'a']
  else if n = 0x08 then ['\\', 'b']
  else if n = 0x0c then ['\\', 'f']
  else if c = '\n' then ['\\', 'n']
  else if c = '\r' then ['\\', 'r']
  else if c = '\t' then ['\\', 't']
  else if n = 0x0b then ['\\', 'v']
  else if n < 0x20 || n = 0x7f then '\\' :: 'x' :: hexDigits 2 n
  else if n < 0x10000 then '\\' :: 'u' :: hexDigits 4 n
  else '\\' :: 'U' :: hexDigits 8 n

/-- The text between double quotes, with escapes for all that cannot be printed. -/
def quoted (s : String) : String :=
  String.ofList ('"' :: s.toList.flatMap quoteChar ++ ['"'])

/-- The written form of one character where every byte beyond printable ASCII is escaped. -/
def quoteCharBytes (c : Char) : List Char :=
  let n := c.toNat
  if n < 0x20 || 0x80 ≤ n then
    (String.singleton c).toUTF8.toList.flatMap fun b => '\\' :: 'x' :: hexDigits 2 b.toNat
  else if c = '"' ∨ c = '\\' then ['\\', c]
  else [c]

end EffectTiming.Text
