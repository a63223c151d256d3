import EffectTiming.Binary64.Text
import EffectTiming.Text.Raw

/-!
# JSON

Values as they stand in a file: a number is the text of its digits, and the members of an object
keep their order. `JsonValue.pretty` writes a value with two spaces for each level. Its text holds
no stray bytes: each of them is written as a replacement character by its number.
-/

namespace EffectTiming

/-- A JSON value. -/
inductive JsonValue where
  | null
  | bool (b : Bool)
  | number (literal : String)
  | string (s : RawText)
  | array (items : List JsonValue)
  | object (members : List (String × JsonValue))
  deriving Inhabited

namespace JsonValue

/-- Numbers in files: positional from a millionth up to twenty-one digits. -/
def numberLayout : Binary64.Layout := ⟨-6, 21, 1, "+Inf", "-Inf", "NaN"⟩

/-- A character between quotes. Line separators are escaped although they need not be. -/
def escapeChar (c : Char) : List Char :=
  let n := c.toNat
  if c = '"' ∨ c = '\\' then ['\\', c]
  else if n = 0x08 then ['\\', 'b']
  else if n = 0x0c then ['\\', 'f']
  else if c = '\n' then ['\\', 'n']
  else if c = '\r' then ['\\', 'r']
  else if c = '\t' then ['\\', 't']
  else if n < 0x20 ∨ n = 0x2028 ∨ n = 0x2029 then '\\' :: 'u' :: Text.hexDigits 4 n
  else [c]

/-- A piece of a text between quotes. Every stray byte is written in the same way, and a replacement
character in another one. -/
def escapeGlyph : Glyph → List Char
  | .char c => escapeChar c
  | .stray _ => "\\ufffd".toList

/-- A text between quotes. -/
def quote (s : RawText) : List Char := '"' :: s.glyphs.flatMap escapeGlyph ++ ['"']

/-- The start of a line. -/
def newLine (depth : Nat) : List Char := '\n' :: List.replicate (2 * depth) ' '

mutual

/-- The written form of a value whose first line stands at a depth. -/
def render (depth : Nat) : JsonValue → List Char
  | .null => "null".toList
  | .bool b => (if b then "true" else "false").toList
  | .number literal => literal.toList
  | .string s => quote s
  | .array [] => ['[', ']']
  | .array (v :: vs) =>
    '[' :: newLine (depth + 1) ++ render (depth + 1) v ++ renderItems (depth + 1) vs ++
      newLine depth ++ [']']
  | .object [] => ['{', '}']
  | .object ((k, v) :: ms) =>
    '{' :: newLine (depth + 1) ++ quote k ++ [':', ' '] ++ render (depth + 1) v ++
      renderMembers (depth + 1) ms ++ newLine depth ++ ['}']

/-- The items after the first one. -/
def renderItems (depth : Nat) : List JsonValue → List Char
  | [] => []
  | v :: vs => ',' :: newLine depth ++ render depth v ++ renderItems depth vs

/-- The members after the first one. -/
def renderMembers (depth : Nat) : List (String × JsonValue) → List Char
  | [] => []
  | (k, v) :: ms =>
    ',' :: newLine depth ++ quote k ++ [':', ' '] ++ render depth v ++ renderMembers depth ms

end

/-- The written form of a value, with the end of its last line. -/
def pretty (v : JsonValue) : String := String.ofList (render 0 v ++ ['\n'])

end JsonValue

end EffectTiming
