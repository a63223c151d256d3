import EffectTiming.Text.Blank
import EffectTiming.Text.Bytes
import EffectTiming.Text.Quoted
import EffectTiming.Text.Split

/-!
# Raw texts

A raw text is what a sequence of bytes shows: characters, and stray bytes that belong to none. A
stray byte is shown as a replacement character, while between quotes it keeps its number.
-/

namespace EffectTiming

/-- One piece of a raw text. -/
inductive Glyph where
  | char (c : Char)
  /-- A byte that belongs to no character. -/
  | stray (byte : Nat)
  deriving DecidableEq, Repr

namespace Glyph

/-- The character that a piece is shown as. -/
def shown : Glyph → Char
  | .char c => c
  | .stray _ => '\ufffd'

/-- The piece is a character. -/
def isChar : Glyph → Bool
  | .char _ => true
  | .stray _ => false

/-- The bytes of a piece. -/
def bytes : Glyph → List Nat
  | .char c => Text.bytes (String.singleton c)
  | .stray byte => [byte]

/-- A byte by its number. -/
def quoteByte (byte : Nat) : List Char := '\\' :: 'x' :: Text.hexDigits 2 byte

/-- The written form of a piece between quotes. -/
def quoted : Glyph → List Char
  | .char c => Text.quoteChar c
  | .stray byte => quoteByte byte

/-- The written form of a piece where every byte beyond printable ASCII is escaped. -/
def quotedBytes : Glyph → List Char
  | .char c => Text.quoteCharBytes c
  | .stray byte => quoteByte byte

end Glyph

/-- A text that came as bytes. -/
@[ext]
structure RawText where
  glyphs : List Glyph
  deriving DecidableEq, Repr

namespace RawText

/-- A text without stray bytes. -/
def ofString (s : String) : RawText := ⟨s.toList.map .char⟩

instance : Coe String RawText := ⟨ofString⟩

/-- The pieces of a sequence of bytes. -/
def glyphsOfBytes : Nat → List Nat → List Glyph
  | 0, _ => []
  | _, [] => []
  | fuel + 1, b :: bs =>
    -- Three zero bytes at the end complete no character and keep the look-ahead simple.
    match Text.firstChar? ((b :: bs).take 4 ++ [0, 0, 0]) with
    | some (c, width) => .char c :: glyphsOfBytes fuel ((b :: bs).drop width)
    | none => .stray b :: glyphsOfBytes fuel bs

/-- What a sequence of bytes shows. -/
def ofBytes (bs : List Nat) : RawText := ⟨glyphsOfBytes bs.length bs⟩

/-- The bytes of a raw text. -/
def bytes (r : RawText) : List Nat := r.glyphs.flatMap Glyph.bytes

/-- The text that is shown. -/
def text (r : RawText) : String := String.ofList (r.glyphs.map Glyph.shown)

/-- There are no stray bytes. -/
def isText (r : RawText) : Bool := r.glyphs.all Glyph.isChar

/-- There is nothing. -/
def isEmpty (r : RawText) : Bool := r.glyphs.isEmpty

/-- The piece is a blank. -/
def isBlank (g : Glyph) : Bool := Text.isBlank g.shown

/-- The text without the blanks at both ends. -/
def trim (r : RawText) : RawText :=
  ⟨((r.glyphs.dropWhile isBlank).reverse.dropWhile isBlank).reverse⟩

/-- The lines of a text. -/
def lines (r : RawText) : List (List Glyph) := Text.split (.char '\n') r.glyphs

/-- The text between double quotes, with escapes for all that cannot be printed. -/
def quoted (r : RawText) : String := String.ofList ('"' :: r.glyphs.flatMap Glyph.quoted ++ ['"'])

/-- The text between double quotes, with every byte of a control or non-ASCII character escaped. -/
def quotedBytes (r : RawText) : String :=
  String.ofList ('"' :: r.glyphs.flatMap Glyph.quotedBytes ++ ['"'])

end RawText

end EffectTiming
