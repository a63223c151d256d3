/-!
# Places and characters

Places in a document, with lines and columns counted from zero, and the kinds of characters that
tell its words and lines apart.
-/

namespace EffectTiming.Document

/-- A place in a document. -/
structure Mark where
  index : Nat := 0
  line : Nat := 0
  column : Nat := 0
  deriving DecidableEq, Repr, Inhabited

/-- A space or a tab. -/
def isGap (c : Char) : Bool := c == ' ' || c == '\t'

/-- A character that ends a line. -/
def isBreak (c : Char) : Bool :=
  c == '\r' || c == '\n' || c == '\u0085' || c == '\u2028' || c == '\u2029'

/-- The text ends, or a line does. -/
def endsLine : List Char → Bool
  | [] => true
  | c :: _ => isBreak c

/-- The text ends, or a gap or a line break follows. -/
def endsWord : List Char → Bool
  | [] => true
  | c :: _ => isGap c || isBreak c

/-- A letter, a digit, an underscore or a dash, all of them ASCII. -/
def isNameChar (c : Char) : Bool := c.isAlphanum || c == '_' || c == '-'

/-- A character that may stand in a document. -/
def isAllowed (c : Char) : Bool :=
  let n := c.toNat
  n == 0x09 || n == 0x0a || n == 0x0d || (0x20 ≤ n && n ≤ 0x7e) || n == 0x85 ||
    (0xa0 ≤ n && n ≤ 0xd7ff) || (0xe000 ≤ n && n ≤ 0xfffd) || 0x10000 ≤ n

/-- The byte order mark. -/
def byteOrderMark : Char := '\ufeff'

end EffectTiming.Document
