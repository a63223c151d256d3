import EffectTiming.Binary64.Text
import EffectTiming.Document.Value

/-!
# Data of any kind

A datum is what a node holds, whatever its kind: a value, a list or a table. The rows of a table are
kept in the order of their keys.

In messages a datum is shown with the names of its types.
-/

namespace EffectTiming.Document

/-- What a node holds. -/
inductive Datum where
  | value (v : Value)
  | list (items : List Datum)
  /-- A table; all keys of a textual one are texts. -/
  | table (textual : Bool) (rows : List (Datum × Datum))

/-! ### Keys -/

namespace Value

/-- Two values are the same key of a table. -/
def sameKey : Value → Value → Bool
  | .null, .null => true
  | .flag a, .flag b => a == b
  | .whole m, .whole n => m == n
  | .real x, .real y => x == y
  | .moment a, .moment b => a.sameKey b
  | .text s, .text t => s == t
  | _, _ => false

/-- The place of a kind of values among the others. Whole numbers that need all bits are a kind of
their own. -/
def rank : Value → Nat
  | .null => 0
  | .flag _ => 1
  | .real _ => 2
  | .whole n => if n < Word.half then 3 else 5
  | .text _ => 4
  | .moment _ => 6

/-- The order of keys. Values that are no numbers come before all other real ones. -/
def precedes : Value → Value → Bool
  | .flag a, .flag b => !a && b
  | .whole m, .whole n => m < n
  | .real x, .real y => x < y || (x.isNaN && !y.isNaN)
  | .moment a, .moment b => a.key < b.key
  | .text s, .text t => s.bytes < t.bytes
  | a, b => a.rank < b.rank

end Value

namespace Datum

/-- The name of the type of lists. -/
def listType : String := "[]interface \x7b\x7d"

/-- The name of the type of tables. -/
def tableType (textual : Bool) : String :=
  if textual then "map[string]interface \x7b\x7d" else "map[interface \x7b\x7d]interface \x7b\x7d"

/-- The name of the type of a list or a table; values have no common one. -/
def collectionType? : Datum → Option String
  | .value _ => none
  | .list _ => some listType
  | .table textual _ => some (tableType textual)

/-- Two data are the same key of a table; lists and tables are no keys. -/
def sameKey : Datum → Datum → Bool
  | .value a, .value b => a.sameKey b
  | _, _ => false

/-- The order of keys. -/
def precedes : Datum → Datum → Bool
  | .value a, .value b => a.precedes b
  | _, _ => false

/-- A table has a row with the given key. -/
def hasKey (rows : List (Datum × Datum)) (key : Datum) : Bool := rows.any (·.1.sameKey key)

/-- Puts a row behind those whose keys do not come after its own. -/
def insertRow (key datum : Datum) : List (Datum × Datum) → List (Datum × Datum)
  | [] => [(key, datum)]
  | row :: rows =>
    if key.precedes row.1 then (key, datum) :: row :: rows else row :: insertRow key datum rows

/-- Puts a row into a table in place of one with the same key. -/
def putRow (key datum : Datum) (rows : List (Datum × Datum)) : List (Datum × Datum) :=
  if hasKey rows key then rows.map fun row => if row.1.sameKey key then (key, datum) else row
  else insertRow key datum rows

end Datum

/-! ### Messages -/

/-- The written form of a value in messages. -/
def Value.shown : Value → String
  | .null => "interface \x7b\x7d(nil)"
  | .flag b => if b then "true" else "false"
  | .whole n =>
    if n < Word.half then toString n else "0x" ++ String.ofList (Nat.toDigits 16 n.toNat)
  | .real x => Binary64.general.text x
  | .moment m => m.shown
  | .text s => s.quoted

namespace Datum

/-- A type with what stands in it. -/
def braced (type : String) (parts : List String) : String :=
  type ++ "\x7b" ++ String.intercalate ", " parts ++ "\x7d"

mutual

/-- The written form of a datum in messages. -/
def shown : Datum → String
  | .value v => v.shown
  | .list items => braced listType (shownItems items)
  | .table textual rows => braced (tableType textual) (shownRows rows)

/-- The written forms of the items of a list. -/
def shownItems : List Datum → List String
  | [] => []
  | item :: items => item.shown :: shownItems items

/-- The written forms of the rows of a table. -/
def shownRows : List (Datum × Datum) → List String
  | [] => []
  | (key, datum) :: rows => (key.shown ++ ":" ++ datum.shown) :: shownRows rows

end

end Datum

end EffectTiming.Document
