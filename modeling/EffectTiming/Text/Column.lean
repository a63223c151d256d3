/-!
# Columns

Texts that are filled up with spaces to a common width.
-/

namespace EffectTiming.Text

/-- The text, filled up with spaces behind it to at least `width` characters. -/
def column (width : Nat) (s : String) : String :=
  s ++ String.ofList (List.replicate (width - s.length) ' ')

end EffectTiming.Text
