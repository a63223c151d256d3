import EffectTiming.Text.Split
import EffectTiming.Trace.File

/-!
# Differences between traces

Two traces are compared line by line at equal places. A trace that cannot be written counts as an
empty text.
-/

namespace EffectTiming.Trace

/-- The line of a difference. -/
def markLine (sign : Char) (line : List Char) : List Char := sign :: line ++ ['\n']

/-- The differing lines at equal places. A missing line counts as an empty one, but is not shown. -/
def diffLines : List (List Char) → List (List Char) → List Char
  | [], [] => []
  | e :: es, [] => (if e = [] then [] else markLine '-' e) ++ diffLines es []
  | [], a :: as => (if a = [] then [] else markLine '+' a) ++ diffLines [] as
  | e :: es, a :: as => (if e = a then [] else markLine '-' e ++ markLine '+' a) ++ diffLines es as

/-- The characters of a trace's text. -/
def chars (t : Trace) : List Char :=
  match t.text with
  | .ok s => s.toList
  | .error _ => []

/-- The difference from an expected trace, empty if there is none. -/
def diff (actual expected : Trace) : String :=
  let a := actual.chars
  let e := expected.chars
  if a = e then ""
  else "--- expected\n+++ actual\n" ++ String.ofList
    (diffLines (Text.split '\n' e) (Text.split '\n' a))

end EffectTiming.Trace
