import EffectTiming.Timing.Words

/-!
# Bands

The columns of a plot fall into bands of one phase each.
-/

namespace EffectTiming.Plot

/-- Neighbouring columns of one phase, from `start` up to but not including `stop`. -/
structure Band where
  phase : Phase
  start : Nat
  stop : Nat
  deriving DecidableEq, Repr

/-- A phase equals itself, so the column that a band starts with never stays behind. -/
theorem length_dropWhile_lt (phase : Phase) (phases : List Phase) :
    ((phase :: phases).dropWhile (· == phase)).length < (phase :: phases).length := by
  rw [List.dropWhile_cons_of_pos (p := (· == phase)) (beq_self_eq_true phase)]
  exact Nat.lt_succ_of_le (List.dropWhile_sublist _).length_le

/-- The bands of the columns from `start` on, which have the given phases. A band goes on up to the
next column of another phase, where the next one starts. -/
def bandsFrom (start : Nat) : List Phase → List Band
  | [] => []
  | phase :: phases =>
    let stop := start + ((phase :: phases).takeWhile (· == phase)).length
    ⟨phase, start, stop⟩ :: bandsFrom stop ((phase :: phases).dropWhile (· == phase))
termination_by phases => phases.length
decreasing_by exact length_dropWhile_lt phase phases

/-- The bands of columns with the given phases. -/
def bands (phases : List Phase) : List Band := bandsFrom 0 phases

end EffectTiming.Plot
