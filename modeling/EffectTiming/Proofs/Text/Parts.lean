import Mathlib
import EffectTiming.Text.Blank
import EffectTiming.Text.Case
import EffectTiming.Text.Split

/-!
# Trimming, lower case and parts

What the first steps of every reader leave alone: a text without blanks at its ends is not trimmed,
a text of small ASCII characters is its own lower case, and a text without the separator is one
part. The parts of a text, put together again, are the text.
-/

namespace EffectTiming.Text

/-! ### Trimming -/

section

variable {c : Char} {cs : List Char}

theorem dropWhile_of_head {p : Char → Bool} (h : ∀ c ∈ cs.head?, p c = false) :
    cs.dropWhile p = cs := by
  cases cs with
  | nil => rfl
  | cons c cs => rw [List.dropWhile_cons_of_neg (by simp [h c rfl])]

/-- A text without blanks at its ends is left as it is. -/
theorem trimChars_of_ends (hfirst : ∀ c ∈ cs.head?, isBlank c = false)
    (hlast : ∀ c ∈ cs.getLast?, isBlank c = false) : trimChars cs = cs := by
  rw [trimChars, dropWhile_of_head hfirst, dropWhile_of_head, List.reverse_reverse]
  rwa [List.head?_reverse]

theorem trimChars_of_forall (h : ∀ c ∈ cs, isBlank c = false) : trimChars cs = cs := by
  refine trimChars_of_ends ?_ ?_
  · intro c hc
    exact h c (List.mem_of_head? hc)
  · intro c hc
    exact h c (List.mem_of_getLast? hc)

/-- A blank in front goes away. -/
@[simp]
theorem trimChars_cons_space (cs : List Char) : trimChars (' ' :: cs) = trimChars cs := by
  rw [trimChars, List.dropWhile_cons_of_pos (by decide), trimChars]

theorem trim_of_toList {s : String} (h : trimChars s.toList = s.toList) : trim s = s := by
  rw [trim, h, String.ofList_toList]

/-! ### Lower case -/

/-- An ASCII character that is no capital letter. -/
def isSmall (c : Char) : Bool := c.toNat < 0x80 && !c.isUpper

theorem lowerChar_of_isSmall (h : isSmall c = true) : lowerChar c = c := by
  rw [isSmall, Bool.and_eq_true, decide_eq_true_eq, Bool.not_eq_true'] at h
  rw [lowerChar, if_pos h.1]
  exact Char.toLower_eq_of_not_isUpper (by simp [h.2])

theorem lower_of_isSmall {s : String} (h : ∀ c ∈ s.toList, isSmall c = true) : lower s = s := by
  rw [lower, List.map_congr_left fun c hc => lowerChar_of_isSmall (h c hc), List.map_id',
    String.ofList_toList]

end

/-! ### Parts -/

variable {α : Type} {c separator : α} {cs part rest : List α}

theorem join_cons_of_ne_nil {parts : List (List α)} (h : parts ≠ []) :
    join separator (part :: parts) = part ++ separator :: join separator parts := by
  obtain ⟨next, parts, rfl⟩ := List.exists_cons_of_ne_nil h
  rfl

theorem join_concat_nil {parts : List (List α)} (h : parts ≠ []) :
    join separator (parts ++ [[]]) = join separator parts ++ [separator] := by
  induction parts with
  | nil => exact absurd rfl h
  | cons part parts ih =>
    cases parts with
    | nil => rfl
    | cons next parts =>
      have hnext : next :: parts ≠ [] := by simp
      rw [List.cons_append, join_cons_of_ne_nil (by simp), ih hnext, join_cons_of_ne_nil hnext]
      simp

/-- Empty parts at the end are separators at the end. -/
theorem join_append_replicate {parts : List (List α)} (h : parts ≠ []) (k : ℕ) :
    join separator (parts ++ List.replicate k []) = join separator parts ++
    List.replicate k separator := by
  induction k with
  | zero => simp
  | succ k ih =>
    have hparts : parts ++ List.replicate k [] ≠ [] := by simp [h]
    rw [List.replicate_succ', List.replicate_succ', ← List.append_assoc, join_concat_nil hparts, ih,
      List.append_assoc]

variable [DecidableEq α]

/-- A text without the separator is one part. -/
theorem split_of_notMem (h : separator ∉ part) : split separator part = [part] := by
  induction part with
  | nil => rfl
  | cons c cs ih =>
    rw [List.mem_cons, not_or] at h
    rw [split, if_neg (Ne.symm h.1), ih h.2]

/-- The first part ends at the first separator. -/
theorem split_append_cons (h : separator ∉ part) :
    split separator (part ++ separator :: rest) = part :: split separator rest := by
  induction part with
  | nil => simp [split]
  | cons c cs ih =>
    rw [List.mem_cons, not_or] at h
    rw [List.cons_append, split, if_neg (Ne.symm h.1), ih h.2]

theorem split_ne_nil (separator : α) (cs : List α) : split separator cs ≠ [] := by
  cases cs with
  | nil => simp [split]
  | cons c cs =>
    rw [split]
    split
    · simp
    · split <;> simp

/-- A character that does not separate stands first in the first part. -/
theorem exists_split_cons (h : c ≠ separator) (cs : List α) :
    ∃ part parts, split separator (c :: cs) = (c :: part) :: parts := by
  obtain ⟨part, parts, hparts⟩ := List.exists_cons_of_ne_nil (split_ne_nil separator cs)
  exact ⟨part, parts, by rw [split, if_neg h, hparts]⟩

theorem join_split (separator : α) (cs : List α) : join separator (split separator cs) = cs := by
  induction cs with
  | nil => rfl
  | cons c cs ih =>
    rw [split]
    split_ifs with hc
    · rw [join_cons_of_ne_nil (split_ne_nil separator cs), ih, hc, List.nil_append]
    · obtain ⟨part, parts, hparts⟩ := List.exists_cons_of_ne_nil (split_ne_nil separator cs)
      rw [hparts] at ih ⊢
      cases parts with
      | nil => exact congrArg (c :: ·) ih
      | cons next parts => exact congrArg (c :: ·) ih

/-- Parts without the separator are found again. -/
theorem split_join {parts : List (List α)} (hne : parts ≠ [])
    (h : ∀ part ∈ parts, separator ∉ part) :
    split separator (join separator parts) = parts := by
  induction parts with
  | nil => exact absurd rfl hne
  | cons part parts ih =>
    rw [List.forall_mem_cons] at h
    cases parts with
    | nil => exact split_of_notMem h.1
    | cons next parts =>
      rw [join_cons_of_ne_nil (by simp), split_append_cons h.1, ih (by simp) h.2]

/-! ### Starts -/

theorem dropStart?_eq_some_iff {start : List α} :
    dropStart? start cs = some rest ↔ cs = start ++ rest := by
  induction start generalizing cs with
  | nil => simp [dropStart?]
  | cons x start ih =>
    cases cs with
    | nil => simp [dropStart?]
    | cons c cs =>
      rw [dropStart?, List.cons_append, List.cons.injEq]
      split_ifs with hx
      · rw [ih]
        simp [hx]
      · simp [Ne.symm hx]

theorem startsWith_iff {start : List α} :
    startsWith start cs = true ↔ ∃ rest, cs = start ++ rest := by
  rw [startsWith, Option.isSome_iff_exists]
  simp only [dropStart?_eq_some_iff]

end EffectTiming.Text
