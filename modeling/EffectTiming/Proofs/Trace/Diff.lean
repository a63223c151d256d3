import Mathlib
import EffectTiming.Proofs.Json.SameText
import EffectTiming.Proofs.Trace.File
import EffectTiming.Trace.Diff

/-!
# Differences between traces are exact

Lines are compared at equal places, and a missing line counts as an empty one. So two texts without
a difference are the same up to line ends at their end (`diffLines_eq_nil_iff`). The text of a trace
has exactly one, after its last brace, and so two traces without a difference have one text. They
are then one trace, up to which bytes are stray in their names and in the texts of their samples
(`text_eq_iff`).
-/

namespace EffectTiming.Trace

variable {t a b : Trace} {s : String} {es as : List (List Char)} {cs ds : List Char}

/-! ### Lines at equal places -/

theorem markLine_ne_nil (sign : Char) (line : List Char) : markLine sign line ≠ [] := by
  simp [markLine]

theorem forall_getD_iff (es as : List (List Char)) : (∀ i, es.getD i [] = as.getD i []) ↔
    es.headD [] = as.headD [] ∧ ∀ i, es.tail.getD i [] = as.tail.getD i [] := by
  have hzero : ∀ xs : List (List Char), xs.headD [] = xs.getD 0 [] := by
    intro xs
    cases xs <;> rfl
  have hsucc : ∀ (xs : List (List Char)) i, xs.tail.getD i [] = xs.getD (i + 1) [] := by
    intro xs i
    cases xs <;> rfl
  simp only [hzero, hsucc]
  exact Nat.and_forall_add_one.symm

/-- Nothing is shown if the lines agree at every place, where a missing line counts as an empty
one. -/
theorem diffLines_eq_nil_iff : diffLines es as = [] ↔ ∀ i, es.getD i [] = as.getD i [] := by
  fun_induction diffLines es as with
  | case1 => simp
  | case2 e es ih =>
    rw [List.append_eq_nil_iff, ih, forall_getD_iff (e :: es), ite_eq_left_iff]
    simp [markLine_ne_nil]
  | case3 a as ih =>
    rw [List.append_eq_nil_iff, ih, forall_getD_iff _ (a :: as), ite_eq_left_iff,
      eq_comm (a := [].headD [])]
    simp [markLine_ne_nil]
  | case4 e es a as ih =>
    rw [List.append_eq_nil_iff, ih, forall_getD_iff (e :: es), ite_eq_left_iff]
    simp [markLine_ne_nil]

/-- The longer of two lists of lines that agree is the shorter one with empty lines after it. -/
theorem eq_append_of_getD (hle : as.length ≤ es.length) (h : ∀ i, es.getD i [] = as.getD i []) :
    es = as ++ List.replicate (es.length - as.length) [] := by
  refine List.ext_getElem (by simp [hle]) fun i hi _ => ?_
  have hline : es[i] = as.getD i [] := by
    rw [← h i, List.getD_eq_getElem _ _ hi]
  rw [hline, List.getElem_append]
  split
  · rw [List.getD_eq_getElem]
  · rename_i hlong
    rw [List.getD_eq_default _ _ (not_lt.mp hlong), List.getElem_replicate]

/-- What is shown starts with a mark. -/
theorem diffLines_head (es as : List (List Char)) :
    diffLines es as = [] ∨ ∃ sign cs, diffLines es as = sign :: cs ∧ (sign = '-' ∨ sign = '+') := by
  fun_induction diffLines es as with
  | case1 => exact Or.inl rfl
  | case2 e es ih =>
    split
    · exact ih
    · exact Or.inr ⟨'-', _, rfl, Or.inl rfl⟩
  | case3 a as ih =>
    split
    · exact ih
    · exact Or.inr ⟨'+', _, rfl, Or.inr rfl⟩
  | case4 e es a as ih =>
    split
    · exact ih
    · exact Or.inr ⟨'-', _, rfl, Or.inl rfl⟩

/-! ### Texts -/

/-- The text ends with a line end, and the line before it is not empty. -/
def EndsOneLine (cs : List Char) : Prop := ∃ body x, cs = body ++ [x] ++ ['\n'] ∧ x ≠ '\n'

theorem EndsOneLine.eq_of_append (hcs : EndsOneLine cs) (hds : EndsOneLine ds) {k : ℕ}
    (h : cs = ds ++ List.replicate k '\n') : cs = ds := by
  cases k with
  | zero => simpa using h
  | succ k =>
    -- a line end more stands where the other text has its last visible character
    obtain ⟨body, x, rfl, hx⟩ := hcs
    obtain ⟨rest, y, rfl, -⟩ := hds
    have hends : ['\n'] ++ List.replicate (k + 1) '\n' = List.replicate k '\n' ++
        ['\n'] ++ ['\n'] := by
      rw [← List.replicate_succ', ← List.replicate_succ']
      rfl
    rw [List.append_assoc _ ['\n'], hends, ← List.append_assoc, ← List.append_assoc] at h
    have hlast := List.append_inj_right' (List.append_inj_left' h rfl) rfl
    exact absurd (List.singleton_inj.mp hlast) hx

/-- Texts with one line end each whose lines show no difference are the same. -/
theorem EndsOneLine.eq_of_diffLines (hcs : EndsOneLine cs) (hds : EndsOneLine ds)
    (h : diffLines (Text.split '\n' cs) (Text.split '\n' ds) = []) : cs = ds := by
  have hagree := diffLines_eq_nil_iff.mp h
  have hjoin : ∀ {cs ds : List Char} {k : ℕ},
      Text.split '\n' cs = Text.split '\n' ds ++ List.replicate k [] →
        cs = ds ++ List.replicate k '\n' := by
    intro cs ds k hk
    have := congrArg (Text.join '\n') hk
    rwa [Text.join_append_replicate (Text.split_ne_nil _ _), Text.join_split, Text.join_split]
      at this
  rcases le_total (Text.split '\n' ds).length (Text.split '\n' cs).length with hle | hle
  · exact hcs.eq_of_append hds (hjoin (eq_append_of_getD hle hagree))
  · exact (hds.eq_of_append hcs (hjoin (eq_append_of_getD hle fun i => (hagree i).symm))).symm

/-- A trace is written as an object, so its text ends with a brace on a line. -/
theorem endsOneLine_text (h : t.text = .ok s) : EndsOneLine s.toList := by
  obtain ⟨v, hv, rfl⟩ := exists_ok_of_map h
  obtain ⟨samples, -, rfl⟩ := exists_ok_of_map hv
  rw [JsonValue.pretty, String.toList_ofList, JsonValue.render]
  exact ⟨_, '}', rfl, by decide⟩

theorem chars_of_text (h : t.text = .ok s) : t.chars = s.toList := by
  rw [chars, h]

/-- The trace, with all stray bytes taken for one. -/
def blurred (t : Trace) : Trace := t.mapText RawText.blurred

theorem blurred_of_isText (h : t.isText = true) : t.blurred = t :=
  mapText_of_isText (fun _ => RawText.blurred_of_isText) h

/-- Traces have one text exactly if they differ in nothing but which bytes are stray. -/
theorem text_eq_iff {s' : String} (ha : a.text = .ok s) (hb : b.text = .ok s') :
    s = s' ↔ a.blurred = b.blurred := by
  obtain ⟨v, hv, rfl⟩ := exists_ok_of_map ha
  obtain ⟨w, hw, rfl⟩ := exists_ok_of_map hb
  have hblurred : a.blurred.toJson = .ok v.blurred := toJson_mapText RawText.isEmpty_blurred hv
  have hblurred' : b.blurred.toJson = .ok w.blurred := toJson_mapText RawText.isEmpty_blurred hw
  rw [JsonValue.pretty_eq_iff (writable_toJson hv) (writable_toJson hw)]
  constructor
  · intro h
    have hread : ofJson v.blurred = .ok b.blurred := h ▸ ofJson_toJson hblurred'
    exact Except.ok.inj ((ofJson_toJson hblurred).symm.trans hread)
  · intro h
    rw [h] at hblurred
    exact Except.ok.inj (hblurred.symm.trans hblurred')

/-! ### Differences -/

theorem lines_heading (cs : List Char) :
    Text.lines ("--- expected\n+++ actual\n" ++ String.ofList cs) =
      "--- expected".toList :: "+++ actual".toList :: Text.split '\n' cs := by
  have htext : ("--- expected\n+++ actual\n" ++ String.ofList cs).toList =
      "--- expected".toList ++ '\n' :: ("+++ actual".toList ++ '\n' :: cs) := by
    simp only [String.toList_append, String.toList_ofList]
    rfl
  rw [Text.lines, htext, Text.split_append_cons (by decide), Text.split_append_cons (by decide)]

/-- Traces with different texts are shown to differ below two heading lines. -/
theorem diff_of_chars_ne (ha : EndsOneLine a.chars) (hb : EndsOneLine b.chars)
    (hne : a.chars ≠ b.chars) :
    ∃ rest, Text.lines (a.diff b) = "--- expected".toList :: "+++ actual".toList :: rest ∧
      ∃ line ∈ rest, line.head? = some '-' ∨ line.head? = some '+' := by
  have hdiff : a.diff b = "--- expected\n+++ actual\n" ++
      String.ofList (diffLines (Text.split '\n' b.chars) (Text.split '\n' a.chars)) := if_neg hne
  refine ⟨_, by rw [hdiff, lines_heading], ?_⟩
  rcases diffLines_head (Text.split '\n' b.chars) (Text.split '\n' a.chars) with hnone | hshown
  · exact absurd (hb.eq_of_diffLines ha hnone).symm hne
  · obtain ⟨sign, cs, hcs, hsign⟩ := hshown
    have hmark : sign ≠ '\n' := by
      rcases hsign with rfl | rfl <;> decide
    obtain ⟨part, parts, hparts⟩ := Text.exists_split_cons hmark cs
    rw [hcs, hparts]
    refine ⟨sign :: part, List.mem_cons_self, ?_⟩
    rcases hsign with rfl | rfl
    · exact Or.inl rfl
    · exact Or.inr rfl

/-- A difference tells traces that can be written apart, except by which bytes are stray in their
texts. Nothing is said of two traces with one name and the same samples, to the last bit of their
progress, once all stray bytes are taken for one; and of any others some line is shown below the two
heading lines. Without stray bytes this is equality of names and samples. -/
theorem diff_exact {s s' : String} (ha : a.text = .ok s) (hb : b.text = .ok s') :
    (a.diff b = "" ↔ a.blurred.name = b.blurred.name ∧ a.blurred.samples = b.blurred.samples) ∧
      (¬ (a.blurred.name = b.blurred.name ∧ a.blurred.samples = b.blurred.samples) →
        ∃ rest, Text.lines (a.diff b) = "--- expected".toList :: "+++ actual".toList :: rest ∧
          ∃ line ∈ rest, line.head? = some '-' ∨ line.head? = some '+') ∧
      (a.isText = true → b.isText = true →
        (a.diff b = "" ↔ a.name = b.name ∧ a.samples = b.samples)) := by
  have hmk : ∀ c d : Trace, c = d ↔ c.name = d.name ∧ c.samples = d.samples := by
    rintro ⟨_, _⟩ ⟨_, _⟩
    simp
  have hsame : a.chars = b.chars ↔ a.blurred.name = b.blurred.name ∧
      a.blurred.samples = b.blurred.samples := by
    rw [chars_of_text ha, chars_of_text hb, String.toList_inj, text_eq_iff ha hb, hmk]
  have hshown : a.chars ≠ b.chars → _ := diff_of_chars_ne
    (chars_of_text ha ▸ endsOneLine_text ha) (chars_of_text hb ▸ endsOneLine_text hb)
  have hempty : a.diff b = "" ↔ a.chars = b.chars := by
    refine ⟨fun hempty => ?_, fun hchars => if_pos hchars⟩
    by_contra hne
    obtain ⟨rest, hlines, -⟩ := hshown hne
    rw [hempty] at hlines
    cases hlines
  refine ⟨hempty.trans hsame, ?_, ?_⟩
  · rwa [← hsame]
  · intro hatext hbtext
    rw [hempty, hsame, blurred_of_isText hatext, blurred_of_isText hbtext]

/-- Two traces that differ in the sign of a zero. -/
def restingAt (zero : Float) : Trace :=
  { name := "rest", samples := some [{ time := "0s", phase := "active", progress := some zero }] }

theorem diff_exact_signedZero :
    (∃ s, (restingAt 0).text = .ok s) ∧ (∃ s', (restingAt (-0)).text = .ok s') ∧
      (restingAt 0).diff (restingAt (-0)) ≠ "" ∧
      ∃ rest, Text.lines ((restingAt 0).diff (restingAt (-0))) =
          "--- expected".toList :: "+++ actual".toList :: rest ∧
        ∃ line ∈ rest, line.head? = some '-' ∨ line.head? = some '+' := by
  obtain ⟨s, hs⟩ : ∃ s, (restingAt 0).text = .ok s := ⟨_, rfl⟩
  obtain ⟨s', hs'⟩ : ∃ s', (restingAt (-0)).text = .ok s' := ⟨_, rfl⟩
  have hne : ¬ ((restingAt 0).blurred.name = (restingAt (-0)).blurred.name ∧
      (restingAt 0).blurred.samples = (restingAt (-0)).blurred.samples) := by
    rintro ⟨-, h⟩
    have hzero : (0 : Float) = -0 := by
      simpa [restingAt, blurred, mapText, TraceSample.mapText] using h
    exact absurd (congrArg Float.toBits hzero) (by decide +kernel)
  obtain ⟨hempty, hshown, -⟩ := diff_exact hs hs'
  exact ⟨⟨s, hs⟩, ⟨s', hs'⟩, fun h => hne (hempty.mp h), hshown hne⟩

/-- Two names of one stray byte each are written alike, so that no difference is seen. -/
theorem diff_strayNames :
    let a : Trace := { name := .ofBytes [0xff] }
    let b : Trace := { name := .ofBytes [0xfe] }
    a.name ≠ b.name ∧ (∃ s, a.text = .ok s ∧ b.text = .ok s) ∧ a.diff b = "" :=
  ⟨by decide, ⟨_, rfl, rfl⟩, rfl⟩

end EffectTiming.Trace
