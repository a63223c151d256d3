import Mathlib
import EffectTiming.Reference.Page
import EffectTiming.Proofs.Text.Parts

/-!
# Sections and code samples of reference pages

A page is made line by line, and what is open is carried from one line to the next. `walk` says for
a part of the lines what is open behind them and what they turn into, given the lines that follow;
parts can be put together (`walk_append`), and a page is one walk (`process_eq`).

The only way for a line to depend on a later one is that an import stands there. A section does not
start with one, and its heading closes an index, so a section is processed as if it were a page of
its own.

Inside a code sample the lines are still looked at one by one. A sample comes out as it is exactly
if none of its lines is taken for something else: an example's title would become three other lines,
none of which is a title (`exampleTitle?_of_mem_walk`), and every other line that is taken for
something else is lost, while no line can make up for it (`length_walk_le`).
-/

namespace EffectTiming.Reference

variable {o : Open} {line : Line} {next : Option Line} {ls before inner after rest : List Line}

/-! ### Walking over a part of a page -/

/-- What is open behind some lines, and the lines that they turn into, if `rest` follows. -/
def walk : Open → List Line → List Line → Open × List Line
  | o, [], _ => (o, [])
  | o, line :: ls, rest =>
    let step := processLine o line (ls ++ rest).head?
    let others := walk step.1 ls rest
    (others.1, step.2 ++ others.2)

theorem walk_append (o : Open) (ls ms rest : List Line) :
    walk o (ls ++ ms) rest =
      ((walk (walk o ls (ms ++ rest)).1 ms rest).1,
        (walk o ls (ms ++ rest)).2 ++ (walk (walk o ls (ms ++ rest)).1 ms rest).2) := by
  induction ls generalizing o with
  | nil => rfl
  | cons line ls ih => simp only [List.cons_append, walk, List.append_assoc, ih]

theorem processLines_eq (o : Open) (ls : List Line) : processLines o ls = (walk o ls []).2 := by
  induction ls generalizing o with
  | nil => rfl
  | cons line ls ih => simp only [processLines, walk, List.append_nil, ih]

/-- The lines without the heading of the package. -/
def unheaded : List Line → List Line
  | [] => []
  | line :: rest => if isHeading line then rest else line :: rest

theorem process_eq (ls : List Line) : process ls = (walk {} (unheaded ls) []).2 := by
  cases ls with
  | nil => rfl
  | cons line rest => exact processLines_eq _ _

/-- A heading counts only on the first line. -/
theorem unheaded_append (h : ∀ line ∈ after.head?, isHeading line = false) (before : List Line) :
    unheaded (before ++ after) = unheaded before ++ after := by
  cases before with
  | cons line before =>
    rw [List.cons_append, unheaded, unheaded]
    split_ifs <;> rfl
  | nil =>
    cases after with
    | nil => rfl
    | cons line after => simp [unheaded, h line rfl]

/-! ### Sections -/

/-- Lines are looked ahead of only for an import. -/
theorem walk_of_head (h : ∀ line ∈ rest.head?, Text.startsWith (lineOf "import ") line = false)
    (o : Open) (ls : List Line) : walk o ls rest = walk o ls [] := by
  induction ls generalizing o with
  | nil => rfl
  | cons line ls ih =>
    have hnext : opensImports line (ls ++ rest).head? = opensImports line (ls ++ []).head? := by
      cases ls with
      | cons other ls => rfl
      | nil =>
        cases rest with
        | nil => rfl
        | cons other rest =>
          change (_ && Text.startsWith (lineOf "import ") other) = (_ && false)
          rw [h other rfl]
    simp only [walk, processLine, hnext, ih]

theorem isHeading_of_startsSection (h : startsSection line = true) : isHeading line = false := by
  obtain ⟨title, rfl⟩ := Text.startsWith_iff.mp h
  rfl

theorem not_import_of_startsSection (h : startsSection line = true) :
    Text.startsWith (lineOf "import ") line = false := by
  obtain ⟨title, rfl⟩ := Text.startsWith_iff.mp h
  rfl

/-- A section closes an index. -/
theorem processLine_of_startsSection (h : startsSection line = true) (ho : o.imports = false)
    (next : Option Line) : processLine o line next = processLine {} line next := by
  obtain ⟨index, imports⟩ := o
  cases ho
  simp [processLine, h]

/-- What is open at the end of a page. -/
def openAfter (ls : List Line) : Open := (walk {} (unheaded ls) []).1

/-- A section is processed like a page of its own, unless an import block is open before it. -/
theorem process_sections (hopen : (openAfter before).imports = false)
    (hsection : ∃ line ∈ after.head?, startsSection line = true) :
    process (before ++ after) = process before ++ process after ∧
      ((∀ line ∈ before ++ after, Glyph.char '\n' ∉ line) →
        body ⟨Text.join (.char '\n') (before ++ after)⟩ =
          ⟨Text.join (.char '\n') (process before ++ process after)⟩) := by
  obtain ⟨heading, hmem, hstarts⟩ := hsection
  obtain ⟨lines, rfl⟩ := List.head?_eq_some_iff.mp hmem
  have hfirst : ∀ line ∈ (heading :: lines).head?, isHeading line = false := by
    rintro _ ⟨⟩
    exact isHeading_of_startsSection hstarts
  have hahead : ∀ line ∈ (heading :: lines).head?,
      Text.startsWith (lineOf "import ") line = false := by
    rintro _ ⟨⟩
    exact not_import_of_startsSection hstarts
  have halone : walk (openAfter before) (heading :: lines) [] = walk {} (heading :: lines) [] := by
    simp only [walk, processLine_of_startsSection hstarts hopen]
  have hprocess : process (before ++ heading :: lines) = process before ++
      process (heading :: lines) := by
    rw [process_eq, process_eq, process_eq, unheaded_append hfirst, walk_append, List.append_nil,
      walk_of_head hahead]
    change _ ++ (walk (openAfter before) _ _).2 = _
    rw [halone, ← List.nil_append (heading :: lines), unheaded_append hfirst]
    rfl
  refine ⟨hprocess, ?_⟩
  intro hlines
  rw [body, RawText.lines, Text.split_join (by simp) hlines, hprocess]

/-- An import block and an index before a section, and a wrapper in it. -/
theorem process_sections_afterIndex :
    (openAfter [lineOf "# a", lineOf "```go", lineOf "import b", lineOf "```",
        lineOf "c", lineOf "## Index", lineOf "d"]).imports = false ∧
      process ([lineOf "# a", lineOf "```go", lineOf "import b", lineOf "```",
          lineOf "c", lineOf "## Index", lineOf "d"] ++
            [lineOf "## e", lineOf "<p>", lineOf "f"]) =
        [lineOf "c"] ++ [lineOf "## e", lineOf "f"] :=
  ⟨by decide, (process_sections (by decide) ⟨lineOf "## e", rfl, by decide⟩).1⟩

/-! ### Code samples -/

/-- The line is not taken for anything but itself. -/
structure Unmarked (line : Line) (next : Option Line) : Prop where
  not_index : isIndex line = false
  not_imports : opensImports line next = false
  not_title : exampleTitle? line = none
  not_wrapper : isWrapper line = false

theorem Unmarked.processLine_eq (h : Unmarked line next) :
    processLine {} line next = ({}, [line]) := by
  simp [processLine, plainLine, h.not_index, h.not_imports, h.not_title, h.not_wrapper]

theorem walk_of_unmarked
    (h : ∀ above line below, ls = above ++ line :: below → Unmarked line (below ++ rest).head?) :
    walk {} ls rest = ({}, ls) := by
  induction ls with
  | nil => rfl
  | cons line ls ih =>
    have hline : Unmarked line (ls ++ rest).head? := h [] line ls rfl
    have hlines := ih fun above other below heq => h (line :: above) other below (by rw [heq]; rfl)
    simp only [walk, hline.processLine_eq, hlines, List.singleton_append]

/-- A line is lost, or it is one outside an index and an import block. -/
theorem processLine_cases (o : Open) (line : Line) (next : Option Line) :
    (processLine o line next).2 = [] ∨
      (isIndex line = false ∧ opensImports line next = false ∧
        (processLine o line next).2 = plainLine line) := by
  rw [processLine]
  split_ifs with hindex hskip himports
  · exact .inl rfl
  · exact .inl rfl
  · exact .inl rfl
  · rw [Bool.or_eq_true, not_or, Bool.not_eq_true, Bool.not_eq_true] at himports
    exact .inr ⟨Bool.eq_false_of_not_eq_true hindex, himports.2, rfl⟩

theorem plainLine_of_title {title : Line} (h : exampleTitle? line = some title) :
    plainLine line = [[], lineOf "**" ++ title ++ lineOf ":**", []] := by
  rw [plainLine, h]

theorem plainLine_of_not_title (h : exampleTitle? line = none) :
    plainLine line = if isWrapper line then [] else [line] := by
  rw [plainLine, h]

/-- What a line turns into is never the title of an example. -/
theorem exampleTitle?_of_mem_processLine {out : Line} (h : out ∈ (processLine o line next).2) :
    exampleTitle? out = none := by
  rcases processLine_cases o line next with hlost | ⟨-, -, hplain⟩
  · rw [hlost] at h
    cases h
  · rw [hplain] at h
    cases htitle : exampleTitle? line with
    | some title =>
      rw [plainLine_of_title htitle] at h
      simp only [List.mem_cons, List.not_mem_nil, or_false] at h
      rcases h with rfl | rfl | rfl <;> rfl
    | none =>
      rw [plainLine_of_not_title htitle] at h
      split_ifs at h
      · cases h
      · rwa [List.mem_singleton.mp h]

theorem exampleTitle?_of_mem_walk {out : Line} (h : out ∈ (walk o ls rest).2) :
    exampleTitle? out = none := by
  induction ls generalizing o with
  | nil => cases h
  | cons line ls ih =>
    rcases List.mem_append.mp h with hline | hlines
    · exact exampleTitle?_of_mem_processLine hline
    · exact ih hlines

theorem length_processLine_le (h : exampleTitle? line = none) (o : Open) (next : Option Line) :
    (processLine o line next).2.length ≤ 1 := by
  rcases processLine_cases o line next with hlost | ⟨-, -, hplain⟩
  · simp [hlost]
  · rw [hplain, plainLine_of_not_title h]
    split_ifs <;> simp

/-- Lines that are no titles turn into no more lines than they are. -/
theorem length_walk_le (h : ∀ line ∈ ls, exampleTitle? line = none) (o : Open) (rest : List Line) :
    (walk o ls rest).2.length ≤ ls.length := by
  induction ls generalizing o with
  | nil => exact le_rfl
  | cons line ls ih =>
    rw [List.forall_mem_cons] at h
    have hline := length_processLine_le h.1 o (ls ++ rest).head?
    have hlines := ih h.2 (processLine o line (ls ++ rest).head?).1
    simp only [walk, List.length_append, List.length_cons]
    omega

/-- Any other line that is taken for something else is lost, whatever is open. -/
theorem unmarked_of_processLine (h : exampleTitle? line = none)
    (hout : (processLine o line next).2 ≠ []) :
    Unmarked line next := by
  rcases processLine_cases o line next with hlost | ⟨hindex, himports, hplain⟩
  · exact absurd hlost hout
  · refine ⟨hindex, himports, h, ?_⟩
    rw [hplain, plainLine_of_not_title h] at hout
    by_contra hwrapper
    rw [Bool.not_eq_false] at hwrapper
    exact hout (if_pos hwrapper)

/-- If lines come out as they are, none of them is taken for something else. -/
theorem unmarked_of_walk {above below : List Line}
    (h : (walk o (above ++ line :: below) rest).2 = above ++ line :: below) :
    Unmarked line (below ++ rest).head? := by
  have htitles : ∀ other ∈ above ++ line :: below, exampleTitle? other = none := by
    intro other hother
    rw [← h] at hother
    exact exampleTitle?_of_mem_walk hother
  rw [List.forall_mem_append, List.forall_mem_cons] at htitles
  obtain ⟨htop, hline, hbottom⟩ := htitles
  have hlength := congrArg List.length h
  rw [walk_append] at hlength
  simp only [walk, List.length_append, List.length_cons] at hlength
  have habove := length_walk_le htop o (line :: below ++ rest)
  -- the lines below cannot make up for a line that is lost
  refine unmarked_of_processLine hline (o := (walk o above (line :: below ++ rest)).1) ?_
  intro hlost
  have hbelow := length_walk_le hbottom
    (processLine (walk o above (line :: below ++ rest)).1 line (below ++ rest).head?).1 rest
  rw [hlost, List.length_nil] at hlength
  omega

/-- The line that closes a code sample. -/
def fence : Line := lineOf "```"

/-- The lines of a code sample: the first one opens it, and the next one that is a fence closes
it. -/
structure IsCodeSample (opener : Line) (inner : List Line) : Prop where
  opens : Text.startsWith fence opener = true
  not_imports : ∀ line ∈ (inner ++ [fence]).head?, Text.startsWith (lineOf "import ") line = false
  closes_first : fence ∉ inner

theorem unmarked_fence (next : Option Line) : Unmarked fence next := ⟨rfl, rfl, rfl, rfl⟩

theorem IsCodeSample.unmarked_opener {opener : Line} (h : IsCodeSample opener inner)
    (after : List Line) :
    Unmarked opener (inner ++ [fence] ++ after).head? := by
  have hnext : (inner ++ [fence] ++ after).head? = (inner ++ [fence]).head? := by
    cases inner <;> rfl
  obtain ⟨second, hsecond⟩ : ∃ second, (inner ++ [fence]).head? = some second := by
    cases inner <;> exact ⟨_, rfl⟩
  have himports : opensImports opener (some second) = false := by
    rw [opensImports, h.not_imports second hsecond, Bool.and_false]
  obtain ⟨word, rfl⟩ := Text.startsWith_iff.mp h.opens
  rw [hnext, hsecond]
  exact ⟨rfl, himports, rfl, rfl⟩

/-- The lines inside a sample decide whether it comes out as it is. -/
theorem IsCodeSample.walk_eq_iff {opener : Line} (h : IsCodeSample opener inner)
    (after : List Line) :
    (walk {} (opener :: (inner ++ [fence])) after).2 = opener :: (inner ++ [fence]) ↔
      ∀ above line below, inner = above ++ line :: below →
      Unmarked line (below ++ [fence]).head? := by
  have hahead (below : List Line) : (below ++ [fence] ++ after).head? =
      (below ++ [fence]).head? := by
    cases below <;> rfl
  constructor
  · rintro hkept above line below rfl
    have hsame : (walk {} ((opener :: above) ++ line :: (below ++ [fence])) after).2 =
        (opener :: above) ++ line :: (below ++ [fence]) := by
      simpa only [List.cons_append, List.append_assoc] using hkept
    rw [← hahead]
    exact unmarked_of_walk hsame
  · intro hinner
    have hlines : walk {} inner ([fence] ++ after) = ({}, inner) := by
      apply walk_of_unmarked
      intro above line below heq
      rw [← List.append_assoc, hahead]
      exact hinner above line below heq
    have hfence : walk {} [fence] after = ({}, [fence]) := by
      simp only [walk, (unmarked_fence _).processLine_eq, List.append_nil]
    rw [walk, (h.unmarked_opener after).processLine_eq, walk_append, hlines, hfence]
    rfl

/-- A code sample outside an index and an import block comes out as it is exactly if none of its
lines is taken for the heading of the index, the start of an import block, the title of an example
or a wrapper around one. -/
theorem codeSample_kept_iff {text : RawText} {opener : Line}
    (hlines : text.lines = before ++ (opener :: (inner ++ [fence]) ++ after))
    (hsample : IsCodeSample opener inner) (hopen : openAfter before = {}) :
    let sample := opener :: (inner ++ [fence])
    process text.lines =
        process before ++ ((walk {} sample after).2 ++
          processLines (walk {} sample after).1 after) ∧
      ((walk {} sample after).2 = sample ↔
        ∀ above line below, inner = above ++ line :: below →
        Unmarked line (below ++ [fence]).head?) := by
  intro sample
  refine ⟨?_, hsample.walk_eq_iff after⟩
  have hfirst : ∀ line ∈ (sample ++ after).head?, isHeading line = false := by
    rintro _ ⟨⟩
    obtain ⟨word, rfl⟩ := Text.startsWith_iff.mp hsample.opens
    rfl
  have hahead : ∀ line ∈ (sample ++ after).head?,
      Text.startsWith (lineOf "import ") line = false := by
    rintro _ ⟨⟩
    obtain ⟨word, rfl⟩ := Text.startsWith_iff.mp hsample.opens
    rfl
  rw [hlines, process_eq, process_eq, unheaded_append hfirst, walk_append, List.append_nil,
    walk_of_head hahead]
  change _ ++ (walk (openAfter before) _ _).2 = _
  rw [hopen, walk_append, List.append_nil, processLines_eq]

/-- A sample behind an index, with a line that is no wrapper because it says more. -/
theorem codeSample_kept_behindIndex :
    IsCodeSample (lineOf "```go") [lineOf "<p>a"] ∧
      openAfter [lineOf "# b", lineOf "## Index", lineOf "c", lineOf "## d"] = {} ∧
      (walk {} [lineOf "```go", lineOf "<p>a", fence] [lineOf "</p>"]).2 =
      [lineOf "```go", lineOf "<p>a", fence] := by
  have hsample : IsCodeSample (lineOf "```go") [lineOf "<p>a"] := ⟨rfl, by simp; rfl, by decide⟩
  have hopen : openAfter [lineOf "# b", lineOf "## Index", lineOf "c", lineOf "## d"] = {} := by
    decide
  have hlines : (RawText.ofString "# b\n## Index\nc\n## d\n```go\n<p>a\n```\n</p>").lines =
      [lineOf "# b", lineOf "## Index", lineOf "c", lineOf "## d"] ++
        (lineOf "```go" :: ([lineOf "<p>a"] ++ [fence]) ++ [lineOf "</p>"]) := rfl
  refine ⟨hsample, hopen, ?_⟩
  apply (codeSample_kept_iff hlines hsample hopen).2.mpr
  rintro above line below heq
  cases above with
  | nil =>
    cases heq
    exact ⟨rfl, rfl, rfl, rfl⟩
  | cons first above => simp at heq

/-- A wrapper inside a code sample is lost, also if the sample is the whole page. -/
theorem codeSample_loses_wrapper :
    IsCodeSample (lineOf "```html") [lineOf "<p>"] ∧
      body "```html\n<p>\n```" = "```html\n```" ∧
      ¬ (RawText.ofString "```html\n<p>\n```").lines.Sublist
        (process (RawText.ofString "```html\n<p>\n```").lines) :=
  ⟨⟨rfl, by simp; rfl, by decide⟩, rfl, by decide⟩

end EffectTiming.Reference
