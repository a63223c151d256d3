import Mathlib
import EffectTiming.Easing.Reader
import EffectTiming.Timing.Params
import EffectTiming.Proofs.Easing.Same
import EffectTiming.Proofs.Text.Parts
import EffectTiming.Proofs.Timing.Valid

/-!
# Easings are read back

An easing that was read can be used, and what is written for it is read again as an easing with the
same text and the same values. Curves and step functions are written as calls, `name(a, b, …)`; the
reader takes such a call apart into its name and its arguments (`Easing.parse_written`), and the
arguments are numerals or words that are read on their own. A step function may come back under the
other name of a jump at the end, which is written the same.
-/

namespace EffectTiming

open Binary64

/-! ### Calls -/

namespace Easing

/-- A character that may stand in the name of a call and in its arguments. -/
def isPlain (c : Char) : Bool := Text.isSmall c && !Text.isBlank c && c != ',' && c != '('

theorem isSmall_of_isPlain {c : Char} (h : isPlain c = true) : Text.isSmall c = true := by
  simp only [isPlain, Bool.and_eq_true] at h
  exact h.1.1.1

theorem isBlank_of_isPlain {c : Char} (h : isPlain c = true) : Text.isBlank c = false := by
  simp only [isPlain, Bool.and_eq_true, Bool.not_eq_true'] at h
  exact h.1.1.2

theorem comma_notMem {cs : List Char} (h : ∀ c ∈ cs, isPlain c = true) : ',' ∉ cs := by
  intro hmem
  exact absurd (h ',' hmem) (by decide)

theorem open_notMem {cs : List Char} (h : ∀ c ∈ cs, isPlain c = true) : '(' ∉ cs := by
  intro hmem
  exact absurd (h '(' hmem) (by decide)

theorem trimChars_of_isPlain {cs : List Char} (h : ∀ c ∈ cs, isPlain c = true) :
    Text.trimChars cs = cs :=
  Text.trimChars_of_forall fun c hc => isBlank_of_isPlain (h c hc)

theorem isPlain_of_isDigit {c : Char} (h : c.isDigit = true) : isPlain c = true := by
  obtain ⟨hlow, hhigh⟩ : 48 ≤ c.toNat ∧ c.toNat ≤ 57 := Char.isDigit_iff_toNat.mp h
  rw [← Char.ofNat_toNat c]
  interval_cases c.toNat <;> rfl

theorem isPlain_of_isNumeral {c : Char} (h : isNumeral c = true) : isPlain c = true := by
  simp only [isNumeral, Bool.or_eq_true, beq_iff_eq] at h
  rcases h with (((hdigit | rfl) | rfl) | rfl) | rfl
  · exact isPlain_of_isDigit hdigit
  all_goals rfl

/-- What stands behind the first argument of a call: a comma and a blank before each of the
others. -/
def furtherArguments (as : List (List Char)) : List Char := as.flatMap fun a => ',' :: ' ' :: a

variable {name a : List Char} {as : List (List Char)}

theorem split_arguments (h : ∀ b ∈ a :: as, ',' ∉ b) :
    Text.split ',' (a ++ furtherArguments as) = a :: as.map (' ' :: ·) := by
  induction as generalizing a with
  | nil =>
    rw [furtherArguments, List.flatMap_nil, List.append_nil]
    exact Text.split_of_notMem (h a (by simp))
  | cons b bs ih =>
    have hrest : ∀ d ∈ (' ' :: b) :: bs, ',' ∉ d := by
      intro d hd
      rcases List.mem_cons.mp hd with rfl | hd
      · simpa using h b (by simp)
      · exact h d (by simp [hd])
    rw [List.map_cons, ← ih hrest, ← Text.split_append_cons (h a (by simp))]
    rfl

/-- A written call is taken apart into its name and its arguments. -/
theorem call?_written (hname : name ≠ []) (hplain : ∀ c ∈ name, isPlain c = true)
    (hargs : ∀ b ∈ a :: as, ∀ c ∈ b, isPlain c = true) :
    call? (name ++ '(' :: (a ++ furtherArguments as ++ [')'])) =
      some ⟨String.ofList name, (a :: as).map String.ofList⟩ := by
  have hstop : ∀ c ∈ name, (c != '(') = true := by
    intro c hc
    rw [bne_iff_ne]
    rintro rfl
    exact open_notMem hplain hc
  have htrim : ∀ b ∈ as, String.ofList (Text.trimChars (' ' :: b)) = String.ofList b := by
    intro b hb
    rw [Text.trimChars_cons_space, trimChars_of_isPlain (hargs b (List.mem_cons_of_mem a hb))]
  have hparts : (Text.split ',' (a ++ furtherArguments as)).map
      (fun b => String.ofList (Text.trimChars b)) = (a :: as).map String.ofList := by
    rw [split_arguments fun b hb => comma_notMem (hargs b hb), List.map_cons,
      List.map_map, List.map_cons, trimChars_of_isPlain (hargs a List.mem_cons_self)]
    exact congrArg _ (List.map_congr_left htrim)
  rw [call?, List.takeWhile_append_of_pos hstop, List.dropWhile_append_of_pos hstop]
  simp only [List.takeWhile_cons, List.dropWhile_cons, bne_self_eq_false,
    Bool.false_eq_true, if_false, List.append_nil, List.isEmpty_eq_false_iff.mpr hname,
    List.getLast?_concat, Bool.false_or, List.dropLast_concat, hparts, trimChars_of_isPlain hplain]

/-- A text with a bracket is no bare word. -/
theorem ofWord?_of_mem {w : String} (h : '(' ∈ w.toList) : ofWord? w = none := by
  have hne : ∀ v : String, '(' ∉ v.toList → w ≠ v := by
    rintro v hv rfl
    exact hv h
  rw [ofWord?, if_neg (hne _ (by decide)), if_neg (hne _ (by decide)), if_neg (hne _ (by decide)),
    if_neg (hne _ (by decide)), if_neg (hne _ (by decide)), if_neg (hne _ (by decide)),
    if_neg (hne _ (by decide))]

/-- A written call is read by its name. -/
theorem parse_written {s : String}
    (hs : s.toList = name ++ '(' :: (a ++ furtherArguments as ++ [')']))
    (hname : name ≠ []) (hplain : ∀ c ∈ name, isPlain c = true)
    (hargs : ∀ b ∈ a :: as, ∀ c ∈ b, isPlain c = true) :
    parse s =
      if String.ofList name = "cubic-bezier" then ofCurveArguments ((a :: as).map String.ofList)
      else if String.ofList name = "steps" then ofStepArguments ((a :: as).map String.ofList)
      else .error (.unknownFunction (String.ofList name)) := by
  have htrim : Text.trim s = s := by
    refine Text.trim_of_toList (Text.trimChars_of_ends ?_ ?_)
    · obtain ⟨c, rest, rfl⟩ := List.exists_cons_of_ne_nil hname
      rw [hs]
      rintro _ ⟨⟩
      exact isBlank_of_isPlain (hplain c List.mem_cons_self)
    · rw [hs, ← List.cons_append, ← List.append_assoc, List.getLast?_concat]
      rintro _ ⟨⟩
      decide
  have hsmall : ∀ c ∈ s.toList, Text.isSmall c = true := by
    intro c hc
    simp only [hs, furtherArguments, List.mem_append, List.mem_cons,
      List.mem_flatMap, List.not_mem_nil, or_false] at hc
    rcases hc with hc | rfl | (hc | ⟨b, hb, rfl | rfl | hc⟩) | rfl
    · exact isSmall_of_isPlain (hplain c hc)
    · decide
    · exact isSmall_of_isPlain (hargs a List.mem_cons_self c hc)
    · decide
    · decide
    · exact isSmall_of_isPlain (hargs b (List.mem_cons_of_mem a hb) c hc)
    · decide
  have hword : ofWord? s = none := ofWord?_of_mem (by simp [hs])
  rw [parse, htrim, Text.lower_of_isSmall hsmall]
  simp only [hword, hs, call?_written hname hplain hargs]

end Easing

/-! ### What is written for a curve -/

theorem Bezier.parse_text {c : Bezier} (h : c.fault? = none) :
    Easing.parse c.text = .ok (.bezier c) := by
  obtain ⟨h1, h2, h3, h4⟩ := isFinite_of_fault? h
  have hargs : ∀ b ∈ [(general.text c.x1).toList, (general.text c.y1).toList,
      (general.text c.x2).toList, (general.text c.y2).toList], ∀ ch ∈ b, Easing.isPlain ch = true := by
    simp only [List.forall_mem_cons, List.not_mem_nil, false_implies, implies_true, and_true]
    exact ⟨fun ch hc => Easing.isPlain_of_isNumeral (isNumeral_of_mem_text general h1 ch hc),
      fun ch hc => Easing.isPlain_of_isNumeral (isNumeral_of_mem_text general h2 ch hc),
      fun ch hc => Easing.isPlain_of_isNumeral (isNumeral_of_mem_text general h3 ch hc),
      fun ch hc => Easing.isPlain_of_isNumeral (isNumeral_of_mem_text general h4 ch hc)⟩
  have hwritten : c.text.toList = "cubic-bezier".toList ++ '(' :: ((general.text c.x1).toList ++
      Easing.furtherArguments [(general.text c.y1).toList, (general.text c.x2).toList,
        (general.text c.y2).toList] ++ [')']) := by
    rw [toList_text]
    simp [Easing.furtherArguments]
  have hnumbers : Easing.readNumbers [general.text c.x1, general.text c.y1, general.text c.x2,
      general.text c.y2] = .ok [c.x1, c.y1, c.x2, c.y2] := by
    simp only [Easing.readNumbers, ofText?_text general h1, ofText?_text general h2,
      ofText?_text general h3, ofText?_text general h4]
  rw [Easing.parse_written hwritten (by decide) (List.all_eq_true.mp rfl) hargs]
  simp only [List.map_cons, List.map_nil, String.ofList_toList, if_true, Easing.ofCurveArguments,
    List.length_cons, List.length_nil, ne_eq, not_true_eq_false, if_false, hnumbers]
  rw [Easing.checked, Easing.fault?, h]

/-! ### What is written for a step function -/

theorem wholeNumber?_toString {n : ℕ} (h : n < Word.half) :
    wholeNumber? (toString n) = some (n : ℤ) := by
  have hdigits := isDigits_toString n
  obtain ⟨c, rest, hcs⟩ := List.exists_cons_of_ne_nil (toString_ne_nil n)
  have hvalue := digitsValue_toString n
  rw [hcs] at hdigits hvalue
  have hsign : takeSign (toString n).toList = (false, c :: rest) := by
    rw [hcs]
    exact takeSign_of_isDigit (hdigits c List.mem_cons_self) rest
  have hall : (c :: rest).all Char.isDigit = true := List.all_eq_true.mpr hdigits
  rw [wholeNumber?, hsign]
  simp only [List.isEmpty_cons, hall, Bool.not_true, Bool.or_self,
    Bool.false_eq_true, if_false, hvalue]
  rw [if_pos]
  constructor
  · exact (Int.neg_nonpos_of_nonneg (Int.natCast_nonneg _)).trans (Int.natCast_nonneg n)
  · exact_mod_cast h

namespace Staircase

variable {s : Staircase}

/-- The position that is read where `p` was written. -/
def readPosition : StepPosition → StepPosition
  | .jumpEnd => .finish
  | p => p

theorem closing_readPosition (p : StepPosition) : closing (readPosition p) = closing p := by
  cases p <;> rfl

theorem position_word (p : StepPosition) : Easing.position (Keyword.word p) = .known p := by
  cases p <;> decide

theorem isPlain_word (p : StepPosition) :
    ∀ c ∈ (Keyword.word p).toList, Easing.isPlain c = true := by
  cases p <;> exact List.all_eq_true.mp rfl

/-- A usable step function is read back, perhaps under the other name of its position. -/
theorem parse_text {p : StepPosition} (h : s.fault? = none) (hp : s.position = .known p) :
    Easing.parse s.text = Easing.checked (.steps (.ofCount s.count (.known (readPosition p)))) := by
  obtain ⟨-, -, hcount⟩ := exists_position h
  obtain ⟨n, hn⟩ := Int.eq_ofNat_of_zero_le hcount
  have hlt : n < Word.half := by
    have hle := s.le_greatest
    rw [hn] at hle
    exact Nat.lt_succ_of_le (Int.ofNat_le.mp hle)
  have hdigits : ∀ c ∈ (toString n).toList, Easing.isPlain c = true := fun c hc =>
    Easing.isPlain_of_isDigit (isDigits_toString n c hc)
  have htext : s.text.toList = "steps(".toList ++ ((toString n).toList ++ closing p) := by
    rw [toList_text hp, hn]
    rfl
  have hnumber := wholeNumber?_toString hlt
  rw [hn]
  -- the position is the second argument, unless the jump is at the end
  by_cases hend : readPosition p = .finish
  · have hclosing : closing p = Easing.furtherArguments [] ++ [')'] := by
      rw [← closing_readPosition, hend]
      rfl
    have hwritten : s.text.toList = "steps".toList ++ '(' :: ((toString n).toList ++
        Easing.furtherArguments [] ++ [')']) := by
      rw [htext, hclosing, List.append_assoc]
      rfl
    rw [Easing.parse_written hwritten (by decide) (List.all_eq_true.mp rfl)
      (by simpa only [List.forall_mem_singleton] using hdigits), hend]
    simp only [List.map_cons, List.map_nil, String.ofList_toList,
      Easing.ofStepArguments, Easing.ofCount, hnumber, String.reduceEq, if_false, if_true]
  · have hclosing : closing p = Easing.furtherArguments [(Keyword.word p).toList] ++ [')'] := by
      cases p <;> first
        | rfl
        | exact absurd rfl hend
    have hwritten : s.text.toList = "steps".toList ++ '(' :: ((toString n).toList ++
        Easing.furtherArguments [(Keyword.word p).toList] ++ [')']) := by
      rw [htext, hclosing, List.append_assoc]
      rfl
    have hread : readPosition p = p := by
      cases p <;> first
        | rfl
        | exact absurd rfl hend
    rw [Easing.parse_written hwritten (by decide) (List.all_eq_true.mp rfl) (by
      simpa only [List.forall_mem_cons, List.not_mem_nil, false_implies, implies_true,
        and_true] using ⟨hdigits, isPlain_word p⟩), hread]
    simp only [List.map_cons, List.map_nil, String.ofList_toList,
      Easing.ofStepArguments, Easing.ofCount, hnumber, position_word,
      String.reduceEq, if_false, if_true]

/-- What is read back has the same count, and a position that is written the same. -/
theorem readBack_spec {p : StepPosition} (h : s.fault? = none) (hp : s.position = .known p) :
    (ofCount s.count (.known (readPosition p))).fault? = none ∧
      (ofCount s.count (.known (readPosition p))).text = s.text := by
  have hcount : (ofCount s.count (.known (readPosition p))).count = s.count :=
    Word.signed_of_le s.least_le s.le_greatest
  have hnone : readPosition p = .jumpNone ↔ p = .jumpNone := by cases p <;> simp [readPosition]
  constructor
  · rw [fault?, hp] at h
    show (if readPosition p = .jumpNone ∧ (ofCount s.count (.known (readPosition p))).count < 2 then
        some EasingFault.tooFewForJumpNone
      else if (ofCount s.count (.known (readPosition p))).count < 1 then some .countNotPositive
      else none) = none
    simp only [hcount, hnone]
    exact h
  · rw [← String.toList_inj, toList_text rfl, toList_text hp, hcount, closing_readPosition]

end Staircase

/-! ### All easings -/

namespace Easing

theorem usable_of_ofWord? {w : String} {e : Easing} (h : ofWord? w = some e) :
    e.fault? = none ∧ e.Genuine := by
  rw [ofWord?] at h
  split_ifs at h <;> cases h <;> exact ⟨by decide +kernel, by simp [Genuine, NamedCurve.easing]⟩

theorem checked_eq_ok_iff {d e : Easing} : checked d = .ok e ↔ d = e ∧ e.fault? = none := by
  rw [checked]
  constructor
  · intro h
    split at h <;> cases h
    exact ⟨rfl, ‹_›⟩
  · rintro ⟨rfl, h⟩
    rw [h]

theorem usable_of_ofCount {count : String} {p : Coded StepPosition} {e : Easing}
    (h : ofCount count p = .ok e) : e.fault? = none ∧ e.Genuine := by
  rw [ofCount] at h
  split at h
  · cases h
  · obtain ⟨rfl, hfault⟩ := checked_eq_ok_iff.mp h
    exact ⟨hfault, trivial⟩

/-- Only usable easings are read, and a name is read as the curve that belongs to it. -/
theorem usable_of_parse {s : String} {e : Easing} (h : parse s = .ok e) :
    e.fault? = none ∧ e.Genuine := by
  rw [parse] at h
  split at h
  · cases h
    exact usable_of_ofWord? ‹_›
  · split at h
    · cases h
    · split_ifs at h
      · rw [ofCurveArguments] at h
        split_ifs at h
        split at h
        · cases h
        · obtain ⟨rfl, hfault⟩ := checked_eq_ok_iff.mp h
          exact ⟨hfault, trivial⟩
        · cases h
      · rw [ofStepArguments.eq_def] at h
        split at h
        · exact usable_of_ofCount h
        · exact usable_of_ofCount h
        · cases h

/-- What is written for a usable easing is read as an easing with the same text and the same
values. -/
theorem exists_parse_text {e : Easing} (h : e.fault? = none) (hgenuine : e.Genuine) :
    ∃ d, parse e.text = .ok d ∧ d.text = e.text ∧ d.eval = e.eval := by
  cases e with
  | linear => exact ⟨.linear, rfl, rfl, rfl⟩
  | named n c =>
    have hc : c = n.curve := hgenuine
    refine ⟨.named n c, ?_, rfl, rfl⟩
    rw [hc]
    cases n <;> rfl
  | bezier c => exact ⟨.bezier c, Bezier.parse_text h, rfl, rfl⟩
  | steps s =>
    obtain ⟨p, hp, -⟩ := Staircase.exists_position h
    obtain ⟨hfault, htext⟩ := Staircase.readBack_spec h hp
    refine ⟨.steps (.ofCount s.count (.known (Staircase.readPosition p))), ?_, htext, ?_⟩
    · show parse s.text = _
      rw [Staircase.parse_text h hp, checked, fault?, hfault]
    · funext x before
      exact congrFun₂ (Staircase.eval_eq_of_text hfault h htext) x before

end Easing

/-! ### Easings in timing -/

theorem TimingFault.eq_easing_of_field {f : TimingFault} (h : f.field = "easing") :
    ∃ fault, f = .easing fault := by
  cases f with
  | easing fault => exact ⟨fault, rfl⟩
  | _ => exact absurd h (by decide)

/-- A usable easing is not what a check complains of. -/
theorem TimingOptions.field_ne_easing {o : TimingOptions} {f : TimingFault}
    (ho : o.easing.fault? = none) (h : o.validate = .error f) : f.field ≠ "easing" := by
  intro hfield
  obtain ⟨fault, rfl⟩ := TimingFault.eq_easing_of_field hfield
  -- each check in its turn has another complaint, and the last one is about this easing
  rcases error_of_bind h with hduration | ⟨_, -, h⟩
  · unfold checkDuration at hduration
    split at hduration
    · split_ifs at hduration
      cases hduration
    · cases hduration
  rcases error_of_bind h with hiterations | ⟨_, -, h⟩
  · rw [checkIterations] at hiterations
    split_ifs at hiterations <;> cases hiterations
  rcases error_of_bind h with hstart | ⟨_, -, h⟩
  · rw [checkStart] at hstart
    split_ifs at hstart <;> cases hstart
  split at h
  · cases h
  · cases h
  · rw [ho] at h
    cases h

theorem TimingParams.outermostTiming?_ne_easing {o : TimingOptions} {f : Failure}
    (ho : o.easing.fault? = none) (h : ofOptions o = .error f) (kind : FailureKind) :
    f.outermostTiming? ≠ some (kind, "easing") := by
  rw [ofOptions] at h
  cases hv : o.validate with
  | ok p =>
    rw [hv] at h
    cases h
  | error fault =>
    rw [hv] at h
    cases h
    intro hfield
    have hpair : (FailureKind.validation, fault.field) = (kind, "easing") := Option.some.inj hfield
    exact TimingOptions.field_ne_easing ho hv (congrArg Prod.snd hpair)

namespace Easing

theorem text_ofString (s : String) : (RawText.ofString s).text = s := by
  simp [RawText.ofString, RawText.text, Glyph.shown, Function.comp_def]

theorem read_eq_ok_iff {s : RawText} {e : Easing} : read s = .ok e ↔ parse s.text = .ok e := by
  rw [read]
  split
  · rename_i d hd
    rw [hd, Except.ok.injEq, Except.ok.injEq]
  · rename_i hd
    rw [hd]
    simp

/-- Reading and writing easings go together. What is read can be used, so that no check of timing
complains of it; its text is read again, as an easing with the same text and the same values
everywhere; and a failure to read tells the text exactly as it was given. -/
theorem read_text_roundTrip (s : RawText) :
    (∀ e, read s = .ok e →
      e.fault? = none ∧
      (∀ (o : TimingOptions) (f : Failure),
        TimingParams.ofOptions { o with easing := e } = .error f →
        ∀ kind, f.outermostTiming? ≠ some (kind, "easing")) ∧
      ∃ d, read e.text = .ok d ∧ d.text = e.text ∧ ∀ x before, d.eval x before = e.eval x before) ∧
    ∀ f, read s = .error f →
      ∃ reason, f = .timing "animation.ParseEasing" .parsing "" (.parse "easing" s reason) := by
  constructor
  · intro e he
    obtain ⟨hfault, hgenuine⟩ := usable_of_parse (read_eq_ok_iff.mp he)
    obtain ⟨d, hread, htext, heval⟩ := exists_parse_text hfault hgenuine
    refine ⟨hfault, fun o f hf => TimingParams.outermostTiming?_ne_easing hfault hf, d, ?_, htext,
      ?_⟩
    · rw [read_eq_ok_iff, text_ofString]
      exact hread
    · intro x before
      rw [heval]
  · intro f hf
    rw [read] at hf
    split at hf
    · cases hf
    · rename_i e _
      refine ⟨e.reason, ?_⟩
      rw [← Except.error.inj hf, Failure.unreadable]

/-- Three steps in capital letters, with a sign, blanks and the long name of the default
position. -/
def threeSteps : Easing := .steps { count := 3, position := .known .jumpEnd }

/-- The default position is not written, and comes back under its short name. -/
theorem read_text_roundTrip_threeSteps :
    read " STEPS( +3 , Jump-End )\t" = .ok threeSteps ∧ threeSteps.text = "steps(3)" ∧
      ∃ d, read threeSteps.text = .ok d ∧ d.text = threeSteps.text ∧
        ∀ x before, d.eval x before = threeSteps.eval x before := by
  have h : read " STEPS( +3 , Jump-End )\t" = .ok threeSteps := by cbv
  exact ⟨h, by decide, ((read_text_roundTrip _).1 _ h).2.2⟩

end Easing

end EffectTiming
