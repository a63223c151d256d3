import Mathlib
import EffectTiming.Proofs.Easing.Reader
import EffectTiming.Proofs.Sampling.Accepted
import EffectTiming.Proofs.Timing.Merge

/-!
# The first fault of a description

Resolving a description makes eleven checks in a fixed order. `Check.Passes` says of each what it
accepts, by the texts and numbers of its own field; the check of the timing as a whole comes after
those of its texts, and looks at what they have been read as. A description is refused exactly if a
check fails, and the failure names the field of the first one, whatever stands in the fields behind
it.

The readers are taken one at a time: `Makes` says that a computation makes certain checks in turn,
and `Makes.bind` puts computations one after the other.
-/

namespace EffectTiming.Description

open Binary64

/-! ### The checks -/

/-- A check of a description. -/
inductive Check where
  | version | delay | endDelay | duration | direction | fill | easing | timing
      | timeline | rate | endpoint
  deriving DecidableEq, Repr

/-- The letter of a version may be left out. -/
def withLetter (text : RawText) : RawText :=
  if text.glyphs.head? = some (.char 'v') then text else ⟨.char 'v' :: text.glyphs⟩

/-- The text is a version of the only major version there is, or blank. -/
def IsVersion (read? : RawText → Option Version) (text : RawText) : Prop :=
  text.trim.isEmpty = true ∨
    ∃ v, read? (withLetter text.trim) = some v ∧ v.major = currentVersion.major

/-- The text is a duration, or blank. -/
def IsSpan (text : RawText) : Prop := text.trim.isEmpty = true ∨ ∃ s, Span.read text.trim = .ok s

/-- The text stands for an automatic duration. -/
def IsAuto (text : RawText) : Prop :=
  text.trim.isEmpty = true ∨ Text.sameWord text.trim.text "auto" = true

/-- The text is a word of the given kind, in any case and between any blanks. -/
def IsWord (α : Type) [Keyword α] (text : RawText) : Prop :=
  ∃ a ∈ (Keyword.all : List α), Keyword.word a = Text.lower (Text.trim text.text)

namespace Check

/-- The checks in the order in which they are made. -/
def order : List Check :=
  [version, delay, endDelay, duration, direction, fill, easing, timing, timeline, rate, endpoint]

/-- The field that is named if the check fails. -/
def field : Check → String
  | version => "version"
  | delay => "timing.delay"
  | endDelay => "timing.endDelay"
  | duration => "timing.duration"
  | direction => "timing.direction"
  | fill => "timing.fill"
  | easing => "timing.easing"
  | timing => "timing"
  | timeline => "timeline.duration"
  | rate => "playback.rate"
  | endpoint => "playback.endpoint"

/-- What the check accepts, given a reader of versions. -/
def Passes (read? : RawText → Option Version) (d : Description) : Check → Prop
  | version => IsVersion read? d.version
  | delay => IsSpan d.timing.delay
  | endDelay => IsSpan d.timing.endDelay
  | duration => IsAuto d.timing.duration ∨ ∃ s, Span.read d.timing.duration.trim = .ok s
  | direction => d.timing.direction.isEmpty = true ∨ IsWord Direction d.timing.direction
  | fill => d.timing.fill.isEmpty = true ∨ IsWord FillMode d.timing.fill
  | easing => d.timing.easing.isEmpty = true ∨ ∃ e, Easing.read d.timing.easing = .ok e
  | timing =>
    (∀ s, ¬ IsAuto d.timing.duration → Span.read d.timing.duration.trim = .ok s → 0 ≤ s.ns) ∧
      ((∃ n, HasValue (d.timing.iterations.getD 1) n ∧ 0 ≤ n) ∨
        IsInfinite (d.timing.iterations.getD 1)) ∧
      ∃ r, HasValue d.timing.iterationStart r ∧ 0 ≤ r
  | timeline =>
    if d.timeline.progress then
      d.timeline.duration.isEmpty = true ∨
      ∃ s, Span.read d.timeline.duration.trim = .ok s ∧ 0 < s.ns
    else d.timeline.duration.isEmpty = true
  | rate => ∀ x, d.playback.rate = some x → isFinite x = true
  | endpoint => d.playback.endpoint.trim.isEmpty = true ∨ IsWord Endpoint d.playback.endpoint

/-- All checks before this one pass, and this one does not. -/
def FirstToFail (read? : RawText → Option Version) (d : Description) (k : Check) : Prop :=
  ∃ before after, order = before ++ k :: after ∧
    (∀ j ∈ before, j.Passes read? d) ∧ ¬ k.Passes read? d

end Check

/-! ### Making checks in turn -/

variable {read? : RawText → Option Version} {d : Description} {ks js : List Check}
  {k : Check} {α β : Type}

/-- The computation goes on if all the checks pass, and else breaks off with the field of the first
that does not. -/
def Makes (read? : RawText → Option Version) (d : Description) (ks : List Check) :
    Except SetupFault α → Prop
  | .ok _ => ∀ k ∈ ks, k.Passes read? d
  | .error f => ∃ before k after, ks = before ++ k :: after ∧ (∀ j ∈ before, j.Passes read? d) ∧
      ¬ k.Passes read? d ∧ f.field = k.field

theorem makes_none (a : α) : Makes read? d [] (Except.ok a) := by
  intro k hk
  cases hk

theorem makes_one {x : Except SetupFault α} (hok : (∃ a, x = .ok a) ↔ k.Passes read? d)
    (hfield : ∀ f, x = .error f → f.field = k.field) : Makes read? d [k] x := by
  cases x with
  | ok a =>
    intro j hj
    rw [List.mem_singleton.mp hj]
    exact hok.mp ⟨a, rfl⟩
  | error f =>
    refine ⟨[], k, [], rfl, nofun, ?_, hfield f rfl⟩
    intro hpasses
    obtain ⟨a, ha⟩ := hok.mpr hpasses
    cases ha

/-- A reader all of whose faults are of one form. -/
theorem makes_reader {γ : Type} {x : Except SetupFault α} {fault : γ → SetupFault}
    (hok : (∃ a, x = .ok a) ↔ k.Passes read? d)
    (hfault : ∀ f, x = .error f → ∃ cause, f = fault cause)
    (hfield : ∀ cause, (fault cause).field = k.field) : Makes read? d [k] x := by
  refine makes_one hok ?_
  intro f hf
  obtain ⟨cause, rfl⟩ := hfault f hf
  exact hfield cause

/-- One computation after the other makes the checks of both. -/
theorem Makes.bind {x : Except SetupFault α} {g : α → Except SetupFault β} (hx : Makes read? d ks x)
    (hg : ∀ a, x = .ok a → Makes read? d js (g a)) : Makes read? d (ks ++ js) (x >>= g) := by
  cases x with
  | error f =>
    obtain ⟨before, k, after, hsplit, hbefore, hk, hfield⟩ := hx
    exact ⟨before, k, after ++ js, by simp [hsplit], hbefore, hk, hfield⟩
  | ok a =>
    have hrest : Makes read? d js (g a) := hg a rfl
    show Makes read? d (ks ++ js) (g a)
    cases hga : g a with
    | ok b =>
      rw [hga] at hrest
      intro k hk
      rcases List.mem_append.mp hk with hk | hk
      · exact hx k hk
      · exact hrest k hk
    | error f =>
      rw [hga] at hrest
      obtain ⟨before, k, after, hsplit, hbefore, hk, hfield⟩ := hrest
      refine ⟨ks ++ before, k, after, by simp [hsplit], ?_, hk, hfield⟩
      intro j hj
      rcases List.mem_append.mp hj with hj | hj
      · exact hx j hj
      · exact hbefore j hj

/-! ### Readers of texts -/

theorem trim_trim (text : RawText) : text.trim.trim = text.trim := by
  -- what is left starts like the text without its first blanks, so in front there is nothing to
  -- drop
  have hstart : text.trim.glyphs <+: text.glyphs.dropWhile RawText.isBlank :=
    List.rdropWhile_prefix _ _
  have hfront : text.trim.glyphs.dropWhile RawText.isBlank = text.trim.glyphs := by
    rw [List.dropWhile_eq_self_iff]
    intro hlength
    rw [hstart.getElem hlength]
    exact List.dropWhile_get_zero_not _ _ _
  show RawText.mk ((text.trim.glyphs.dropWhile RawText.isBlank).rdropWhile RawText.isBlank) =
    text.trim
  rw [hfront]
  exact congrArg RawText.mk (List.rdropWhile_idempotent _ _)

theorem eq_of_mapError {ε δ : Type} {x : Except ε α} {f : ε → δ} {e : δ}
    (h : x.mapError f = .error e) :
    ∃ cause, e = f cause := by
  cases x with
  | ok a => cases h
  | error cause => exact ⟨cause, (Except.error.inj h).symm⟩

theorem exists_mapError_iff {ε δ : Type} {x : Except ε α} {f : ε → δ} :
    (∃ a, x.mapError f = .ok a) ↔ ∃ a, x = .ok a :=
  exists_congr fun _ => mapError_eq_ok_iff

variable {text : RawText} {f : SetupFault}

theorem readSpan_ok_iff (fault : Span.LiteralError → SetupFault) :
    (∃ s, readSpan fault text = .ok s) ↔ IsSpan text := by
  simp only [readSpan, IsSpan]
  split
  · simp [*]
  · simp [*, mapError_eq_ok_iff]

theorem readSpan_fault {fault : Span.LiteralError → SetupFault}
    (h : readSpan fault text = .error f) :
    ∃ cause, f = fault cause := by
  simp only [readSpan] at h
  split at h
  · cases h
  · exact eq_of_mapError h

theorem isAuto_iff : IsAuto text ↔
    (text.trim.isEmpty || Text.sameWord text.trim.text "auto") = true := by
  rw [IsAuto, Bool.or_eq_true]

theorem readDuration_eq_ok_iff {duration : Option Span} : readDuration text = .ok duration ↔
    (IsAuto text ∧ duration = none) ∨
      (¬ IsAuto text ∧ ∃ s, Span.read text.trim = .ok s ∧ duration = some s) := by
  simp only [readDuration, readSpan, trim_trim]
  by_cases hauto : IsAuto text
  · rw [if_pos (isAuto_iff.mp hauto)]
    simp [hauto, eq_comm]
  · have hempty : ¬ text.trim.isEmpty = true := fun hempty => hauto (Or.inl hempty)
    rw [if_neg (mt isAuto_iff.mpr hauto), if_neg hempty]
    cases Span.read text.trim <;> simp [hauto, Except.map, Except.mapError, eq_comm]

theorem readDuration_ok_iff :
    (∃ duration, readDuration text = .ok duration) ↔ IsAuto text ∨
    ∃ s, Span.read text.trim = .ok s := by
  simp only [readDuration_eq_ok_iff]
  by_cases hauto : IsAuto text <;> simp [hauto]

theorem readDuration_fault (h : readDuration text = .error f) : ∃ cause, f = .duration cause := by
  simp only [readDuration] at h
  split at h
  · cases h
  · cases hspan : readSpan .duration text.trim with
    | ok s =>
      rw [hspan] at h
      cases h
    | error e =>
      rw [hspan] at h
      cases h
      exact readSpan_fault hspan

theorem read?_eq_some_iff [Keyword α] :
    (∃ a, Keyword.read? α text.text = some a) ↔ IsWord α text := by
  rw [← Option.isSome_iff_exists, Keyword.read?, List.find?_isSome]
  simp [IsWord]

theorem direction_ok_iff : (∃ a, Direction.read text = .ok a) ↔ IsWord Direction text := by
  rw [← read?_eq_some_iff, Direction.read]
  cases Keyword.read? Direction text.text <;> simp

theorem fill_ok_iff : (∃ a, FillMode.read text = .ok a) ↔ IsWord FillMode text := by
  rw [← read?_eq_some_iff, FillMode.read]
  cases Keyword.read? FillMode text.text <;> simp

theorem readUnlessEmpty_ok_iff (fault : Failure → SetupFault) (read : RawText → Except Failure α)
    (absent : α) :
    (∃ a, readUnlessEmpty fault read absent text = .ok a) ↔
      text.isEmpty = true ∨ ∃ a, read text = .ok a := by
  rw [readUnlessEmpty]
  split
  · simp [*]
  · simp [*, mapError_eq_ok_iff]

theorem readUnlessEmpty_fault {fault : Failure → SetupFault}
    {read : RawText → Except Failure α} {absent : α}
    (h : readUnlessEmpty fault read absent text = .error f) : ∃ cause, f = fault cause := by
  rw [readUnlessEmpty] at h
  split at h
  · cases h
  · exact eq_of_mapError h

/-! ### Timing as a whole -/

theorem readDuration_nonneg_iff {duration : Option Span} (h : readDuration text = .ok duration) :
    0 ≤ (duration.getD .zero).ns ↔
      ∀ s, ¬ IsAuto text → Span.read text.trim = .ok s → 0 ≤ s.ns := by
  rcases readDuration_eq_ok_iff.mp h with ⟨hauto, rfl⟩ | ⟨hauto, s, hs, rfl⟩
  · simp [hauto]
  · simp [hauto, hs]

theorem fault?_of_readEasing {e : Easing}
    (h : readUnlessEmpty .easing Easing.read .linear text = .ok e) :
    e.fault? = none := by
  rw [readUnlessEmpty] at h
  split at h
  · cases h
    rfl
  · exact (Easing.usable_of_parse (Easing.read_eq_ok_iff.mp (mapError_eq_ok_iff.mp h))).1

/-- Once all texts are read, the check of the timing comes down to its numbers: directions and fill
modes that are read are known, and easings that are read can be used. -/
theorem valid_iff_passes {duration : Option Span} {easing : Easing}
    (hduration : readDuration d.timing.duration = .ok duration)
    (heasing : readUnlessEmpty .easing Easing.read .linear d.timing.easing = .ok easing)
    (delay endDelay : Span) (direction : Direction) (fill : FillMode) :
    (TimingParams.mk delay endDelay duration (d.timing.iterations.getD 1) d.timing.iterationStart
      direction fill easing).Valid ↔ Check.timing.Passes read? d := by
  rw [Check.Passes, ← readDuration_nonneg_iff hduration]
  constructor
  · intro h
    exact ⟨h.duration, h.iterations, h.start⟩
  · rintro ⟨hnonneg, hiterations, hstart⟩
    exact ⟨hnonneg, hiterations, hstart, fault?_of_readEasing heasing⟩

/-! ### The readers as checks -/

theorem readVersion_ok_iff : (∃ v, readVersion read? text = .ok v) ↔ IsVersion read? text := by
  simp only [readVersion, IsVersion, withLetter]
  generalize (if text.trim.glyphs.head? = some (.char 'v') then text.trim
    else ⟨.char 'v' :: text.trim.glyphs⟩ : RawText) = lettered
  by_cases hempty : text.trim.isEmpty = true
  · simp [hempty]
  · cases read? lettered with
    | none => simp [hempty]
    | some v => by_cases hmajor : v.major = currentVersion.major <;> simp [hempty, hmajor]

theorem makes_version (d : Description) :
    Makes read? d [.version] (readVersion read? d.version) := by
  refine makes_one readVersion_ok_iff ?_
  intro f hf
  simp only [readVersion] at hf
  split at hf
  · cases hf
  · split at hf
    · cases hf
      rfl
    · split at hf
      · cases hf
      · cases hf
        rfl

theorem makes_timing (d : Description) :
    Makes read? d [.delay, .endDelay, .duration, .direction, .fill, .easing, .timing]
      (readTiming d.timing) := by
  have hdelay : Makes read? d [.delay] (readSpan .delay d.timing.delay) :=
    makes_reader (readSpan_ok_iff _) (fun _ => readSpan_fault) fun _ => rfl
  have hendDelay : Makes read? d [.endDelay] (readSpan .endDelay d.timing.endDelay) :=
    makes_reader (readSpan_ok_iff _) (fun _ => readSpan_fault) fun _ => rfl
  have hduration : Makes read? d [.duration] (readDuration d.timing.duration) :=
    makes_reader readDuration_ok_iff (fun _ => readDuration_fault) fun _ => rfl
  have hdirection : Makes read? d [.direction]
      (readUnlessEmpty .direction Direction.read .normal d.timing.direction) :=
    makes_reader ((readUnlessEmpty_ok_iff _ _ _).trans (or_congr_right direction_ok_iff))
      (fun _ => readUnlessEmpty_fault) fun _ => rfl
  have hfill : Makes read? d [.fill] (readUnlessEmpty .fill FillMode.read .auto d.timing.fill) :=
    makes_reader ((readUnlessEmpty_ok_iff _ _ _).trans (or_congr_right fill_ok_iff))
      (fun _ => readUnlessEmpty_fault) fun _ => rfl
  have heasing :
      Makes read? d [.easing] (readUnlessEmpty .easing Easing.read .linear d.timing.easing) :=
    makes_reader (readUnlessEmpty_ok_iff _ _ _) (fun _ => readUnlessEmpty_fault) fun _ => rfl
  refine hdelay.bind fun delay _ => hendDelay.bind fun endDelay _ =>
      hduration.bind fun duration hd =>
    hdirection.bind fun direction _ => hfill.bind fun fill _ => heasing.bind fun easing he => ?_
  -- all texts are read, and what is left is the check of the timing
  refine makes_reader ?_ (fun _ => eq_of_mapError) fun _ => rfl
  rw [exists_mapError_iff, ← valid_iff_passes hd he delay endDelay direction fill]
  exact TimingParams.exists_ofOptions_options_iff
    (p := ⟨delay, endDelay, duration, _, _, direction, fill, easing⟩)

theorem readTimeline_ok_iff :
    (∃ s, readTimeline d.timeline = .ok s) ↔ Check.timeline.Passes read? d := by
  rw [readTimeline, Check.Passes]
  by_cases hprogress : d.timeline.progress = true
  · rw [if_pos hprogress, if_pos hprogress]
    by_cases hempty : d.timeline.duration.isEmpty = true
    · simp [hempty]
    · simp only [hempty, readSpan, Bool.false_eq_true, if_false, false_or]
      by_cases hblank : d.timeline.duration.trim.isEmpty = true
      · -- a blank text stands for zero, which is not positive, and is no duration by itself
        have hread : ∀ s, Span.read ⟨[]⟩ ≠ .ok s := by
          intro s h
          cases h
        rw [if_pos hblank, eq_nil_of_isEmpty hblank]
        simp [hread, Span.lt_iff]
      · rw [if_neg hblank]
        cases Span.read d.timeline.duration.trim with
        | error e => simp [Except.mapError]
        | ok s => by_cases hpos : 0 < s.ns <;> simp [Except.mapError, Span.lt_iff, hpos]
  · rw [if_neg hprogress, if_neg hprogress]
    split <;> simp [*]

theorem makes_timeline (d : Description) : Makes read? d [.timeline] (readTimeline d.timeline) := by
  refine makes_one readTimeline_ok_iff ?_
  intro f hf
  rw [readTimeline] at hf
  split_ifs at hf
  · split at hf
    · cases hf
      rename_i hread
      obtain ⟨cause, rfl⟩ := readSpan_fault hread
      rfl
    · split_ifs at hf
      cases hf
      rfl
  · cases hf
    rfl

theorem makes_rate (d : Description) : Makes read? d [.rate] (readRate d.playback.rate) := by
  refine makes_one ?_ ?_
  · rw [Check.Passes]
    cases d.playback.rate with
    | none => simp [readRate]
    | some x => by_cases hfinite : isFinite x = true <;> simp [readRate, hfinite]
  · intro f hf
    rw [readRate.eq_def] at hf
    split at hf
    · cases hf
    · split_ifs at hf
      cases hf
      rfl

theorem makes_endpoint (d : Description) :
    Makes read? d [.endpoint] (readEndpoint d.playback.endpoint) := by
  refine makes_one ?_ ?_
  · rw [Check.Passes, ← read?_eq_some_iff, readEndpoint]
    by_cases hempty : d.playback.endpoint.trim.isEmpty = true
    · simp [hempty]
    · cases Keyword.read? Endpoint d.playback.endpoint.text <;> simp [hempty]
  · intro f hf
    rw [readEndpoint] at hf
    split at hf
    · cases hf
    · split at hf
      · cases hf
      · cases hf
        rfl

theorem makes_check (d : Description) : Makes read? d Check.order (d.check read?) := by
  refine (makes_version d).bind fun version _ => (makes_timing d).bind fun timing _ =>
    (makes_timeline d).bind fun timeline _ => (makes_rate d).bind fun rate _ => ?_
  rw [← List.append_nil [Check.endpoint]]
  exact (makes_endpoint d).bind fun endpoint _ => makes_none _

/-! ### Resolving -/

/-- Only one check is the first to fail. -/
theorem eq_of_splits {before before' after after' : List Check} {k k' : Check}
    (hsplit : before ++ k :: after = before' ++ k' :: after')
    (hbefore : ∀ j ∈ before, j.Passes read? d) (hk : ¬ k.Passes read? d)
    (hbefore' : ∀ j ∈ before', j.Passes read? d) (hk' : ¬ k'.Passes read? d) : k = k' := by
  induction before generalizing before' with
  | nil =>
    cases before' with
    | nil => exact (List.cons.inj hsplit).1
    | cons j before' =>
      rw [(List.cons.inj hsplit).1] at hk
      exact absurd (hbefore' j List.mem_cons_self) hk
  | cons j before ih =>
    cases before' with
    | nil =>
      rw [← (List.cons.inj hsplit).1] at hk'
      exact absurd (hbefore j List.mem_cons_self) hk'
    | cons j' before' =>
      exact ih (List.cons.inj hsplit).2 (fun i hi => hbefore i (List.mem_cons_of_mem j hi))
        fun i hi => hbefore' i (List.mem_cons_of_mem j' hi)

theorem Check.FirstToFail.unique {k k' : Check} (h : k.FirstToFail read? d)
    (h' : k'.FirstToFail read? d) : k = k' := by
  obtain ⟨before, after, hsplit, hbefore, hk⟩ := h
  obtain ⟨before', after', hsplit', hbefore', hk'⟩ := h'
  exact eq_of_splits (hsplit.symm.trans hsplit') hbefore hk hbefore' hk'

theorem Check.mem_order (k : Check) : k ∈ order := by cases k <;> decide

theorem Check.eq_of_field {j k : Check} (h : j.field = k.field) : j = k :=
  List.inj_on_of_nodup_map (f := field) (l := order) (by decide) j.mem_order k.mem_order h

theorem check_ok_iff : (∃ s, d.check read? = .ok s) ↔ ∀ k ∈ Check.order, k.Passes read? d := by
  have hmakes : Makes read? d Check.order (d.check read?) := makes_check d
  cases hcheck : d.check read? with
  | ok s =>
    rw [hcheck] at hmakes
    exact iff_of_true ⟨s, rfl⟩ hmakes
  | error f =>
    rw [hcheck] at hmakes
    obtain ⟨before, k, after, hsplit, -, hk, -⟩ := hmakes
    refine iff_of_false (by simp) ?_
    intro hall
    exact hk (hall k k.mem_order)

theorem check_eq_error_iff :
    (∃ f, d.check read? = .error f ∧ f.field = k.field) ↔ k.FirstToFail read? d := by
  have hmakes : Makes read? d Check.order (d.check read?) := makes_check d
  cases hcheck : d.check read? with
  | ok s =>
    rw [hcheck] at hmakes
    refine iff_of_false (by simp) ?_
    rintro ⟨before, after, -, -, hk⟩
    exact hk (hmakes k k.mem_order)
  | error f =>
    rw [hcheck] at hmakes
    obtain ⟨before, j, after, hsplit, hbefore, hj, hfield⟩ := hmakes
    have hfirst : j.FirstToFail read? d := ⟨before, after, hsplit, hbefore, hj⟩
    constructor
    · rintro ⟨g, hg, hgfield⟩
      cases hg
      rw [← Check.eq_of_field (hfield.symm.trans hgfield)]
      exact hfirst
    · intro hk
      rw [hk.unique hfirst]
      exact ⟨f, rfl, hfield⟩

theorem outermostTiming?_failure (f : SetupFault) :
    f.failure.outermostTiming? = some (.config, f.field) := rfl

theorem resolve_eq_error_iff {g : Failure} :
    d.resolve read? = .error g ↔ ∃ f, d.check read? = .error f ∧ f.failure = g := by
  rw [resolve]
  cases d.check read? <;> simp [Except.mapError]

theorem valid_of_readTiming {t : TimingText} {p : TimingParams}
    (h : readTiming t = .ok p) : p.Valid := by
  obtain ⟨delay, -, h⟩ := exists_ok_of_bind h
  obtain ⟨endDelay, -, h⟩ := exists_ok_of_bind h
  obtain ⟨duration, -, h⟩ := exists_ok_of_bind h
  obtain ⟨direction, -, h⟩ := exists_ok_of_bind h
  obtain ⟨fill, -, h⟩ := exists_ok_of_bind h
  obtain ⟨easing, -, h⟩ := exists_ok_of_bind h
  exact TimingParams.valid_of_ofOptions (mapError_eq_ok_iff.mp h)

theorem isFinite_of_readRate {rate : Option Float} {x : Float} (h : readRate rate = .ok x) :
    isFinite x = true := by
  cases rate with
  | none =>
    cases h
    exact hasValue_one.isFinite
  | some y =>
    rw [readRate] at h
    split_ifs at h with hfinite
    cases h
    exact hfinite

/-- A description is refused exactly if one of its checks fails. The failure is one of configuration
and names the field of the first check that fails, whatever the later checks would say. What is not
refused has a timeline of positive duration if it measures progress, and of none if it does not, a
finite rate and valid timing. -/
theorem resolve_firstFault (read? : RawText → Option Version) (d : Description) :
    ((∃ f, d.resolve read? = .error f) ↔ ∃ k ∈ Check.order, ¬ k.Passes read? d) ∧
    (∀ k : Check, (∃ f, d.resolve read? = .error f ∧ f.outermostTiming? = some (.config, k.field)) ↔
      k.FirstToFail read? d) ∧
    ∀ s, d.resolve read? = .ok s →
      (0 < s.timeline.ns ↔ d.timeline.progress = true) ∧
      (d.timeline.progress = false → s.timeline = .zero) ∧
      isFinite s.rate = true ∧ s.timing.Valid := by
  refine ⟨?_, ?_, ?_⟩
  · calc (∃ g, d.resolve read? = .error g) ↔ ¬ ∃ s, d.check read? = .ok s := by
          simp only [resolve_eq_error_iff]
          cases d.check read? <;> simp
      _ ↔ ∃ k ∈ Check.order, ¬ k.Passes read? d := by
          rw [check_ok_iff]
          push Not
          rfl
  · intro k
    rw [← check_eq_error_iff]
    constructor
    · rintro ⟨g, hg, hfield⟩
      obtain ⟨f, hf, rfl⟩ := resolve_eq_error_iff.mp hg
      rw [outermostTiming?_failure, Option.some.injEq, Prod.mk.injEq] at hfield
      exact ⟨f, hf, hfield.2⟩
    · rintro ⟨f, hf, hfield⟩
      exact ⟨f.failure, resolve_eq_error_iff.mpr ⟨f, hf, rfl⟩,
        by rw [outermostTiming?_failure, hfield]⟩
  · intro s hs
    obtain ⟨htiming, htimeline, hrate⟩ := of_check (mapError_eq_ok_iff.mp hs)
    refine ⟨?_, ?_, isFinite_of_readRate hrate, valid_of_readTiming htiming⟩
    · rcases readTimeline_cases htimeline with ⟨hprogress, hzero⟩ | ⟨hprogress, hpos, -⟩
      · simp [hprogress, hzero]
      · simp [hprogress, hpos]
    · intro hprogress
      rcases readTimeline_cases htimeline with ⟨-, hzero⟩ | ⟨hprogress', -⟩
      · exact hzero
      · exact absurd (hprogress.symm.trans hprogress') (by decide)

/-- A description with an easing that does not exist, a timeline duration that is out of place, and
an unknown endpoint behaviour. -/
def threeFaults : Description :=
  { timing := { delay := " 1s ", duration := "AUTO", easing := "bounce" }
    timeline := { duration := "5s" }
    playback := { endpoint := "sometimes" } }

/-- The easing is what is reported; and a description without faults, of which only the timeline is
given, has all that is promised. -/
theorem resolve_firstFault_threeFaults :
    (∃ f, threeFaults.resolve Version.read? = .error f ∧
      f.outermostTiming? = some (.config, "timing.easing")) ∧
      Check.easing.FirstToFail Version.read? threeFaults ∧
      ∃ s, (scrolled " 5s").resolve Version.read? = .ok s ∧ 0 < s.timeline.ns ∧
        isFinite s.rate = true ∧ s.timing.Valid := by
  have hfault : ∃ f, threeFaults.resolve Version.read? = .error f ∧
      f.outermostTiming? = some (.config, "timing.easing") := ⟨_, rfl, rfl⟩
  obtain ⟨s, hs⟩ : ∃ s, (scrolled " 5s").resolve Version.read? = .ok s := ⟨_, rfl⟩
  obtain ⟨htimeline, -, hrate, htiming⟩ :=
    (resolve_firstFault Version.read? (scrolled " 5s")).2.2 s hs
  exact ⟨hfault, ((resolve_firstFault Version.read? threeFaults).2.1 .easing).mp hfault, s, hs,
    htimeline.mpr rfl, hrate, htiming⟩

end EffectTiming.Description
