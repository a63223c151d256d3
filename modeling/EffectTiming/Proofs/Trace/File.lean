import Mathlib
import EffectTiming.Proofs.Json.RoundTrip
import EffectTiming.Proofs.Timing.Valid
import EffectTiming.Trace.File

/-!
# Traces are read back

What the writer leaves out, the reader puts in again: an empty iteration, an unset flag, a progress
that is not there, and a trace without a list of samples. So a trace that can be written is read
back as it is shown, which is as it was if no stray byte stands in its texts.
-/

namespace EffectTiming

open JsonValue Binary64

variable {n : ℕ} {v : JsonValue} {f : RawText → RawText}

/-! ### Samples -/

namespace TraceSample

variable {s : TraceSample} {path : List JsonStep}

/-- The sample with each of its texts replaced. -/
def mapText (f : RawText → RawText) (s : TraceSample) : TraceSample :=
  { s with time := f s.time, phase := f s.phase, iteration := f s.iteration }

/-- There are no stray bytes in the texts. -/
def isText (s : TraceSample) : Bool := s.time.isText && s.phase.isText && s.iteration.isText

theorem progressJson_cases {progress : Option Float} (h : progressJson progress = .ok v) :
    (progress = none ∧ v = .null) ∨
      ∃ x, progress = some x ∧ isFinite x = true ∧ v = .number (numberLayout.text x) := by
  cases progress with
  | none =>
    cases h
    exact Or.inl ⟨rfl, rfl⟩
  | some x =>
    rw [progressJson] at h
    split at h
    · rename_i hx
      cases h
      exact Or.inr ⟨x, rfl, hx, rfl⟩
    · cases h

theorem number?_progressJson {progress : Option Float} (h : progressJson progress = .ok v) :
    v.number? path = .ok progress := by
  rcases progressJson_cases h with ⟨rfl, rfl⟩ | ⟨x, rfl, hx, rfl⟩
  · rfl
  · rw [number?, ofText?_text _ hx]

theorem writable_progressJson {progress : Option Float} (h : progressJson progress = .ok v) :
    Writable n v := by
  rcases progressJson_cases h with ⟨-, rfl⟩ | ⟨x, -, hx, rfl⟩
  · exact .null
  · exact .number (isNumber_text _ hx)

/-- An iteration that was left out is the empty one. -/
theorem foldlM_iteration (hs : s.iteration = "") (iteration : RawText) :
    (if iteration.isEmpty then [] else [("iteration", JsonValue.string iteration)]).foldlM
        (setMember path) s = .ok { s with iteration } := by
  obtain ⟨time, phase, old, progress, flag⟩ := s
  cases hs
  split
  · rename_i h
    rw [RawText.isEmpty_iff.mp h]
    rfl
  · rfl

/-- A flag that was left out is not set. -/
theorem foldlM_beforeFlag (hs : s.beforeFlag = false) (beforeFlag : Bool) :
    (if beforeFlag then [("beforeFlag", JsonValue.bool true)] else []).foldlM (setMember path) s =
      .ok { s with beforeFlag } := by
  obtain ⟨time, phase, iteration, progress, flag⟩ := s
  cases hs
  cases beforeFlag <;> rfl

theorem foldlM_progress {progress : Option Float} (h : progressJson progress = .ok v) :
    [("progress", v)].foldlM (setMember path) s = .ok { s with progress } := by
  have hset : setMember path s ("progress", v) = (v.number? (path ++ [.member "progress"])).map
      fun progress => { s with progress } := rfl
  rw [List.foldlM_cons, hset, number?_progressJson h]
  rfl

/-- A sample is read back over a fresh one. -/
theorem readOver_toJson (h : s.toJson = .ok v) : readOver path {} v = .ok s := by
  obtain ⟨progress, hprogress, rfl⟩ := exists_ok_of_map h
  have hfirst :
      [("time", JsonValue.string s.time), ("phase", .string s.phase)].foldlM (setMember path) {} =
        .ok { time := s.time, phase := s.phase } := rfl
  simp only [readOver, List.foldlM_append, hfirst, ok_bind, foldlM_iteration,
    foldlM_progress hprogress, foldlM_beforeFlag]

theorem writable_toJson (h : s.toJson = .ok v) : Writable (n + 1) v := by
  obtain ⟨progress, hprogress, rfl⟩ := exists_ok_of_map h
  refine .object ?_
  simp only [List.forall_mem_append, List.forall_mem_cons]
  refine ⟨⟨⟨⟨.string _, .string _, by simp⟩, ?_⟩, writable_progressJson hprogress, by simp⟩, ?_⟩
  · split
    · simp
    · simpa using .string _
  · split
    · simpa using .bool _
    · simp

/-- A sample with other texts is written as its written form with the other texts. -/
theorem toJson_mapText (hf : ∀ r, (f r).isEmpty = r.isEmpty) (h : s.toJson = .ok v) :
    (s.mapText f).toJson = .ok (v.mapText f) := by
  obtain ⟨progress, hprogress, rfl⟩ := exists_ok_of_map h
  have hkept : mapMembers f [("progress", progress)] = [("progress", progress)] := by
    rcases progressJson_cases hprogress with ⟨-, rfl⟩ | ⟨x, -, -, rfl⟩ <;> rfl
  have hiteration :
      mapMembers f (if s.iteration.isEmpty then [] else [("iteration", .string s.iteration)]) =
        if s.iteration.isEmpty then [] else [("iteration", .string (f s.iteration))] := by
    split <;> rfl
  have hflag : mapMembers f (if s.beforeFlag then [("beforeFlag", .bool true)] else []) =
      if s.beforeFlag then [("beforeFlag", .bool true)] else [] := by
    split <;> rfl
  simp only [toJson, mapText, hprogress, hf, Except.map, JsonValue.mapText,
    mapMembers_append, hkept, hiteration, hflag]
  rfl

theorem mapText_of_isText (hf : ∀ r : RawText, r.isText = true → f r = r) (h : s.isText = true) :
    s.mapText f = s := by
  simp only [isText, Bool.and_eq_true] at h
  rw [mapText, hf _ h.1.1, hf _ h.1.2, hf _ h.2]

end TraceSample

/-! ### Traces -/

namespace Trace

/-- The trace with each of its texts replaced. -/
def mapText (f : RawText → RawText) (t : Trace) : Trace where
  name := f t.name
  samples := t.samples.map (List.map (TraceSample.mapText f))

/-- The trace with its texts as they are shown. -/
def shown (t : Trace) : Trace := t.mapText RawText.shown

/-- There are no stray bytes in the texts. -/
def isText (t : Trace) : Bool := t.name.isText && (t.samples.getD []).all TraceSample.isText

variable {t : Trace} {path : List JsonStep} {samples : List TraceSample} {vs : List JsonValue}

theorem samplesOver_forall₂
    (h : List.Forall₂ (fun s v => s.toJson = .ok v) samples vs) (first : ℕ) :
    samplesOver path first [] vs = .ok samples := by
  induction h generalizing first with
  | nil => rfl
  | @cons s v samples vs hs _ ih =>
    have hv : TraceSample.readOver (path ++ [.item first]) {} v = .ok s :=
      TraceSample.readOver_toJson hs
    simp only [samplesOver, List.head?_nil, Option.getD_none, hv, List.tail_nil, ih, ok_bind]
    rfl

theorem writable_forall₂ (h : List.Forall₂ (fun s v => s.toJson = .ok v) samples vs) :
    ∀ v ∈ vs, Writable (n + 1) v := by
  induction h with
  | nil => simp
  | cons hs _ ih =>
    simp only [List.forall_mem_cons]
    exact ⟨TraceSample.writable_toJson hs, ih⟩

theorem writable_samplesJson {samples : Option (List TraceSample)}
    (h : samplesJson samples = .ok v) :
    Writable (n + 2) v := by
  cases samples with
  | none =>
    cases h
    exact .null
  | some samples =>
    obtain ⟨vs, hvs, rfl⟩ := exists_ok_of_map h
    exact .array (writable_forall₂ (forall₂_of_mapM hvs))

theorem writable_toJson (h : t.toJson = .ok v) : Writable (n + 3) v := by
  obtain ⟨samples, hsamples, rfl⟩ := exists_ok_of_map h
  refine .object ?_
  simp only [List.forall_mem_cons]
  exact ⟨.string _, writable_samplesJson hsamples, by simp⟩

/-- A written trace is the trace. -/
theorem ofJson_toJson (h : t.toJson = .ok v) : ofJson v = .ok t := by
  obtain ⟨samples, hsamples, rfl⟩ := exists_ok_of_map h
  obtain ⟨name, kept⟩ := t
  have hname : Draft.setMember {} ("name", .string name) = .ok { trace := { name } } := rfl
  cases kept with
  | none =>
    cases hsamples
    rfl
  | some kept =>
    obtain ⟨vs, hvs, rfl⟩ := exists_ok_of_map hsamples
    have hlist : Draft.setMember { trace := { name } } ("samples", .array vs) =
        Draft.setSamples [.member "samples"] { trace := { name } } vs := rfl
    have hsamples : samplesOver [.member "samples"] 0 [] vs = .ok kept :=
      samplesOver_forall₂ (forall₂_of_mapM hvs) 0
    simp only [ofJson, List.foldlM_cons, hname, hlist, Draft.setSamples,
      Option.getD_none, List.append_nil, hsamples, ok_bind]
    rfl

theorem mapM_toJson_mapText (hf : ∀ r, (f r).isEmpty = r.isEmpty)
    (h : samples.mapM TraceSample.toJson = .ok vs) :
    (samples.map (TraceSample.mapText f)).mapM TraceSample.toJson = .ok (mapItems f vs) := by
  induction samples generalizing vs with
  | nil =>
    cases h
    rfl
  | cons s samples ih =>
    rw [List.mapM_cons] at h
    obtain ⟨v, hv, h⟩ := exists_ok_of_bind h
    obtain ⟨vs, hvs, h⟩ := exists_ok_of_bind h
    cases h
    rw [List.map_cons, List.mapM_cons, TraceSample.toJson_mapText hf hv, ok_bind, ih hvs, ok_bind]
    rfl

theorem toJson_mapText (hf : ∀ r, (f r).isEmpty = r.isEmpty) (h : t.toJson = .ok v) :
    (t.mapText f).toJson = .ok (v.mapText f) := by
  obtain ⟨samples, hsamples, rfl⟩ := exists_ok_of_map h
  obtain ⟨name, kept⟩ := t
  cases kept with
  | none =>
    cases hsamples
    rfl
  | some kept =>
    obtain ⟨vs, hvs, rfl⟩ := exists_ok_of_map hsamples
    have hkept : samplesJson (some (kept.map (TraceSample.mapText f))) =
        .ok (.array (mapItems f vs)) := by
      rw [samplesJson, mapM_toJson_mapText hf hvs]
      rfl
    show (samplesJson (some (kept.map (TraceSample.mapText f)))).map _ = _
    rw [hkept]
    rfl

theorem mapText_of_isText (hf : ∀ r : RawText, r.isText = true → f r = r) (h : t.isText = true) :
    t.mapText f = t := by
  obtain ⟨name, samples⟩ := t
  rw [isText, Bool.and_eq_true] at h
  have hname : f name = name := hf _ h.1
  cases samples with
  | none => rw [mapText, hname, Option.map_none]
  | some samples =>
    have hsamples : ∀ s ∈ samples, TraceSample.mapText f s = s := fun s hs =>
      TraceSample.mapText_of_isText hf (List.all_eq_true.mp h.2 s hs)
    rw [mapText, hname, Option.map_some, List.map_congr_left hsamples, List.map_id']

theorem shown_of_isText (h : t.isText = true) : t.shown = t :=
  mapText_of_isText (fun _ => RawText.shown_of_isText) h

/-- The text of a trace is read as the trace that it shows. -/
theorem read_text {s : String} (h : t.text = .ok s) : read s = .ok t.shown := by
  obtain ⟨v, hv, rfl⟩ := exists_ok_of_map h
  have hshown : t.shown.toJson = .ok v.shown := toJson_mapText RawText.isEmpty_shown hv
  simp only [read, read_pretty (writable_toJson hv), ofJson_toJson hshown]
  rfl

end Trace

end EffectTiming
