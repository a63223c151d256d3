import Mathlib
import EffectTiming.Sampling.Flags
import EffectTiming.Proofs.Text.Parts
import EffectTiming.Proofs.Timing.Valid

/-!
# Range flags and their spelling

The relation `Cut` says how arguments fall into pieces, without looking at the order in which flags
are tried, and `RangeFlag.pieces` is the one way to do it (`pieces_eq_iff`). A value may look like a
flag, so what an argument is depends on the arguments before it, but only on whether they end with a
flag that waits for its value (`Cut.append`). A flag gives the same piece in both spellings.

What a run over the pieces leaves behind, if no flag is at fault, is said by `rest_of_applyPieces`
and `settles_of_applyPieces`; `exists_ok_applyPieces_iff` says when that is.
-/

namespace EffectTiming

namespace FlagPiece

/-- The argument that is no part of a flag. -/
def other? : FlagPiece → Option RawText
  | other arg => some arg
  | _ => none

/-- The value for a given flag. -/
def value? (f : RangeFlag) : FlagPiece → Option RawText
  | setting g value => if g = f then some value else none
  | _ => none

/-- The flag, if the piece is one, has a value that is a time. -/
def Readable (s : Setup) : FlagPiece → Prop
  | other _ => True
  | setting _ value => ∃ d, s.readTime value = .ok (.resolved d)
  | cutOff _ => False

end FlagPiece

namespace RangeFlag

variable {f g : RangeFlag} {arg value : RawText} {args before after : List RawText} {how : Spelling}
  {ps qs : List FlagPiece}

/-- The part that a flag is for. -/
def get : RangeFlag → SampleRange → Span
  | .start, r => r.first
  | .stop, r => r.last
  | .step, r => r.step

theorem get_set (f g : RangeFlag) (d : Span) (r : SampleRange) :
    f.get (g.set d r) = if g = f then d else f.get r := by
  cases f <;> cases g <;> rfl

/-! ### How a flag is spelled -/

/-- The argument gives the value behind an equals sign. -/
def joined (f : RangeFlag) (value : RawText) : RawText :=
  ⟨(RawText.ofString (f.name ++ "=")).glyphs ++ value.glyphs⟩

theorem spelling?_eq_joined_iff :
    f.spelling? arg = some (.joined value) ↔ arg = f.joined value := by
  have hjoined : arg = f.joined value ↔
      Text.dropStart? (RawText.ofString (f.name ++ "=")).glyphs arg.glyphs = some value.glyphs := by
    rw [Text.dropStart?_eq_some_iff, joined, RawText.ext_iff]
  rw [hjoined, spelling?]
  split
  · rename_i rest hrest
    rw [hrest, Option.some.injEq, Option.some.injEq, Spelling.joined.injEq, RawText.ext_iff]
  · rename_i hrest
    rw [hrest]
    split_ifs <;> simp

theorem spelling?_name (f : RangeFlag) : f.spelling? f.name = some .bare := by
  cases f <;> rfl

theorem eq_name_of_spelling? (h : f.spelling? arg = some .bare) : arg = f.name := by
  rw [spelling?] at h
  split at h
  · simp at h
  · split_ifs at h with hname
    exact hname

/-- Two dashes and a letter tell the flags apart. -/
theorem name_start_of_spelling? (h : f.spelling? arg = some how) :
    arg.glyphs.take 3 = (RawText.ofString f.name).glyphs.take 3 := by
  cases how with
  | joined value =>
    rw [spelling?_eq_joined_iff.mp h, joined]
    cases f <;> rfl
  | bare => rw [eq_name_of_spelling? h]

theorem eq_of_spelling? {how' : Spelling} (hf : f.spelling? arg = some how)
    (hg : g.spelling? arg = some how') : f = g := by
  have h := (name_start_of_spelling? hf).symm.trans (name_start_of_spelling? hg)
  revert h
  cases f <;> cases g <;> decide

theorem find?_eq_some_iff : find? arg = some (f, how) ↔ f.spelling? arg = some how := by
  constructor
  · intro h
    obtain ⟨g, -, hg⟩ := List.exists_of_findSome?_eq_some h
    obtain ⟨how', hspelled, heq⟩ := Option.map_eq_some_iff.mp hg
    cases heq
    exact hspelled
  · intro h
    have hother : ∀ g, g ≠ f → g.spelling? arg = none := by
      intro g hne
      cases hg : g.spelling? arg with
      | none => rfl
      | some how' => exact absurd (eq_of_spelling? hg h) hne
    cases f <;> simp [find?, all, h, hother]

theorem find?_joined (f : RangeFlag) (value : RawText) :
    find? (f.joined value) = some (f, .joined value) :=
  find?_eq_some_iff.mpr (spelling?_eq_joined_iff.mpr rfl)

theorem find?_name (f : RangeFlag) : find? f.name = some (f, .bare) :=
  find?_eq_some_iff.mpr (spelling?_name f)

theorem find?_eq_none_iff :
    find? arg = none ↔ ∀ f : RangeFlag, arg ≠ f.name ∧ ∀ value, arg ≠ f.joined value := by
  constructor
  · intro h f
    constructor
    · rintro rfl
      simp [find?_name] at h
    · rintro value rfl
      simp [find?_joined] at h
  · intro h
    cases hfound : find? arg with
    | none => rfl
    | some found =>
      obtain ⟨f, how⟩ := found
      have hspelled := find?_eq_some_iff.mp hfound
      cases how with
      | joined value => exact absurd (spelling?_eq_joined_iff.mp hspelled) ((h f).2 value)
      | bare => exact absurd (eq_name_of_spelling? hspelled) (h f).1

/-! ### Pieces -/

/-- How arguments fall into pieces. -/
inductive Cut : List RawText → List FlagPiece → Prop
  | nil : Cut [] []
  | other {arg : RawText} {args : List RawText} {ps : List FlagPiece}
      (hother : ∀ f : RangeFlag, arg ≠ f.name ∧ ∀ value, arg ≠ f.joined value) (h : Cut args ps) :
      Cut (arg :: args) (.other arg :: ps)
  | joined {args : List RawText} {ps : List FlagPiece} (f : RangeFlag)
      (value : RawText) (h : Cut args ps) :
      Cut (f.joined value :: args) (.setting f value :: ps)
  | apart {args : List RawText} {ps : List FlagPiece} (f : RangeFlag)
      (value : RawText) (h : Cut args ps) :
      Cut (f.name :: value :: args) (.setting f value :: ps)
  | cutOff (f : RangeFlag) : Cut [f.name] [.cutOff f]

theorem cut_pieces (args : List RawText) : Cut args (pieces args) := by
  fun_induction pieces args with
  | case1 => exact .nil
  | case2 arg args hfound ih => exact .other (find?_eq_none_iff.mp hfound) ih
  | case3 arg args f value hfound ih =>
    rw [spelling?_eq_joined_iff.mp (find?_eq_some_iff.mp hfound)]
    exact .joined f value ih
  | case4 arg f hfound =>
    rw [eq_name_of_spelling? (find?_eq_some_iff.mp hfound)]
    exact .cutOff f
  | case5 arg f hfound value args ih =>
    rw [eq_name_of_spelling? (find?_eq_some_iff.mp hfound)]
    exact .apart f value ih

theorem Cut.pieces_eq (h : Cut args ps) : pieces args = ps := by
  induction h with
  | nil => rfl
  | other hother _ ih => simp [pieces, find?_eq_none_iff.mpr hother, ih]
  | joined f value _ ih => simp [pieces, find?_joined, ih]
  | apart f value _ ih => simp [pieces, find?_name, ih]
  | cutOff f => simp [pieces, find?_name]

/-- There is one way to cut arguments into pieces. -/
theorem pieces_eq_iff : pieces args = ps ↔ Cut args ps :=
  ⟨fun h => h ▸ cut_pieces args, Cut.pieces_eq⟩

/-- The arguments end with a flag, so that the next argument is its value, whatever it looks
like. -/
def AwaitsValue (args : List RawText) : Prop := ∃ ps f, Cut args ps ∧ FlagPiece.cutOff f ∈ ps

/-- Arguments behind those that wait for no value fall into pieces on their own. -/
theorem Cut.append (h : Cut before ps) (hwaits : ∀ f, FlagPiece.cutOff f ∉ ps)
    (hafter : Cut after qs) :
    Cut (before ++ after) (ps ++ qs) := by
  induction h with
  | nil => exact hafter
  | other hother _ ih => exact .other hother (ih fun f hf => hwaits f (.tail _ hf))
  | joined f value _ ih => exact .joined f value (ih fun f hf => hwaits f (.tail _ hf))
  | apart f value _ ih => exact .apart f value (ih fun f hf => hwaits f (.tail _ hf))
  | cutOff f => exact absurd (List.mem_singleton_self _) (hwaits f)

/-- A flag that is read as such gives the same piece in both spellings. -/
theorem pieces_joined_eq_apart (h : ¬ AwaitsValue before) (f : RangeFlag) (value : RawText)
    (after : List RawText) :
    pieces (before ++ f.joined value :: after) = pieces
    (before ++ (f.name : RawText) :: value :: after) := by
  have hwaits : ∀ g, FlagPiece.cutOff g ∉ pieces before :=
    fun g hg => h ⟨_, g, cut_pieces before, hg⟩
  have hjoined := (cut_pieces before).append hwaits (.joined f value (cut_pieces after))
  have hapart := (cut_pieces before).append hwaits (.apart f value (cut_pieces after))
  rw [pieces_eq_iff.mpr hjoined, pieces_eq_iff.mpr hapart]

/-! ### Reading piece by piece -/

open SampleRange

theorem apply_eq_ok_iff {s : Setup} {r r' : SampleRange} :
    f.apply s value r = .ok r' ↔ ∃ d, s.readTime value = .ok (.resolved d) ∧ f.set d r = r' := by
  rw [apply]
  split
  · rename_i hread
    simp [hread]
  · rename_i hread
    simp [hread]
  · rename_i d hread
    simp [hread]

/-- The value of the last occurrence of a flag. -/
def lastValue? (f : RangeFlag) (ps : List FlagPiece) : Option RawText :=
  (ps.filterMap (FlagPiece.value? f)).getLast?

theorem lastValue?_setting (f g : RangeFlag) (value : RawText) (ps : List FlagPiece) :
    f.lastValue? (.setting g value :: ps) =
      (f.lastValue? ps).or (if g = f then some value else none) := by
  rw [lastValue?, lastValue?, List.filterMap_cons, FlagPiece.value?]
  split_ifs with hg
  · rw [List.getLast?_cons]
    cases (ps.filterMap (FlagPiece.value? f)).getLast? <;> rfl
  · rw [Option.or_none]

/-- A part of a range has become the time that the value says; without a value it has stayed. -/
def Settles (s : Setup) (value : Option RawText) (initial final : Span) : Prop :=
  value.elim (final = initial) fun value => s.readTime value = .ok (.resolved final)

/-- No flag is at fault exactly if each has a value that is a time. -/
theorem exists_ok_applyPieces_iff {s : Setup} (r : SampleRange) :
    (∃ r' rest, applyPieces s ps r = (r', .ok rest)) ↔ ∀ p ∈ ps, p.Readable s := by
  induction ps generalizing r with
  | nil => simp [applyPieces]
  | cons p ps ih =>
    rw [List.forall_mem_cons]
    cases p with
    | other arg =>
      rw [← ih r]
      constructor
      · rintro ⟨r', rest, h⟩
        rw [applyPieces, Prod.mk.injEq] at h
        obtain ⟨rest', hrest, -⟩ := exists_ok_of_map h.2
        exact ⟨trivial, r', rest', Prod.ext h.1 hrest⟩
      · rintro ⟨-, r', rest, h⟩
        exact ⟨r', arg :: rest, by rw [applyPieces, h]; rfl⟩
    | setting f value =>
      rw [applyPieces]
      split
      · rename_i e happly
        have hunread : ¬ ∃ d, s.readTime value = .ok (.resolved d) := by
          rintro ⟨d, hread⟩
          rw [apply_eq_ok_iff.mpr ⟨d, hread, rfl⟩] at happly
          cases happly
        simp [FlagPiece.Readable, hunread]
      · rename_i r₁ happly
        obtain ⟨d, hread, -⟩ := apply_eq_ok_iff.mp happly
        rw [ih r₁, FlagPiece.Readable]
        exact (and_iff_right ⟨d, hread⟩).symm
    | cutOff f => simp [applyPieces, FlagPiece.Readable]

theorem rest_of_applyPieces {s : Setup} {r r' : SampleRange} {rest : List RawText}
    (h : applyPieces s ps r = (r', .ok rest)) : rest = ps.filterMap FlagPiece.other? := by
  induction ps generalizing r rest with
  | nil =>
    cases h
    rfl
  | cons p ps ih =>
    cases p with
    | other arg =>
      rw [applyPieces, Prod.mk.injEq] at h
      obtain ⟨rest', hrest, rfl⟩ := exists_ok_of_map h.2
      rw [ih (Prod.ext h.1 hrest)]
      rfl
    | setting f value =>
      rw [applyPieces] at h
      split at h
      · cases h
      · exact ih h
    | cutOff f => cases h

theorem settles_of_applyPieces {s : Setup} {r r' : SampleRange} {rest : List RawText}
    (h : applyPieces s ps r = (r', .ok rest)) (f : RangeFlag) :
    Settles s (f.lastValue? ps) (f.get r) (f.get r') := by
  induction ps generalizing r rest with
  | nil =>
    cases h
    rfl
  | cons p ps ih =>
    cases p with
    | other arg =>
      rw [applyPieces, Prod.mk.injEq] at h
      obtain ⟨rest', hrest, -⟩ := exists_ok_of_map h.2
      exact ih (Prod.ext h.1 hrest)
    | setting g value =>
      rw [applyPieces] at h
      split at h
      · cases h
      · rename_i r₁ happly
        obtain ⟨d, hread, rfl⟩ := apply_eq_ok_iff.mp happly
        have hrest := ih h
        rw [get_set] at hrest
        rw [lastValue?_setting]
        cases hlast : f.lastValue? ps with
        | some later =>
          -- a later value of the flag replaces this one
          rw [hlast] at hrest
          exact hrest
        | none =>
          rw [hlast] at hrest
          change f.get r' = _ at hrest
          rw [hrest, Option.none_or]
          split_ifs with hg
          · exact hread
          · rfl
    | cutOff f => cases h

end RangeFlag

namespace SampleRange

open RangeFlag

variable {s : Setup} {args : List RawText} {r r' : SampleRange} {rest : List RawText}

/-- A range without a fault comes from flags without one. -/
theorem readFlags_fault_iff :
    (readFlags s args r).fault = none ↔
      applyPieces s (pieces args) r = ((readFlags s args r).range, .ok (readFlags s args r).rest) ∧
        (readFlags s args r).range.validate = .ok () := by
  rw [readFlags]
  split
  · rename_i happly
    simp [happly]
  · rename_i happly
    split
    · rename_i hvalid
      simp [hvalid]
    · rename_i hvalid
      simp [happly, hvalid]

/-- The range and the arguments that are left do not depend on whether the range is valid. -/
theorem readFlags_of_applyPieces (h : applyPieces s (pieces args) r = (r', .ok rest)) :
    (readFlags s args r).range = r' ∧ (readFlags s args r).rest = rest := by
  rw [readFlags, h]
  dsimp only
  split <;> exact ⟨rfl, rfl⟩

/-- It does not matter how a range flag is spelled. If each flag has a value that is a time and the
range is valid, the last flag of each kind counts, and the arguments that are no part of a flag are
left in their order. -/
theorem readFlags_spelling (s : Setup) (args : List RawText) (r : SampleRange) :
    (∀ (before after : List RawText) (f : RangeFlag) (value : RawText),
        args = before ++ f.joined value :: after → ¬ AwaitsValue before →
        readFlags s (before ++ (f.name : RawText) :: value :: after) r = readFlags s args r) ∧
      ∃ ps, Cut args ps ∧
        ((readFlags s args r).fault = none ↔
          (∀ p ∈ ps, p.Readable s) ∧ (readFlags s args r).range.validate = .ok ()) ∧
        ((readFlags s args r).fault = none →
          (∀ f : RangeFlag, Settles s (f.lastValue? ps) (f.get r)
            (f.get (readFlags s args r).range)) ∧
            (readFlags s args r).rest = ps.filterMap FlagPiece.other?) := by
  refine ⟨?_, pieces args, cut_pieces args, ?_, ?_⟩
  · rintro before after f value rfl hwaits
    have hpieces := pieces_joined_eq_apart hwaits f value after
    rw [readFlags, readFlags, hpieces]
  · rw [readFlags_fault_iff, ← exists_ok_applyPieces_iff r]
    refine and_congr_left fun _ => ⟨fun h => ⟨_, _, h⟩, ?_⟩
    rintro ⟨r', rest, h⟩
    obtain ⟨hrange, hrest⟩ := readFlags_of_applyPieces h
    rw [hrange, hrest, h]
  · intro hfault
    have hrun := (readFlags_fault_iff.mp hfault).1
    exact ⟨settles_of_applyPieces hrun, rest_of_applyPieces hrun⟩

/-- The later of two flags for the start counts, and the flag for the end may be written either
way. -/
theorem readFlags_spelling_twoStarts :
    ∃ s, ({} : Description).resolve Version.read? = .ok s ∧
      let args : List RawText :=
        ["--from=forever", "a", "--from", "1s", "--to=1s", "b", "--step=1s"]
      let apart : List RawText :=
        ["--from=forever", "a", "--from", "1s", "--to", "1s", "b", "--step=1s"]
      let r : SampleRange := ⟨.zero, .forever, .zero⟩
      readFlags s apart r = readFlags s args r ∧
        (readFlags s args r).fault = none ∧
        s.readTime "1s" = .ok (.resolved (readFlags s args r).range.first) ∧
        (readFlags s args r).rest = ["a", "b"] := by
  obtain ⟨s, hs⟩ : ∃ s, ({} : Description).resolve Version.read? = .ok s := ⟨_, rfl⟩
  refine ⟨s, hs, ?_⟩
  intro args apart r
  have hsecond : s.readTime "1s" = .ok (.resolved (.clamp 1000000000)) := rfl
  have hforever : s.readTime "forever" = .ok (.resolved .forever) := rfl
  have hpieces : pieces args =
      [.setting .start "forever", .other "a", .setting .start "1s", .setting .stop "1s",
        .other "b", .setting .step "1s"] := rfl
  have hwaits : ¬ AwaitsValue ["--from=forever", "a", "--from", "1s"] := by
    rintro ⟨ps, f, hcut, hf⟩
    have hbefore : pieces ["--from=forever", "a", "--from", "1s"] =
        [.setting .start "forever", .other "a", .setting .start "1s"] := rfl
    rw [← hcut.pieces_eq, hbefore] at hf
    simp at hf
  have happly : applyPieces s (pieces args) r =
      (⟨.clamp 1000000000, .clamp 1000000000, .clamp 1000000000⟩, .ok ["a", "b"]) := by
    rw [hpieces]
    simp only [applyPieces, RangeFlag.apply, hsecond, hforever, RangeFlag.set, Except.map]
  obtain ⟨hspelling, ps, hcut, hfault, hrest⟩ := readFlags_spelling s args r
  obtain rfl := hcut.pieces_eq
  have hnone : (readFlags s args r).fault = none := by
    apply hfault.mpr
    refine ⟨?_, ?_⟩
    · simp [hpieces, FlagPiece.Readable, hsecond, hforever]
    · rw [(readFlags_of_applyPieces happly).1]
      obtain ⟨_, hvalid, -⟩ := exists_ok_of_toOption (f := id) (b := ())
        (x :=
          validate ⟨.clamp 1000000000, .clamp 1000000000, .clamp 1000000000⟩) (by decide +kernel)
      exact hvalid
  obtain ⟨hsettles, hleft⟩ := hrest hnone
  exact ⟨hspelling ["--from=forever", "a", "--from", "1s"] ["b", "--step=1s"] .stop "1s" rfl hwaits,
    hnone, hsettles .start, hleft⟩

end SampleRange

end EffectTiming
