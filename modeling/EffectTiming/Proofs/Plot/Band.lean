import Mathlib
import EffectTiming.Command.Run
import EffectTiming.Proofs.Sampling.Range
import EffectTiming.Proofs.Timing.InEffect
import EffectTiming.Proofs.Timing.Phase

/-!
# The bands of a plot

The loop over the columns of a plot draws one band a round. `Sweep` is its course, from the first
round to the end of the columns, and what is said of the bands goes by induction over it. Whatever
the phases are, the bands divide the columns among themselves. If the samples are taken at times in
order, the phases of the bands come in the order of the phases of an effect, each of them once at
most.

## Main statements

* `sweep_bandsFrom`: the loop comes to an end.
* `Sweep.partition`: the bands divide the columns.
* `Picture.ground_ofSamples`: behind the curve, every column of a picture has the colour of its
  phase.
* `sublist_bands`: samples at times in order have at most one band of each phase.
* `Command.columnTime_le`: a plot is sampled at times in order.
-/

namespace EffectTiming

namespace Plot

variable {start column : ℕ} {phases : List Phase} {bs : List Band}

/-- The band reaches over the column. -/
def Band.covers (b : Band) (column : ℕ) : Bool := decide (b.start ≤ column ∧ column < b.stop)

@[simp]
theorem Band.covers_iff (b : Band) (column : ℕ) :
    b.covers column = true ↔ b.start ≤ column ∧ column < b.stop := decide_eq_true_iff

/-! ### The loop -/

/-- The course of the loop over the columns from `start` on, which have the given phases. A round
takes the first column and all that follow in the same phase, draws one band over them and goes on
behind it. The loop ends when no column is left. -/
inductive Sweep : ℕ → List Phase → List Band → Prop where
  | done (start : ℕ) : Sweep start [] []
  | round {start more : ℕ} {phase : Phase} {rest : List Phase} {bs : List Band}
      (hrest : rest.head? ≠ some phase) (h : Sweep (start + (more + 1)) rest bs) :
      Sweep start (List.replicate (more + 1) phase ++ rest)
      (⟨phase, start, start + (more + 1)⟩ :: bs)

theorem takeWhile_eq_replicate (phase : Phase) (phases : List Phase) :
    phases.takeWhile (· == phase) = List.replicate
    (phases.takeWhile (· == phase)).length phase := by
  rw [List.eq_replicate_iff]
  refine ⟨rfl, ?_⟩
  intro q hq
  simpa using List.mem_takeWhile_imp hq

theorem head?_dropWhile_ne (phase : Phase) (phases : List Phase) :
    (phases.dropWhile (· == phase)).head? ≠ some phase := by
  intro heq
  have hnot := List.head?_dropWhile_not (· == phase) phases
  rw [heq] at hnot
  simp at hnot

/-- The loop comes to an end on every list of phases. -/
theorem sweep_bandsFrom (start : ℕ) (phases : List Phase) :
    Sweep start phases (bandsFrom start phases) := by
  fun_induction bandsFrom start phases with
  | case1 start => exact .done start
  | case2 start phase phases stop ih =>
    set more := (phases.takeWhile (· == phase)).length
    have hrun : (phase :: phases).takeWhile (· == phase) = List.replicate (more + 1) phase := by
      rw [List.takeWhile_cons_of_pos (p := (· == phase)) (beq_self_eq_true phase),
        takeWhile_eq_replicate, List.replicate_succ]
    have hstop : stop = start + (more + 1) := by
      show start + ((phase :: phases).takeWhile (· == phase)).length = _
      rw [hrun, List.length_replicate]
    rw [hstop] at ih ⊢
    have hsweep := Sweep.round (head?_dropWhile_ne phase (phase :: phases)) ih
    rwa [← hrun, List.takeWhile_append_dropWhile] at hsweep

/-! ### What the rounds leave behind -/

theorem Sweep.head_eq (h : Sweep start phases bs) :
    ∀ b ∈ bs.head?, b.start = start ∧ phases.head? = some b.phase := by
  cases h with
  | done => simp
  | round hrest h => simp [List.replicate_succ]

theorem Sweep.start_lt_stop (h : Sweep start phases bs) : ∀ b ∈ bs, b.start < b.stop := by
  induction h with
  | done => simp
  | round hrest h ih =>
    rw [List.forall_mem_cons]
    exact ⟨by simp, ih⟩

theorem Sweep.isChain_consecutive (h : Sweep start phases bs) :
    bs.IsChain fun a b => a.stop = b.start := by
  induction h with
  | done => exact .nil
  | round hrest h ih =>
    rw [List.isChain_cons]
    refine ⟨?_, ih⟩
    intro b hb
    exact (h.head_eq b hb).1.symm

theorem Sweep.isChain_distinct (h : Sweep start phases bs) :
    bs.IsChain fun a b => a.phase ≠ b.phase := by
  induction h with
  | done => exact .nil
  | round hrest h ih =>
    rw [List.isChain_cons]
    refine ⟨?_, ih⟩
    intro b hb heq
    -- a run ends only before a column of another phase, and that is where the next band starts
    apply hrest
    rw [(h.head_eq b hb).2, ← heq]

theorem Sweep.countP_covers (h : Sweep start phases bs) (column : ℕ) :
    bs.countP (·.covers column) = if start ≤ column ∧
    column < start + phases.length then 1 else 0 := by
  induction h with
  | done start =>
    rw [List.countP_nil, if_neg]
    simp
  | round hrest h ih =>
    -- the column lies in the run of this round or behind it, never in both
    rw [List.countP_cons, ih]
    simp only [Band.covers_iff, List.length_append, List.length_replicate]
    split_ifs <;> omega

theorem Sweep.getElem?_of_covers (h : Sweep start phases bs) :
    ∀ b ∈ bs, b.covers column = true → start ≤ column ∧ phases[column - start]? = some b.phase := by
  induction h with
  | done => simp
  | @round start more phase rest bs hrest h ih =>
    intro b hb hcovers
    rcases List.mem_cons.mp hb with rfl | hb
    · -- the column belongs to the run of this round
      obtain ⟨hle, hlt⟩ := (Band.covers_iff _ _).mp hcovers
      refine ⟨hle, ?_⟩
      dsimp only at hle hlt
      rw [List.getElem?_append_left (by rw [List.length_replicate]; omega), List.getElem?_replicate,
        if_pos (by omega)]
    · obtain ⟨hle, hphase⟩ := ih b hb hcovers
      refine ⟨by omega, ?_⟩
      rw [List.getElem?_append_right (by rw [List.length_replicate]; omega),
        List.length_replicate, ← hphase, Nat.sub_sub]

theorem Sweep.phases_sublist (h : Sweep start phases bs) : (bs.map (·.phase)).Sublist phases := by
  induction h with
  | done => exact .slnil
  | @round start more phase rest bs hrest h ih =>
    rw [List.replicate_succ, List.cons_append, List.map_cons]
    exact (ih.trans (List.sublist_append_right _ _)).cons_cons phase

/-- Bands divide the columns with the given phases among themselves. -/
structure Partition (phases : List Phase) (bs : List Band) : Prop where
  consecutive : bs.IsChain fun a b => a.stop = b.start
  nonempty : ∀ b ∈ bs, b.start < b.stop
  /-- Exactly one band reaches over a column, and none beyond the last column. -/
  covered : ∀ column, bs.countP (·.covers column) = if column < phases.length then 1 else 0
  uniform : ∀ b ∈ bs, ∀ column, b.covers column = true → phases[column]? = some b.phase
  distinct : bs.IsChain fun a b => a.phase ≠ b.phase

theorem Sweep.partition (h : Sweep 0 phases bs) : Partition phases bs where
  consecutive := h.isChain_consecutive
  nonempty := h.start_lt_stop
  covered column := by simpa using h.countP_covers column
  uniform b hb column hcovers := (h.getElem?_of_covers b hb hcovers).2
  distinct := h.isChain_distinct

/-- A search for the band of a column finds one, and it has the phase of the column. -/
theorem Partition.exists_find? {phase : Phase} (h : Partition phases bs)
    (hphase : phases[column]? = some phase) :
    ∃ b, bs.find? (·.covers column) = some b ∧ b.phase = phase := by
  obtain ⟨hlt, -⟩ := List.getElem?_eq_some_iff.mp hphase
  have hcount : bs.countP (·.covers column) = 1 := by rw [h.covered, if_pos hlt]
  have hsome : (bs.find? (·.covers column)).isSome = true := by
    rw [List.find?_isSome, ← List.countP_pos_iff, hcount]
    exact Nat.one_pos
  obtain ⟨b, hfind⟩ := Option.isSome_iff_exists.mp hsome
  have hcovers := List.find?_some hfind
  have hb := h.uniform b (List.mem_of_find?_eq_some hfind) column hcovers
  rw [hphase, Option.some_inj] at hb
  exact ⟨b, hfind, hb.symm⟩

@[simp]
theorem Picture.ofSamples_height (width height : ℕ) (samples : List ComputedTiming) :
    (ofSamples width height samples).height = height := rfl

/-- Behind the curve, every column of a picture has the colour of its phase. -/
theorem Picture.ground_ofSamples {samples : List ComputedTiming}
    {c : ComputedTiming} {height row : ℕ} (hc : samples[column]? = some c)
    (hrow : margin ≤ row ∧ row < height - margin) (width : ℕ) :
    (ofSamples width height samples).ground (margin + column) row =
    (Color.ofPhase c.phase).getD .white := by
  have hphase : (samples.map (·.phase))[column]? = some c.phase := by
    rw [List.getElem?_map, hc, Option.map_some]
  obtain ⟨b, hfind, hb⟩ := (sweep_bandsFrom 0 (samples.map (·.phase))).partition.exists_find? hphase
  have hfind' : (ofSamples width height samples).bands.find?
      (fun b => decide (margin + b.start ≤ margin + column ∧ margin + column < margin + b.stop)) =
      some b := by
    simp only [Nat.add_le_add_iff_left, Nat.add_lt_add_iff_left]
    exact hfind
  rw [ground, ofSamples_height, if_pos hrow, hfind', ← hb]

/-! ### Bands in the order of the phases -/

variable {s : Setup} {p : TimingParams} {times : List Span} {samples : List ComputedTiming}

/-- The phases of samples are those of their times. -/
theorem phases_of_mapM
    (h : times.mapM (fun time => p.compute (.resolved time) (s.sampleOptions (.resolved time))) =
      .ok samples) :
    samples.map (·.phase) = times.map fun time =>
      p.phaseAt (s.sampleOptions (.resolved time)) time := by
  have hall := forall₂_of_mapM h
  clear h
  induction hall with
  | nil => rfl
  | cons hc _ ih =>
    rw [List.map_cons, List.map_cons, ih, (TimingParams.sampled_of_compute hc).phase_eq]

/-- The bands of samples at times in order. Two samples at one time have the same options, and so
the same phase. -/
theorem sublist_bands (hordered : times.Pairwise (· ≤ ·))
    (h : times.mapM (fun time => p.compute (.resolved time) (s.sampleOptions (.resolved time))) =
      .ok samples) :
    ((bands (samples.map (·.phase))).map (·.phase)).Sublist [.before, .active, .after] := by
  rw [phases_of_mapM h]
  have hsweep :=
    sweep_bandsFrom 0 (times.map fun time => p.phaseAt (s.sampleOptions (.resolved time)) time)
  have hsublist := hsweep.phases_sublist
  apply Phase.sublist_course
  · intro q hq
    obtain ⟨time, -, rfl⟩ := List.mem_map.mp (hsublist.subset hq)
    exact TimingParams.phaseAt_ne_idle p _ time
  · refine List.Pairwise.sublist hsublist (List.pairwise_map.mpr (hordered.imp ?_))
    intro t₁ t₂ hle
    -- the two columns may differ in whether the timeline stands at one of its ends
    exact TimingParams.phaseAt_notLater_of_le hle fun time => s.sampleOptions (.resolved time)
  · exact (List.isChain_map _).mpr hsweep.isChain_distinct

/-- However the samples of a picture are taken from one timing, under the options of one setup and
at times in order: the loop over the columns comes to an end, its bands divide the columns among
themselves, and there are at most three of them, in the order of the phases. -/
theorem Picture.bands_ofSamples (hordered : times.Pairwise (· ≤ ·))
    (h : times.mapM (fun time => p.compute (.resolved time) (s.sampleOptions (.resolved time))) =
      .ok samples)
    (width height : ℕ) :
    Sweep 0 (samples.map (·.phase)) (ofSamples width height samples).bands ∧
      Partition (samples.map (·.phase)) (ofSamples width height samples).bands ∧
      ((ofSamples width height samples).bands.map (·.phase)).Sublist [.before, .active, .after] ∧
      (ofSamples width height samples).bands.length ≤ 3 := by
  have hsweep := sweep_bandsFrom 0 (samples.map (·.phase))
  have hsublist := sublist_bands hordered h
  refine ⟨hsweep, hsweep.partition, hsublist, ?_⟩
  rw [← List.length_map (·.phase)]
  exact hsublist.length_le

/-- A progress-based timeline of ten nanoseconds; the ends of the active interval are left out,
except at the ends of the timeline. -/
def tenLong (p : TimingParams) : Setup :=
  { version := Description.currentVersion, timing := p, timeline := .clamp 10, rate := 1
    endpoint := .exclusive, boundary := false, finished := false }

/-- Times on both sides of the end of that timeline, which itself occurs twice. -/
def aroundTen : List Span := [.clamp 0, .clamp 10, .clamp 10, .clamp 12]

/-- An empty effect that stands at the end of the timeline is active there, and has one more band on
either side. -/
theorem Picture.bands_ofSamples_timelineEnd :
    ∃ p samples, TimingParams.ofOptions TimingParams.emptyAfterDelay = .ok p ∧
      aroundTen.mapM (fun time =>
        p.compute (.resolved time) ((tenLong p).sampleOptions (.resolved time))) =
        .ok samples ∧
      (ofSamples 640 320 samples).bands = [⟨.before, 0, 1⟩, ⟨.active, 1, 3⟩, ⟨.after, 3, 4⟩] ∧
      Partition (samples.map (·.phase)) (ofSamples 640 320 samples).bands ∧
      (ofSamples 640 320 samples).bands.length ≤ 3 := by
  obtain ⟨p, hp, hphases, hsum⟩ : ∃ p, TimingParams.ofOptions TimingParams.emptyAfterDelay = .ok p ∧
      (aroundTen.map fun time => p.phaseAt ((tenLong p).sampleOptions (.resolved time)) time) =
        [.before, .active, .active, .after] ∧
      Binary64.isFinite (p.iterations + p.iterationStart) = true := ⟨_, rfl, rfl, by decide +kernel⟩
  have hdefined : ∀ time ∈ aroundTen, ∃ c,
      p.compute (.resolved time) ((tenLong p).sampleOptions (.resolved time)) = .ok c := by
    intro time _
    refine TimingParams.compute_ok (TimingParams.valid_of_ofOptions hp) ?_
    rintro ⟨_, -, -, -, -, -, hover⟩
    rw [hsum] at hover
    cases hover
  obtain ⟨samples, hsamples⟩ := exists_mapM_iff.mpr hdefined
  obtain ⟨-, hpartition, -, hlength⟩ := Picture.bands_ofSamples (by decide) hsamples 640 320
  refine ⟨p, samples, hp, hsamples, ?_, hpartition, hlength⟩
  show bandsFrom 0 (samples.map (·.phase)) = _
  rw [phases_of_mapM hsamples, hphases]
  simp [bandsFrom]

end Plot

/-! ### The times of the columns -/

namespace Command

open Binary64

variable {r : SampleRange} {columns i j : ℕ}

/-- The share of a column, rounded to a number. -/
theorem hasValue_share (hcolumns : columns ≤ 9007199254740992) (htwo : 2 ≤ columns)
    (hi : i < columns) :
    HasValue (Float.ofNat i / Float.ofNat (columns - 1)) (rounded (i / (columns - 1 : ℕ))) := by
  have hpos : (0 : ℚ) < (columns - 1 : ℕ) := by
    rw [Nat.cast_pos]
    omega
  have hle : |(i : ℚ) / (columns - 1 : ℕ)| ≤ 2 ^ 0 := by
    rw [pow_zero, abs_of_nonneg (by positivity), div_le_one hpos, Nat.cast_le]
    omega
  refine (hasValue_ofNat_of_le (by omega)).div (hasValue_ofNat_of_le (by omega)) hpos.ne' ?_
  exact (abs_rounded_le_pow hle).trans_lt (pow_lt_limit (by norm_num))

/-- A column further to the right is not sampled earlier. -/
theorem columnTime_le (hr : r.first ≤ r.last) (hcolumns : columns ≤ 9007199254740992) (hij : i ≤ j)
    (hj : j < columns) : columnTime r columns i ≤ columnTime r columns j := by
  -- a plot of one column has no share to speak of: it is divided by zero
  rcases hij.eq_or_lt with rfl | hlt
  · exact le_refl (columnTime r columns i).ns
  have hspan : 0 ≤ (r.last.sub r.first).ns := by
    have hle : r.first.ns ≤ r.last.ns := hr
    have hfirst := r.first.neg_le_ns
    have hlast := r.last.ns_le
    rw [Span.sub_ns]
    grind
  have hshares : rounded ((i : ℚ) / (columns - 1 : ℕ)) ≤ rounded ((j : ℚ) / (columns - 1 : ℕ)) := by
    apply rounded_mono
    gcongr
  rw [columnTime, columnTime, Span.add_comm r.first, Span.add_comm r.first]
  apply Span.add_le_add_right
  rw [Span.le_iff, Span.scale_ns hspan (hasValue_share hcolumns (by omega) (by omega))
    (rounded_nonneg (by positivity)),
    Span.scale_ns hspan (hasValue_share hcolumns (by omega) hj) (rounded_nonneg (by positivity))]
  exact Span.scaledCount_mono hspan hshares

/-- A plot over a checked range has at most one band of each phase, in the order of the phases. -/
theorem sublist_columnSamples {s : Setup} {p : TimingParams} {samples : List ComputedTiming}
    (hr : r.validate = .ok ()) (hcolumns : columns ≤ 9007199254740992)
    (h : columnSamples s p r columns = .ok samples) (width height : ℕ) :
    ((Plot.Picture.ofSamples width height samples).bands.map (·.phase)).Sublist [.before,
      .active, .after] := by
  have hle : r.first ≤ r.last := (SampleRange.of_validate hr).2.1
  have htaken : ((List.range columns).map (columnTime r columns)).mapM
      (fun time => p.compute (.resolved time) (s.sampleOptions (.resolved time))) =
      .ok samples := by
    rw [List.mapM_map]
    exact h
  refine Plot.sublist_bands (List.pairwise_map.mpr ?_) htaken
  rw [List.pairwise_iff_getElem]
  intro i j hi hj hij
  rw [List.getElem_range, List.getElem_range]
  exact columnTime_le hle hcolumns hij.le (by simpa using hj)

end Command

end EffectTiming
