import Mathlib
import EffectTiming.Timing.Summary
import EffectTiming.Trace.Basic
import EffectTiming.Tween
import EffectTiming.Proofs.Binary64.Text
import EffectTiming.Proofs.Text.Raw
import EffectTiming.Proofs.Timing.Defined

/-!
# Where an effect applies

Sampling fills in the fields of a reading together, and only in the phases that the fill mode
covers; where it stops early they all look as at the start of an effect. What is made of a sample
further on (the value of a tween, the summary for tools, the form kept in traces) looks at one of
the fields or another, and so they all agree on whether the effect applies.

`TimingParams.Sampled` lists what a sample can be; the facts about samples follow by its cases.
-/

namespace EffectTiming

/-- An effect with the given fill mode applies in the phase. -/
def Phase.CoveredBy (phase : Phase) (fill : FillMode) : Prop :=
  phase = .active ∨ (phase = .after ∧ (fill = .forwards ∨ fill = .both)) ∨
    (phase = .before ∧ (fill = .backwards ∨ fill = .both))

instance (phase : Phase) (fill : FillMode) : Decidable (phase.CoveredBy fill) :=
  inferInstanceAs (Decidable (_ ∨ _))

theorem Phase.coveredBy_resolve (phase : Phase) (fill : FillMode) :
    phase.CoveredBy fill.resolve ↔ phase.CoveredBy fill := by
  cases phase <;> cases fill <;> decide

/-! ### Samples by cases -/

namespace TimingParams

variable {p : TimingParams} {l : LocalTime} {o : SampleOptions} {c : ComputedTiming}

theorem appliesIn_iff {phase : Phase} : p.appliesIn phase = true ↔ phase.CoveredBy p.fill := by
  rw [appliesIn.eq_def]
  cases phase <;> cases p.fill <;> decide

/-- What a sample at a local time can be. -/
inductive Sampled (p : TimingParams) (o : SampleOptions) : LocalTime → ComputedTiming → Prop where
  | idle : Sampled p o .unresolved (p.still .idle none)
  | unfilled (time : Span) (h : p.appliesIn (p.phaseAt o time) = false) :
      Sampled p o (.resolved time) (p.still (p.phaseAt o time) none)
  | shown (time : Span) (h : p.appliesIn (p.phaseAt o time) = true) :
      Sampled p o (.resolved time)
        (p.still (p.phaseAt o time) (some (p.shownIn (p.phaseAt o time) time)))

theorem sampled_of_compute (h : p.compute l o = .ok c) : p.Sampled o l c := by
  rw [compute_eq] at h
  -- the three conditions on the parameters come first, whatever the local time
  obtain ⟨_, -, h⟩ := exists_ok_of_bind h
  obtain ⟨_, -, h⟩ := exists_ok_of_bind h
  obtain ⟨_, -, h⟩ := exists_ok_of_bind h
  cases l with
  | unresolved =>
    cases h
    exact .idle
  | resolved time =>
    rw [sampleBy] at h
    split at h
    · rename_i happlies
      obtain ⟨r, hr, rfl⟩ := exists_ok_of_map h
      rw [eq_of_readingIn hr]
      exact .shown time happlies
    · rename_i hnot
      cases h
      exact .unfilled time (by simpa using hnot)

theorem Sampled.inEffect_iff (h : p.Sampled o l c) :
    c.inEffect = true ↔ c.phase.CoveredBy p.fill := by
  cases h with
  | idle => simp [ComputedTiming.inEffect, still, Phase.CoveredBy]
  | unfilled time hnot => simp [ComputedTiming.inEffect, still, ← appliesIn_iff, hnot]
  | shown time happlies => simp [ComputedTiming.inEffect, still, ← appliesIn_iff, happlies]

theorem Sampled.fill_eq (h : p.Sampled o l c) : c.fill = p.fill.resolve := by
  cases h <;> rfl

theorem Sampled.phase_eq {time : Span} (h : p.Sampled o (.resolved time) c) :
    c.phase = p.phaseAt o time := by
  cases h <;> rfl

end TimingParams

/-! ### What is made of a sample -/

theorem Iteration.text_ne_empty (i : Iteration) : i.text ≠ "" := by
  cases i with
  | finite n =>
    intro h
    exact Binary64.toString_ne_nil n (congrArg String.toList h)
  | infinite => decide

/-- Everything that shows a part of a sample shows it exactly if there is a progress, and without
one the sample looks as at the start of an effect. -/
structure ComputedTiming.Coherent (c : ComputedTiming) : Prop where
  overall : c.overall.isSome = c.progress.isSome
  simple : c.simple.isSome = c.progress.isSome
  inEffect : c.inEffect = c.progress.isSome
  unread : c.progress = none → c.activeTime = .zero ∧ c.iteration = .finite 0 ∧ c.beforeFlag = false
  tween : ∀ (α : Type) (w : Tween α), (w.transform c).isSome = c.progress.isSome
  summary : ∀ (specified : TimingParams) (l : LocalTime),
    (c.summary specified l).progress.isSome = c.progress.isSome ∧
      (c.summary specified l).currentIteration.isSome = c.progress.isSome
  trace : ∀ l : LocalTime,
    (TraceSample.ofComputed l c).progress.isSome = c.progress.isSome ∧
      ((TraceSample.ofComputed l c).iteration ≠ "" ↔ c.progress.isSome = true)

namespace TimingParams

variable {p : TimingParams} {l : LocalTime} {o : SampleOptions} {c : ComputedTiming}

theorem Sampled.coherent (h : p.Sampled o l c) : c.Coherent where
  overall := by cases h <;> rfl
  simple := by cases h <;> rfl
  inEffect := rfl
  unread := by
    intro hnone
    cases h with
    | idle | unfilled => exact ⟨rfl, rfl, rfl⟩
    | shown => cases hnone
  tween _ w := by rw [Tween.transform, Option.isSome_map]
  summary specified l := by
    refine ⟨rfl, ?_⟩
    simp only [ComputedTiming.summary]
    split <;> simp [*]
  trace l := by
    refine ⟨by rw [TraceSample.ofComputed, Option.isSome_map], ?_⟩
    rw [TraceSample.ofComputed, ComputedTiming.inEffect]
    by_cases hshown : c.progress.isSome = true
    · simp [hshown, Iteration.text_ne_empty]
    · simp [hshown]

/-- A sample has a progress exactly in the phases that the fill mode covers, be it the fill mode as
it is specified or as the sample shows it, and everything that is made of the sample goes by the
same rule. -/
theorem compute_progress_iff (h : p.compute l o = .ok c) :
    (c.progress.isSome = true ↔ c.phase.CoveredBy p.fill) ∧
      (c.progress.isSome = true ↔ c.phase.CoveredBy c.fill) ∧ c.Coherent := by
  have hsampled : p.Sampled o l c := sampled_of_compute h
  have hprogress : c.progress.isSome = true ↔ c.phase.CoveredBy p.fill := hsampled.inEffect_iff
  refine ⟨hprogress, ?_, hsampled.coherent⟩
  rw [hsampled.fill_eq, Phase.coveredBy_resolve]
  exact hprogress

/-- An empty effect that is repeated without end, and that applies before its delay is over. -/
def heldBefore : TimingOptions :=
  { delay := .clamp 4, duration := some .zero, iterations := Binary64.infinity,
    fill := .known .backwards }

/-- Before its delay is over the effect shows, also in a trace, and afterwards it does not. -/
theorem compute_progress_heldBefore :
    ∃ p c d, ofOptions heldBefore = .ok p ∧
      p.compute (.resolved { ns := 3 }) {} = .ok c ∧ p.compute (.resolved { ns := 5 }) {} = .ok d ∧
      c.phase = .before ∧ c.progress.isSome = true ∧
      (TraceSample.ofComputed .unresolved c).iteration ≠ "" ∧
      d.phase = .after ∧ d.progress = none ∧ d.iteration = .finite 0 := by
  obtain ⟨p, hp, hfill, hbefore, hafter⟩ : ∃ p, ofOptions heldBefore = .ok p ∧ p.fill = .backwards ∧
      p.phaseAt {} { ns := 3 } = .before ∧ p.phaseAt {} { ns := 5 } = .after :=
        ⟨_, rfl, rfl, rfl, rfl⟩
  have hvalid := valid_of_ofOptions hp
  obtain ⟨c, hc⟩ : ∃ c, p.compute (.resolved { ns := 3 }) {} = .ok c := by
    refine compute_ok hvalid ?_
    rintro ⟨time, htime, -, -, hphase, -⟩
    cases htime
    exact hphase hbefore
  obtain ⟨d, hd⟩ : ∃ d, p.compute (.resolved { ns := 5 }) {} = .ok d := by
    refine compute_ok hvalid ?_
    rintro ⟨time, htime, happlies, -⟩
    cases htime
    rw [appliesIn_iff, hafter, hfill] at happlies
    exact absurd happlies (by decide)
  obtain ⟨hshown, -, hcoherent⟩ := compute_progress_iff hc
  obtain ⟨hhidden, -, hcoherent'⟩ := compute_progress_iff hd
  have hcphase : c.phase = .before := (phase_of_compute hvalid hc).trans hbefore
  have hdphase : d.phase = .after := (phase_of_compute hvalid hd).trans hafter
  have hsome : c.progress.isSome = true := by
    rw [hshown, hcphase, hfill]
    decide
  have hnone : d.progress = none := by
    rw [hdphase, hfill] at hhidden
    simpa using mt hhidden.mp (by decide)
  exact ⟨p, c, d, hp, hc, hd, hcphase, hsome, (hcoherent.trace _).2.mpr hsome, hdphase, hnone,
    (hcoherent'.unread hnone).2.1⟩

end TimingParams

end EffectTiming
