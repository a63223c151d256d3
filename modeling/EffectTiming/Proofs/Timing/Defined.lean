import Mathlib
import EffectTiming.Proofs.Timing.Reading

/-!
# When sampling is defined

Sampling checked parameters gives a record, whatever the local time and the options, unless the
iteration count and the iteration start are finite numbers with an infinite sum and the active
interval is empty and over. Then the progress within the iteration is no number, and sampling breaks
off.
-/

namespace EffectTiming.TimingParams

open Binary64

variable {p : TimingParams}

/-- The sample falls into a phase in which the effect applies and the sum of the iteration count and
the iteration start overflows. -/
def OverflowsAt (p : TimingParams) (l : LocalTime) (o : SampleOptions) : Prop :=
  ∃ time, l = .resolved time ∧ p.appliesIn (p.phaseAt o time) = true ∧
    p.OverflowsIn (p.phaseAt o time)

/-- The conditions on the parameters hold, and what is left is the reading. -/
theorem compute_of_valid (h : p.Valid) (l : LocalTime) (o : SampleOptions) :
    p.compute l o = p.sampleBy o l := by
  have hduration : decide (Span.zero ≤ p.iterationDuration) = true := decide_eq_true h.duration
  have hiterations : (decide (p.iterations ≥ 0) && !p.iterations.isNaN) = true := by
    rw [decide_eq_true h.iterations_nonneg, h.iterations_number]
    rfl
  have hstart : decide (p.iterationStart ≥ 0) = true := by
    obtain ⟨r, hr, hr0⟩ := h.start
    exact decide_eq_true ((hasValue_zero.le_iff hr).mpr hr0)
  rw [compute_eq, hduration, hiterations, hstart]
  rfl

theorem compute_of_overflowsAt (h : p.Valid) {l : LocalTime} {o : SampleOptions}
    (hover : p.OverflowsAt l o) : p.compute l o = .error .progressNotFinite := by
  obtain ⟨time, rfl, happlies, hin⟩ := hover
  rw [compute_of_valid h, sampleBy, if_pos happlies, readingIn_of_overflowsIn hin]
  rfl

theorem compute_ok (h : p.Valid) {l : LocalTime} {o : SampleOptions} (hover : ¬ p.OverflowsAt l o) :
    ∃ c, p.compute l o = .ok c := by
  rw [compute_of_valid h]
  cases l with
  | unresolved => exact ⟨_, rfl⟩
  | resolved time =>
    by_cases happlies : p.appliesIn (p.phaseAt o time) = true
    · obtain ⟨r, hr⟩ : ∃ r, p.readingIn (p.phaseAt o time) time = .ok r :=
        readingIn_ok h fun hin => hover ⟨time, rfl, happlies, hin⟩
      rw [sampleBy, if_pos happlies, hr]
      exact ⟨_, rfl⟩
    · rw [sampleBy, if_neg happlies]
      exact ⟨_, rfl⟩

/-- Every sample of an active interval that is not empty is defined. -/
theorem compute_ok_of_nonempty (h : p.Valid) (h0 : p.activeDuration ≠ .zero) (l : LocalTime)
    (o : SampleOptions) : ∃ c, p.compute l o = .ok c := by
  refine compute_ok h ?_
  rintro ⟨_, -, -, hzero, -⟩
  exact h0 hzero

/-- A sample shows the phase of its local time. -/
theorem phase_of_compute (h : p.Valid) {time : Span} {s : SampleOptions} {c : ComputedTiming}
    (hc : p.compute (.resolved time) s = .ok c) : c.phase = p.phaseAt s time := by
  rw [compute_of_valid h, sampleBy] at hc
  split at hc
  · cases hr : p.readingIn (p.phaseAt s time) time with
    | error e =>
      rw [hr] at hc
      cases hc
    | ok r =>
      rw [hr] at hc
      cases hc
      rfl
  · cases hc
    rfl

/-- Sampling checked parameters gives a record exactly if the sum of the iteration count and the
iteration start does not overflow in an empty active interval that is over; if it does, the progress
is what is not finite, and no other condition ever fails. -/
theorem compute_defined_iff {o : TimingOptions} (h : ofOptions o = .ok p) (l : LocalTime)
    (s : SampleOptions) :
    ((∃ c, p.compute l s = .ok c) ↔ ¬ p.OverflowsAt l s) ∧
      ∀ e, p.compute l s = .error e ↔ e = .progressNotFinite ∧ p.OverflowsAt l s := by
  have hvalid := valid_of_ofOptions h
  by_cases hover : p.OverflowsAt l s
  · rw [compute_of_overflowsAt hvalid hover]
    simp [hover, eq_comm]
  · obtain ⟨c, hc⟩ := compute_ok hvalid hover
    rw [hc]
    simp [hover]

/-- An empty effect with the greatest finite iteration count there is. -/
def mostIterations (start : Float) : TimingOptions :=
  { duration := some .zero
    iterations := Float.ofBits 0x7fefffffffffffff
    iterationStart := start }

/-- The sum with a small iteration start rounds down to the count itself, and the sample is
defined. -/
theorem compute_defined_mostIterations :
    ∃ p, ofOptions (mostIterations 3) = .ok p ∧ ∃ c, p.compute (.resolved .zero) {} = .ok c := by
  refine ⟨_, rfl, (compute_defined_iff (o := mostIterations 3) rfl (.resolved .zero) {}).1.mpr ?_⟩
  rintro ⟨_, -, -, -, -, -, hsum⟩
  exact absurd hsum (by decide +kernel)

/-- With an iteration start of the size of the count, the sample is not defined. -/
theorem compute_undefined_mostIterations :
    ∃ p, ofOptions (mostIterations (Float.ofBits 0x7fefffffffffffff)) = .ok p ∧
      p.compute (.resolved .zero) {} = .error .progressNotFinite :=
  ⟨_, rfl, rfl⟩

end EffectTiming.TimingParams
