import Mathlib
import EffectTiming.Timing.Computed
import EffectTiming.Proofs.Timing.Valid

/-!
# Readings

A sample of an effect that applies holds a reading: the fields that are filled in together, one
after the other. Here they stand as one record, `TimingParams.readingIn`, and `compute_eq` says that
sampling fills in the fields of the reading where the effect applies, and none of them elsewhere.

The steps of a reading have names, and for valid parameters something is known of each: the progress
within the iteration lies in the unit interval, and at the end of the active interval an iteration
is over.

The one way in which a reading can fail is that the iteration count and the iteration start are
finite while their sum is not (`OverflowsIn`).
-/

namespace EffectTiming

/-- What a sample shows while the effect applies. -/
structure Reading where
  activeTime : Span
  overall : Float
  simple : Float
  progress : Float
  iteration : Iteration
  beforeFlag : Bool

namespace TimingParams

open Binary64

/-! ### The steps of a reading -/

/-- The effect applies in a phase. -/
def appliesIn (p : TimingParams) : Phase → Bool
  | .idle => false
  | .before => p.fill.resolve.fillsBackwards
  | .active => true
  | .after => p.fill.resolve.fillsForwards

/-- The time spent in the active interval at a local time of the given phase. -/
def activeTimeAt (p : TimingParams) (phase : Phase) (time : Span) : Span :=
  let passed := time.sub p.delay
  match phase with
  | .after => (passed.min p.activeDuration).max .zero
  | .before => passed.max .zero
  | _ => passed

/-- The iterations finished after `active` of the active interval, without the iteration start. -/
def iterationsAfter (p : TimingParams) (phase : Phase) (active : Span) : Float :=
  if p.activeDuration = .zero then
    if phase = .before then 0 else p.iterations
  else active.ratio p.iterationDuration

/-- The iterations finished at a local time of the given phase. -/
def passedIn (p : TimingParams) (phase : Phase) (time : Span) : Float :=
  p.iterationsAfter phase (p.activeTimeAt phase time)

/-- The iterations finished, with the iteration start. -/
def overallIn (p : TimingParams) (phase : Phase) (time : Span) : Float :=
  if isFinite (p.passedIn phase time) then p.passedIn phase time + p.iterationStart
  else p.passedIn phase time

/-- The part of the iteration that is finished, before the end of the active interval is looked
at. -/
def fractionIn (p : TimingParams) (phase : Phase) (time : Span) : Float :=
  fraction (if isFinite (p.passedIn phase time) then p.overallIn phase time else p.iterationStart)

/-- The active interval is just over. -/
def atEndIn (p : TimingParams) (phase : Phase) (time : Span) : Bool :=
  p.fractionIn phase time == 0 && (phase == .active || phase == .after) &&
    p.activeTimeAt phase time == p.activeDuration && p.iterations != 0

/-- The part of the iteration that is finished. -/
def baseIn (p : TimingParams) (phase : Phase) (time : Span) : Float :=
  if p.atEndIn phase time then 1 else p.fractionIn phase time

/-- The iteration. -/
def iterationIn (p : TimingParams) (phase : Phase) (time : Span) : Iteration :=
  if p.atEndIn phase time then (p.iterationOf phase (p.overallIn phase time)).previous
  else p.iterationOf phase (p.overallIn phase time)

/-- The directed progress. -/
def simpleIn (p : TimingParams) (phase : Phase) (time : Span) : Float :=
  if p.runsBackwards (p.iterationIn phase time) then 1 - p.baseIn phase time
  else p.baseIn phase time

/-- The lower side of a jump applies. -/
def flagIn (p : TimingParams) (phase : Phase) (time : Span) : Bool :=
  (phase == .after && p.runsBackwards (p.iterationIn phase time)) ||
    (phase == .before && !p.runsBackwards (p.iterationIn phase time))

/-- The eased progress. -/
def progressIn (p : TimingParams) (phase : Phase) (time : Span) : Float :=
  p.easing.eval (p.simpleIn phase time) (p.flagIn phase time)

/-- The steps of a reading put together. -/
def shownIn (p : TimingParams) (phase : Phase) (time : Span) : Reading :=
  { activeTime := p.activeTimeAt phase time
    overall := p.overallIn phase time
    simple := p.simpleIn phase time
    progress := p.progressIn phase time
    iteration := p.iterationIn phase time
    beforeFlag := p.flagIn phase time }

/-- The reading in a phase in which the effect applies. -/
def readingIn (p : TimingParams) (phase : Phase) (time : Span) : Except Broken Reading := do
  require (!p.atEndIn phase time || p.iterationOf phase (p.overallIn phase time) != .finite 0)
    .zeroIterationAtEnd
  require (isFinite (p.progressIn phase time)) .progressNotFinite
  return p.shownIn phase time

/-- The sample of a phase with the given reading, or with none. -/
def still (p : TimingParams) (phase : Phase) (reading : Option Reading) : ComputedTiming :=
  { p.unsampled with
    phase
    activeTime := (reading.map (·.activeTime)).getD .zero
    overall := reading.map (·.overall)
    simple := reading.map (·.simple)
    progress := reading.map (·.progress)
    iteration := (reading.map (·.iteration)).getD (.finite 0)
    beforeFlag := (reading.map (·.beforeFlag)).getD false }

/-- The sample at a local time, by its reading. -/
def sampleBy (p : TimingParams) (o : SampleOptions) : LocalTime → Except Broken ComputedTiming
  | .unresolved => .ok (p.still .idle none)
  | .resolved time =>
    if p.appliesIn (p.phaseAt o time) then
      (p.readingIn (p.phaseAt o time) time).map fun r => p.still (p.phaseAt o time) (some r)
    else .ok (p.still (p.phaseAt o time) none)

/-! ### Sampling fills in a reading -/

/-- The sample of a phase once its iteration is known. -/
def countedIn (p : TimingParams) (phase : Phase) (time : Span) : ComputedTiming :=
  { p.unsampled with
    phase
    activeTime := p.activeTimeAt phase time
    overall := some (p.overallIn phase time)
    iteration := p.iterationIn phase time }

theorem ease_countedIn (p : TimingParams) (phase : Phase) (time : Span) :
    p.ease (p.countedIn phase time) (p.baseIn phase time) = (do
      require (isFinite (p.progressIn phase time)) .progressNotFinite
      return p.still phase (some (p.shownIn phase time))) :=
  rfl

/-- Both branches at the end of the active interval lead to the same easing. -/
theorem finish_eq_ease (p : TimingParams) (phase : Phase) (time : Span) :
    p.finish { p.unsampled with phase, activeTime := p.activeTimeAt phase time } = (do
      require (!p.atEndIn phase time || p.iterationOf phase (p.overallIn phase time) != .finite 0)
        .zeroIterationAtEnd
      p.ease (p.countedIn phase time) (p.baseIn phase time)) := by
  have hbranches :
      (if p.atEndIn phase time then
        p.ease { p.countedIn phase time with
          iteration := (p.iterationOf phase (p.overallIn phase time)).previous } 1
      else
        p.ease { p.countedIn phase time with
          iteration := p.iterationOf phase (p.overallIn phase time) } (p.fractionIn phase time)) =
      p.ease (p.countedIn phase time) (p.baseIn phase time) := by
    rw [countedIn, baseIn, iterationIn]
    split <;> rfl
  rw [← hbranches]
  rfl

theorem finish_eq (p : TimingParams) (phase : Phase) (time : Span) :
    p.finish { p.unsampled with phase, activeTime := p.activeTimeAt phase time } =
      (p.readingIn phase time).map fun r => p.still phase (some r) := by
  rw [finish_eq_ease, ease_countedIn, readingIn]
  cases require (!p.atEndIn phase time ||
      p.iterationOf phase (p.overallIn phase time) != .finite 0) .zeroIterationAtEnd with
  | error e => rfl
  | ok _ => cases require (isFinite (p.progressIn phase time)) .progressNotFinite <;> rfl

theorem phaseAt_ne_idle (p : TimingParams) (o : SampleOptions) (time : Span) :
    p.phaseAt o time ≠ .idle := by
  rw [phaseAt]
  split
  · exact Phase.noConfusion
  · split <;> exact Phase.noConfusion

/-- Sampling fills in the reading where the effect applies, and leaves the fields of a reading alone
elsewhere. -/
theorem compute_eq (p : TimingParams) (l : LocalTime) (o : SampleOptions) :
    p.compute l o = (do
      require (Span.zero ≤ p.iterationDuration) .negativeDuration
      require (p.iterations ≥ 0 && !p.iterations.isNaN) .negativeIterations
      require (p.iterationStart ≥ 0) .negativeStart
      p.sampleBy o l) := by
  cases l with
  | unresolved => rfl
  | resolved time =>
    rw [compute]
    congr 1
    funext _
    congr 1
    funext _
    congr 1
    funext _
    -- what is left goes by the phase, which is not the one of an effect without a local time
    have hidle := phaseAt_ne_idle p o time
    rw [sampleBy]
    dsimp only
    generalize p.phaseAt o time = phase at hidle ⊢
    rw [← finish_eq]
    cases phase with
    | idle => exact absurd rfl hidle
    | before | active | after => rfl

variable {p : TimingParams} {phase : Phase} {time : Span}

/-! ### The end of the active interval -/

theorem passedIn_of_empty (h0 : p.activeDuration = .zero) (hphase : phase ≠ .before) :
    p.passedIn phase time = p.iterations := by
  rw [passedIn, iterationsAfter, if_pos h0, if_neg hphase]

theorem passedIn_of_nonempty (h0 : p.activeDuration ≠ .zero) :
    p.passedIn phase time = (p.activeTimeAt phase time).ratio p.iterationDuration := by
  rw [passedIn, iterationsAfter, if_neg h0]

/-- At the end of the active interval something has passed. -/
theorem passedIn_pos (h : p.Valid) (hphase : phase ≠ .before)
    (hend : p.activeTimeAt phase time = p.activeDuration) (hn : (p.iterations == 0) = false) :
    IsInfinite (p.passedIn phase time) ∨ ∃ v, HasValue (p.passedIn phase time) v ∧ 0 < v := by
  by_cases h0 : p.activeDuration = .zero
  · rw [passedIn_of_empty h0 hphase]
    rcases h.iterations with ⟨n, hn', hle⟩ | hinf
    · refine Or.inr ⟨n, hn', lt_of_le_of_ne hle fun hzero => ?_⟩
      rw [(hn'.beq_iff hasValue_zero).mpr hzero.symm] at hn
      exact absurd hn (by decide)
    · exact Or.inl hinf
  · obtain ⟨hpos, hpos'⟩ := activeDuration_pos h h0
    rw [passedIn_of_nonempty h0, hend]
    exact Span.ratio_pos hpos hpos' (activeDuration_eq_forever h h0)

theorem hasValue_iterationLimit : HasValue iterationLimit 18446744073709551616 := by
  have h := hasValue_two_pow (k := 64) (by norm_num)
  norm_num at h
  exact h

theorem iterationOf_of_isInfinite {x : Float} (hx : IsInfinite x) :
    p.iterationOf phase x = .infinite := by
  rw [iterationOf, if_pos]
  rw [Bool.or_eq_true, decide_eq_true_eq]
  exact Or.inr (hx.le hasValue_iterationLimit)

/-- A whole and positive overall progress is not in the first iteration. -/
theorem iterationOf_ne_zero {x : Float} {w : ℚ} (hx : HasValue x w) (hw : 0 < w)
    (hwhole : w - towardZero w = 0) : p.iterationOf phase x ≠ .finite 0 := by
  rw [iterationOf]
  split
  · exact Iteration.noConfusion
  · rw [hx.truncate]
    have hone : 1 ≤ towardZero w := by
      have : (0 : ℚ) < towardZero w := by linarith
      exact_mod_cast this
    intro heq
    have : (towardZero w).toNat = 0 := Iteration.finite.inj heq
    omega

/-- What the end of the active interval is made of. -/
theorem of_atEndIn (hend : p.atEndIn phase time = true) :
    (p.fractionIn phase time == 0) = true ∧ phase ≠ .before ∧
      p.activeTimeAt phase time = p.activeDuration ∧ (p.iterations == 0) = false := by
  rw [atEndIn, Bool.and_eq_true, Bool.and_eq_true, Bool.and_eq_true] at hend
  obtain ⟨⟨⟨hfraction, hphase⟩, hactive⟩, hn⟩ := hend
  refine ⟨hfraction, ?_, by simpa using hactive, by simpa [bne] using hn⟩
  rintro rfl
  exact absurd hphase (by decide)

/-- At the end of the active interval an iteration is over. -/
theorem iterationOf_ne_zero_of_atEndIn (h : p.Valid) (hend : p.atEndIn phase time = true) :
    p.iterationOf phase (p.overallIn phase time) ≠ .finite 0 := by
  obtain ⟨hfraction, hphase, hactive, hn⟩ := of_atEndIn hend
  rcases passedIn_pos h hphase hactive hn with hinf | ⟨v, hv, hv0⟩
  · have hoverall : p.overallIn phase time = p.passedIn phase time :=
      if_neg (by simp [hinf.isFinite])
    rw [hoverall, iterationOf_of_isInfinite hinf]
    exact Iteration.noConfusion
  · obtain ⟨r, hr, hr0⟩ := h.start
    have hoverall : p.overallIn phase time = p.passedIn phase time + p.iterationStart :=
      if_pos hv.isFinite
    have hfrac : p.fractionIn phase time = fraction (p.passedIn phase time + p.iterationStart) := by
      rw [fractionIn, if_pos hv.isFinite, hoverall]
    rw [hfrac] at hfraction
    rw [hoverall]
    rcases hv.add_cases hr hv0.le hr0 with hw | hinf
    · -- the sum is not below what has passed, and it is whole
      have hpos : v ≤ rounded (v + r) := le_rounded hv.representable (by linarith)
      exact iterationOf_ne_zero hw (by linarith) ((hw.fraction.beq_iff hasValue_zero).mp hfraction)
    · rw [fraction_of_not_finite hinf, notANumber_beq] at hfraction
      exact absurd hfraction (by decide)

/-! ### Finite progress -/

/-- The iteration count and the iteration start are finite, and their sum is not, in a phase in
which an empty active interval is over. -/
def OverflowsIn (p : TimingParams) (phase : Phase) : Prop :=
  p.activeDuration = .zero ∧ phase ≠ .before ∧ isFinite p.iterations = true ∧
    isFinite (p.iterations + p.iterationStart) = false

/-- The fraction of a finite number is below one. -/
theorem atMost_fraction {x : Float} {q : ℚ} (h : HasValue x q) : AtMost (fraction x) 0 := by
  obtain ⟨f, hf, hlt⟩ := h.fraction_abs_lt
  exact ⟨f, hf, by rw [pow_zero]; exact hlt.le⟩

/-- Adding an iteration start to a count of moderate size stays in range. -/
theorem exists_hasValue_add {x y : Float} {r : ℚ} (hx : AtMost x 63) (hy : HasValue y r) :
    ∃ w, HasValue (x + y) w := by
  obtain ⟨v, hv, hle⟩ := hx
  refine ⟨_, hv.add hy (abs_rounded_lt ?_)⟩
  have hmax := hy.abs_le
  have hunit : (2 : ℚ) ^ 63 < topUnit / 2 := by
    have : topUnit / 2 = 2 ^ (970 : ℤ) := by
      rw [topUnit, show (971 : ℤ) = 970 + 1 by norm_num, zpow_add₀ (by norm_num), zpow_one]
      exact mul_div_cancel_right₀ _ (by norm_num)
    rw [this, ← zpow_natCast]
    exact zpow_lt_zpow_right₀ (by norm_num) (by norm_num)
  have := abs_add_le v r
  generalize topUnit = unit at *
  linarith

/-- Unless the sum overflows, a finite count with the iteration start added is finite. -/
theorem exists_hasValue_overallIn (h : p.Valid) (hover : ¬ p.OverflowsIn phase)
    (hfinite : isFinite (p.passedIn phase time) = true) :
    ∃ w, HasValue (p.overallIn phase time) w := by
  obtain ⟨r, hr, -⟩ := h.start
  rw [overallIn, if_pos hfinite]
  -- only the iteration count itself, which an empty interval reports, can be too large to add to
  by_cases h0 : p.activeDuration = .zero
  · by_cases hphase : phase = .before
    · refine exists_hasValue_add ?_ hr
      rw [passedIn, iterationsAfter, if_pos h0, if_pos hphase]
      exact atMost_zero 63
    · rw [passedIn_of_empty h0 hphase] at hfinite ⊢
      apply isFinite_iff.mp
      by_contra hsum
      exact hover ⟨h0, hphase, hfinite, by simpa using hsum⟩
  · refine exists_hasValue_add ?_ hr
    rw [passedIn_of_nonempty h0] at hfinite ⊢
    rcases Span.ratio_cases (p.activeTimeAt phase time) (activeDuration_pos h h0).2 with
      hinf | hsize
    · rw [hinf.1] at hfinite
      exact absurd hfinite (by decide)
    · exact hsize

theorem passedIn_isNaN (h : p.Valid) : (p.passedIn phase time).isNaN = false := by
  by_cases h0 : p.activeDuration = .zero
  · rw [passedIn, iterationsAfter, if_pos h0]
    split
    · exact hasValue_zero.isNaN
    · exact h.iterations_number
  · rw [passedIn_of_nonempty h0]
    rcases Span.ratio_cases (p.activeTimeAt phase time) (activeDuration_pos h h0).2
      with hinf | ⟨v, hv, -⟩
    · exact hinf.2
    · exact hv.isNaN

/-- Unless the sum overflows, the overall progress is a number. -/
theorem overallIn_isNaN (h : p.Valid) (hover : ¬ p.OverflowsIn phase) :
    (p.overallIn phase time).isNaN = false := by
  by_cases hfinite : isFinite (p.passedIn phase time) = true
  · obtain ⟨w, hw⟩ := exists_hasValue_overallIn h hover hfinite
    exact hw.isNaN
  · rw [overallIn, if_neg hfinite]
    exact passedIn_isNaN h

/-- Unless the sum overflows, the fraction is that of a finite number. -/
theorem atMost_fractionIn (h : p.Valid) (hover : ¬ p.OverflowsIn phase) :
    AtMost (p.fractionIn phase time) 0 := by
  rw [fractionIn]
  split
  · rename_i hfinite
    obtain ⟨w, hw⟩ := exists_hasValue_overallIn h hover hfinite
    exact atMost_fraction hw
  · obtain ⟨r, hr, -⟩ := h.start
    exact atMost_fraction hr

theorem atMost_simpleIn (h : p.Valid) (hover : ¬ p.OverflowsIn phase) :
    AtMost (p.simpleIn phase time) 1 := by
  have hbase : AtMost (p.baseIn phase time) 0 := by
    rw [baseIn]
    split
    · exact atMost_one 0
    · exact atMost_fractionIn h hover
  rw [simpleIn]
  split
  · exact (atMost_one 0).sub hbase (by norm_num)
  · exact hbase.mono (by norm_num)

/-- Unless the sum overflows, the progress is finite. -/
theorem exists_hasValue_progressIn (h : p.Valid) (hover : ¬ p.OverflowsIn phase) :
    ∃ v, HasValue (p.progressIn phase time) v :=
  Easing.eval_hasValue h.easing (atMost_simpleIn h hover) (p.flagIn phase time)

/-- Unless the sum overflows, there is a reading. -/
theorem readingIn_ok (h : p.Valid) (hover : ¬ p.OverflowsIn phase) :
    ∃ r, p.readingIn phase time = .ok r := by
  obtain ⟨v, hv⟩ : ∃ v, HasValue (p.progressIn phase time) v := exists_hasValue_progressIn h hover
  have hiteration : (!p.atEndIn phase time ||
      p.iterationOf phase (p.overallIn phase time) != .finite 0) = true := by
    cases hend : p.atEndIn phase time with
    | false => rfl
    | true => simpa using iterationOf_ne_zero_of_atEndIn h hend
  rw [readingIn, hiteration, hv.isFinite]
  exact ⟨_, rfl⟩

/-- A reading shows the last of its steps. -/
theorem eq_of_readingIn {r : Reading} (h : p.readingIn phase time = .ok r) :
    r = p.shownIn phase time := by
  rw [readingIn] at h
  obtain ⟨_, -, h⟩ := exists_ok_of_bind h
  obtain ⟨_, -, h⟩ := exists_ok_of_bind h
  exact (Except.ok.inj h).symm

/-- Where the sum overflows, no progress is left to show. -/
theorem readingIn_of_overflowsIn (hover : p.OverflowsIn phase) :
    p.readingIn phase time = .error .progressNotFinite := by
  obtain ⟨h0, hphase, hfinite, hsum⟩ := hover
  have hfraction : p.fractionIn phase time = notANumber := by
    rw [fractionIn, overallIn, passedIn_of_empty h0 hphase, if_pos hfinite, if_pos hfinite]
    exact fraction_of_not_finite hsum
  have hend : p.atEndIn phase time = false := by
    rw [atEndIn, hfraction, notANumber_beq]
    rfl
  have hsimple : p.simpleIn phase time = notANumber := by
    rw [simpleIn, baseIn, hend, hfraction]
    split
    · exact sub_notANumber 1
    · rfl
  have hprogress : isFinite (p.progressIn phase time) = false := by
    rw [progressIn, hsimple, Easing.eval_notANumber]
    exact not_isFinite_notANumber
  rw [readingIn, hend, hprogress]
  rfl

end TimingParams

end EffectTiming
