import Mathlib
import EffectTiming.Proofs.Easing.Same
import EffectTiming.Proofs.Timing.Defined

/-!
# Parameters that specify the same timing

Parameters that count as the same may differ in the sign of a zero and in the name of a jump at the
end. Neither can be seen in a sample: phases, times and iterations are equal, and the numbers are
alike. The steps of a reading are compared one after the other, from the iterations that have passed
to the directed progress.

They may also differ in the control points of a curve that goes by a name, and that is seen: the
eased progress agrees exactly where the two curves do.
-/

namespace EffectTiming

open Binary64

/-- Two samples show the same up to the directed progress, with numbers compared numerically. -/
structure ComputedTiming.AgreesUneased (c d : ComputedTiming) : Prop where
  phase : c.phase = d.phase
  duration : c.duration = d.duration
  fill : c.fill = d.fill
  activeDuration : c.activeDuration = d.activeDuration
  endTime : c.endTime = d.endTime
  iterations : (c.iterations == d.iterations) = true
  iterationStart : (c.iterationStart == d.iterationStart) = true
  activeTime : c.activeTime = d.activeTime
  iteration : c.iteration = d.iteration
  beforeFlag : c.beforeFlag = d.beforeFlag
  overall : (c.overall == d.overall) = true
  simple : (c.simple == d.simple) = true
  shown : c.progress.isSome = d.progress.isSome

/-- Two samples show the same, with numbers compared numerically. -/
structure ComputedTiming.Agrees (c d : ComputedTiming) : Prop extends c.AgreesUneased d where
  progress : (c.progress == d.progress) = true

namespace TimingParams

variable {p q r : TimingParams} {phase : Phase} {time : Span} {l : LocalTime} {o : SampleOptions}

/-! ### The relation behind the comparison -/

/-- What the comparison of valid parameters compares. -/
structure Same (p q : TimingParams) : Prop where
  delay : p.delay = q.delay
  endDelay : p.endDelay = q.endDelay
  duration : p.duration = q.duration
  iterations : Alike p.iterations q.iterations
  start : Alike p.iterationStart q.iterationStart
  direction : p.direction = q.direction
  fill : p.fill = q.fill
  easing : p.easing.same q.easing = true

theorem Same.refl (p : TimingParams) : p.Same p :=
  ⟨rfl, rfl, rfl, Alike.refl _, Alike.refl _, rfl, rfl, Easing.same_refl _⟩

theorem Same.symm (h : p.Same q) : q.Same p :=
  ⟨h.delay.symm, h.endDelay.symm, h.duration.symm, h.iterations.symm,
    h.start.symm, h.direction.symm, h.fill.symm, Easing.same_symm h.easing⟩

theorem Same.trans (h : p.Same q) (h' : q.Same r) : p.Same r :=
  ⟨h.delay.trans h'.delay, h.endDelay.trans h'.endDelay, h.duration.trans h'.duration,
    h.iterations.trans h'.iterations, h.start.trans h'.start, h.direction.trans h'.direction,
    h.fill.trans h'.fill, Easing.same_trans h.easing h'.easing⟩

theorem Valid.exists_iterations (h : p.Valid) :
    (∃ n, HasValue p.iterations n) ∨ IsInfinite p.iterations :=
  h.iterations.imp_left fun ⟨n, hn, _⟩ => ⟨n, hn⟩

theorem Valid.exists_start (h : p.Valid) : ∃ r, HasValue p.iterationStart r :=
  h.start.imp fun _ hr => hr.1

theorem Same.iterations_beq (h : p.Same q) (hp : p.Valid) : (p.iterations == q.iterations) = true :=
  h.iterations.beq hp.iterations_number

theorem Same.start_beq (h : p.Same q) (hp : p.Valid) :
    (p.iterationStart == q.iterationStart) = true := by
  obtain ⟨r, hr⟩ := hp.exists_start
  exact h.start.beq hr.isNaN

theorem same_iff (hp : p.Valid) (hq : q.Valid) : p.same q = true ↔ p.Same q := by
  simp only [same, Bool.and_eq_true, beq_iff_eq]
  constructor
  · rintro ⟨⟨⟨⟨⟨⟨⟨hdelay, hend⟩, hduration⟩, hiterations⟩, hstart⟩, hdirection⟩, hfill⟩, heasing⟩
    exact ⟨hdelay, hend, hduration,
      alike_of_beq hp.exists_iterations hq.exists_iterations hiterations,
      alike_of_beq (Or.inl hp.exists_start) (Or.inl hq.exists_start) hstart,
      hdirection, hfill, heasing⟩
  · intro h
    exact ⟨⟨⟨⟨⟨⟨⟨h.delay, h.endDelay⟩, h.duration⟩, h.iterations_beq hp⟩, h.start_beq hp⟩,
      h.direction⟩, h.fill⟩, h.easing⟩

/-! ### Times and phases -/

namespace Same

theorem iterationDuration (h : p.Same q) : p.iterationDuration = q.iterationDuration := by
  rw [TimingParams.iterationDuration, TimingParams.iterationDuration, h.duration]

theorem activeDuration (h : p.Same q) : p.activeDuration = q.activeDuration := by
  rw [TimingParams.activeDuration, TimingParams.activeDuration, h.duration, h.iterations.beq_zero]
  split
  · rfl
  · split
    · rfl
    · rename_i hzero
      rcases h.iterations with heq | ⟨-, hq⟩
      · rw [heq]
      · rw [(hq.beq_iff hasValue_zero).mpr rfl, Bool.or_true] at hzero
        exact absurd rfl hzero

theorem endTime (h : p.Same q) : p.endTime = q.endTime := by
  rw [TimingParams.endTime, TimingParams.endTime, h.delay, h.activeDuration, h.endDelay]

theorem beforeActive (h : p.Same q) : p.beforeActive = q.beforeActive := by
  rw [TimingParams.beforeActive, TimingParams.beforeActive, h.delay, h.endTime]

theorem activeAfter (h : p.Same q) : p.activeAfter = q.activeAfter := by
  rw [TimingParams.activeAfter, TimingParams.activeAfter, h.delay, h.activeDuration, h.endTime]

theorem phaseAt (h : p.Same q) : p.phaseAt o time = q.phaseAt o time := by
  rw [TimingParams.phaseAt, TimingParams.phaseAt, h.activeAfter, h.beforeActive]

theorem appliesIn (h : p.Same q) : p.appliesIn phase = q.appliesIn phase := by
  simp only [TimingParams.appliesIn, h.fill]

theorem activeTimeAt (h : p.Same q) : p.activeTimeAt phase time = q.activeTimeAt phase time := by
  simp only [TimingParams.activeTimeAt, h.delay, h.activeDuration]

/-! ### The steps of a reading -/

theorem passedIn (h : p.Same q) : Alike (p.passedIn phase time) (q.passedIn phase time) := by
  simp only [TimingParams.passedIn, iterationsAfter, h.activeDuration, h.activeTimeAt,
    h.iterationDuration]
  split
  · split
    · exact Alike.refl 0
    · exact h.iterations
  · exact Alike.refl _

/-- The iteration start is added to alike counts. -/
theorem add_start (h : p.Same q) (hp : p.Valid) {x y : Float} (hxy : Alike x y)
    (hx : isFinite x = true) :
    Alike (x + p.iterationStart) (y + q.iterationStart) := by
  obtain ⟨r, hr⟩ := hp.exists_start
  obtain ⟨v, hv⟩ := isFinite_iff.mp hx
  exact (hxy.add_right hr).trans (h.start.add_left (hxy.hasValue hv))

theorem overallIn (h : p.Same q) (hp : p.Valid) :
    Alike (p.overallIn phase time) (q.overallIn phase time) := by
  have hpassed : Alike (p.passedIn phase time) (q.passedIn phase time) := h.passedIn
  rw [TimingParams.overallIn, TimingParams.overallIn, ← hpassed.isFinite]
  split
  · rename_i hfinite
    exact h.add_start hp hpassed hfinite
  · exact hpassed

theorem fractionIn (h : p.Same q) (hp : p.Valid) :
    Alike (p.fractionIn phase time) (q.fractionIn phase time) :=
  (Alike.ite h.passedIn.isFinite (h.overallIn hp) h.start).fraction

theorem iterationOf (h : p.Same q) {x y : Float} (hxy : Alike x y) :
    p.iterationOf phase x = q.iterationOf phase y := by
  have hcount : decide (p.iterations ≥ iterationLimit) = decide (q.iterations ≥ iterationLimit) :=
    h.iterations.ge hasValue_iterationLimit
  have hreached : decide (x ≥ iterationLimit) = decide (y ≥ iterationLimit) :=
    hxy.ge hasValue_iterationLimit
  rw [TimingParams.iterationOf, TimingParams.iterationOf, hcount, hreached, hxy.truncate]

theorem atEndIn (h : p.Same q) (hp : p.Valid) : p.atEndIn phase time = q.atEndIn phase time := by
  simp only [TimingParams.atEndIn, (h.fractionIn hp).beq_zero, h.activeTimeAt,
    h.activeDuration, bne, h.iterations.beq_zero]

theorem baseIn (h : p.Same q) (hp : p.Valid) : Alike (p.baseIn phase time) (q.baseIn phase time) :=
  Alike.ite (h.atEndIn hp) (Alike.refl 1) (h.fractionIn hp)

theorem iterationIn (h : p.Same q) (hp : p.Valid) :
    p.iterationIn phase time = q.iterationIn phase time := by
  rw [TimingParams.iterationIn, TimingParams.iterationIn, h.atEndIn hp,
    h.iterationOf (h.overallIn hp)]

theorem runsBackwards (h : p.Same q) (hp : p.Valid) :
    p.runsBackwards (p.iterationIn phase time) = q.runsBackwards (q.iterationIn phase time) := by
  rw [h.iterationIn hp, TimingParams.runsBackwards, TimingParams.runsBackwards, h.direction]

theorem simpleIn (h : p.Same q) (hp : p.Valid) :
    Alike (p.simpleIn phase time) (q.simpleIn phase time) :=
  Alike.ite (h.runsBackwards hp) ((h.baseIn hp).sub_left hasValue_one) (h.baseIn hp)

theorem flagIn (h : p.Same q) (hp : p.Valid) : p.flagIn phase time = q.flagIn phase time := by
  rw [TimingParams.flagIn, TimingParams.flagIn, h.runsBackwards hp]

/-- The eased progress is the same where the easings have the same value over the directed
progress. -/
theorem progressIn_beq_iff (h : p.Same q) (hp : p.Valid) (hq : q.Valid)
    (hover : ¬ p.OverflowsIn phase) :
    (p.progressIn phase time == q.progressIn phase time) = true ↔
      (p.easing.eval (p.simpleIn phase time) (p.flagIn phase time) ==
        q.easing.eval (p.simpleIn phase time) (p.flagIn phase time)) = true := by
  have hsimple : AtMost (p.simpleIn phase time) 1 := atMost_simpleIn hp hover
  obtain ⟨v, hv⟩ : ∃ v, HasValue (p.progressIn phase time) v := exists_hasValue_progressIn hp hover
  obtain ⟨w, hw⟩ := Easing.eval_hasValue hq.easing hsimple (p.flagIn phase time)
  have hprogress : HasValue (q.progressIn phase time) w := by
    rw [TimingParams.progressIn, ← h.flagIn hp]
    exact (Easing.eval_alike hq.easing (h.simpleIn hp) _).hasValue hw
  rw [hv.beq_iff hprogress, ← hv.beq_iff hw, TimingParams.progressIn]

/-- The sign of a zero does not decide whether the sum overflows. -/
theorem overflowsIn (h : p.Same q) (hp : p.Valid) (hover : p.OverflowsIn phase) :
    q.OverflowsIn phase := by
  obtain ⟨h0, hphase, hfinite, hsum⟩ := hover
  refine ⟨h.activeDuration ▸ h0, hphase, h.iterations.isFinite ▸ hfinite, ?_⟩
  rw [← (h.add_start hp h.iterations hfinite).isFinite, hsum]

theorem overflowsAt (h : p.Same q) (hp : p.Valid) (hover : p.OverflowsAt l o) :
    q.OverflowsAt l o := by
  obtain ⟨time, rfl, happlies, hin⟩ := hover
  rw [h.phaseAt, h.appliesIn] at happlies
  rw [h.phaseAt] at hin
  exact ⟨time, rfl, happlies, h.overflowsIn hp hin⟩

end Same

/-! ### Samples -/

/-- What samples of two timings that count as the same have in common. -/
structure SampledAlike (p q : TimingParams) (c d : ComputedTiming) : Prop where
  uneased : c.AgreesUneased d
  agrees_iff : c.Agrees d ↔ ∀ x, c.simple = some x →
    (p.easing.eval x c.beforeFlag == q.easing.eval x c.beforeFlag) = true
  agrees : p.easing.SamePoints q.easing → c.Agrees d

namespace Same

theorem agrees_still (h : p.Same q) (hp : p.Valid) :
    (p.still phase none).Agrees (q.still phase none) where
  phase := rfl
  duration := h.iterationDuration
  fill := congrArg FillMode.resolve h.fill
  activeDuration := h.activeDuration
  endTime := h.endTime
  iterations := h.iterations_beq hp
  iterationStart := h.start_beq hp
  activeTime := rfl
  iteration := rfl
  beforeFlag := rfl
  overall := rfl
  simple := rfl
  shown := rfl
  progress := rfl

theorem sampledAlike_still (h : p.Same q) (hp : p.Valid) :
    p.SampledAlike q (p.still phase none) (q.still phase none) := by
  have hagrees : (p.still phase none).Agrees (q.still phase none) := h.agrees_still hp
  refine ⟨hagrees.toAgreesUneased, iff_of_true hagrees ?_, fun _ => hagrees⟩
  intro x hx
  cases hx

/-- Samples that agree up to the directed progress agree if their eased progress does. -/
theorem agrees_iff_progress {r s : Reading}
    (h : (p.still phase (some r)).AgreesUneased (q.still phase (some s))) :
    (p.still phase (some r)).Agrees (q.still phase (some s)) ↔ (r.progress == s.progress) = true :=
  ⟨fun hagrees => hagrees.progress, fun hprogress => { h with progress := hprogress }⟩

theorem isSome_progress_still (p : TimingParams) (phase : Phase) (r : Reading) :
    (p.still phase (some r)).progress.isSome = true := rfl

theorem forall_simple_iff {r : Reading} {P : Float → Prop} :
    (∀ x, (p.still phase (some r)).simple = some x → P x) ↔ P r.simple := by
  refine ⟨fun h => h _ rfl, ?_⟩
  rintro h _ ⟨⟩
  exact h

theorem sampledAlike_shown (h : p.Same q) (hp : p.Valid) (hq : q.Valid)
    (hover : ¬ p.OverflowsIn phase) :
    p.SampledAlike q (p.still phase (some (p.shownIn phase time)))
      (q.still phase (some (q.shownIn phase time))) := by
  obtain ⟨v, hv, -⟩ : AtMost (p.simpleIn phase time) 1 := atMost_simpleIn hp hover
  obtain ⟨w, hw⟩ : ∃ w, HasValue (p.progressIn phase time) w := exists_hasValue_progressIn hp hover
  have huneased : (p.still phase (some (p.shownIn phase time))).AgreesUneased
      (q.still phase (some (q.shownIn phase time))) :=
    { (h.agrees_still hp : (p.still phase none).Agrees _) with
      activeTime := h.activeTimeAt
      iteration := h.iterationIn hp
      beforeFlag := h.flagIn hp
      overall := (h.overallIn hp).beq (overallIn_isNaN hp hover)
      simple := (h.simpleIn hp).beq hv.isNaN
      shown := by rw [isSome_progress_still, isSome_progress_still] }
  have hagrees := (agrees_iff_progress huneased).trans (h.progressIn_beq_iff hp hq hover)
  refine ⟨huneased, ?_, fun hpoints => hagrees.mpr ?_⟩
  · rw [hagrees, forall_simple_iff]
    rfl
  · rw [← Easing.eval_eq_of_same hp.easing hq.easing h.easing hpoints]
    exact beq_self hw.isNaN

/-- Where the sums do not overflow, both samples are defined and have in common what they can. -/
theorem compute_alike (h : p.Same q) (hp : p.Valid) (hq : q.Valid) (hover : ¬ p.OverflowsAt l o) :
    ∃ c d, p.compute l o = .ok c ∧ q.compute l o = .ok d ∧ p.SampledAlike q c d := by
  rw [compute_of_valid hp, compute_of_valid hq]
  cases l with
  | unresolved => exact ⟨_, _, rfl, rfl, h.sampledAlike_still hp⟩
  | resolved time =>
    simp only [sampleBy, ← h.phaseAt, ← h.appliesIn]
    by_cases happlies : p.appliesIn (p.phaseAt o time) = true
    · have hin : ¬ p.OverflowsIn (p.phaseAt o time) := fun hin => hover ⟨time, rfl, happlies, hin⟩
      obtain ⟨r, hr⟩ : ∃ r, p.readingIn (p.phaseAt o time) time = .ok r := readingIn_ok hp hin
      obtain ⟨s, hs⟩ : ∃ s, q.readingIn (p.phaseAt o time) time = .ok s :=
        readingIn_ok hq fun hin' => hin (h.symm.overflowsIn hq hin')
      obtain rfl := eq_of_readingIn hr
      obtain rfl := eq_of_readingIn hs
      simp only [happlies, if_true, hr, hs]
      exact ⟨_, _, rfl, rfl, h.sampledAlike_shown hp hq hin⟩
    · simp only [happlies]
      exact ⟨_, _, rfl, rfl, h.sampledAlike_still hp⟩

end Same

/-- The comparison of checked parameters is an equivalence. At every local time and with all
options, samples of parameters that count as the same are both defined and agree up to the directed
progress, or the sum of the iteration count and the iteration start overflows for both. The eased
progress agrees exactly where the easings have the same value, which is everywhere if curves under
one name have the same control points, and those that belong to the name do. -/
theorem same_interchangeable {oa ob oc : TimingOptions} {a b c : TimingParams}
    (ha : ofOptions oa = .ok a) (hb : ofOptions ob = .ok b) (hc : ofOptions oc = .ok c) :
    a.same a = true ∧ (a.same b = true → b.same a = true) ∧
      (a.same b = true → b.same c = true → a.same c = true) ∧
      (a.same b = true →
        (a.easing.Genuine → b.easing.Genuine → a.easing.SamePoints b.easing) ∧
        ∀ l o,
          (∃ x y, a.compute l o = .ok x ∧ b.compute l o = .ok y ∧ a.SampledAlike b x y) ∨
            (a.OverflowsAt l o ∧ b.OverflowsAt l o ∧ a.compute l o = .error .progressNotFinite ∧
              b.compute l o = .error .progressNotFinite)) := by
  have hva := valid_of_ofOptions ha
  have hvb := valid_of_ofOptions hb
  have hvc := valid_of_ofOptions hc
  rw [same_iff hva hva, same_iff hva hvb, same_iff hvb hva, same_iff hvb hvc, same_iff hva hvc]
  refine ⟨Same.refl a, Same.symm, Same.trans, fun h =>
    ⟨fun ha hb => ha.samePoints hb h.easing, fun l o => ?_⟩⟩
  by_cases hover : a.OverflowsAt l o
  · have hover' := h.overflowsAt hva hover
    exact Or.inr ⟨hover, hover', compute_of_overflowsAt hva hover,
      compute_of_overflowsAt hvb hover'⟩
  · exact Or.inl (h.compute_alike hva hvb hover)

/-- Four steps with the jumps at the end, played backwards from the given iteration start. -/
def fourStepsBack (start : Float) (position : StepPosition) : TimingOptions :=
  { duration := some { ns := 8 }
    iterationStart := start
    direction := .known .reverse
    easing := .steps { count := 4, position := .known position } }

/-- A negative zero and the short word for the position count as the same, and are sampled the
same. -/
theorem same_interchangeable_fourStepsBack :
    ∃ a b, ofOptions (fourStepsBack 0 .jumpEnd) = .ok a ∧
      ofOptions (fourStepsBack (-0) .finish) = .ok b ∧
      a.same b = true ∧ a.iterationStart ≠ b.iterationStart ∧
      ∃ x y, a.compute (.resolved { ns := 3 }) {} = .ok x ∧
        b.compute (.resolved { ns := 3 }) {} = .ok y ∧ x.Agrees y := by
  have hsame : ∃ a b, ofOptions (fourStepsBack 0 .jumpEnd) = .ok a ∧
      ofOptions (fourStepsBack (-0) .finish) = .ok b ∧ a.same b = true ∧
      a.iterationStart ≠ b.iterationStart ∧ a.activeDuration ≠ .zero ∧
      a.easing.Genuine ∧ b.easing.Genuine :=
    ⟨_, _, rfl, rfl, by decide +kernel, by decide +kernel, by decide +kernel, trivial, trivial⟩
  obtain ⟨a, b, ha, hb, hab, hne, hactive, hgenuine⟩ := hsame
  obtain ⟨hpoints, hsampled⟩ := (same_interchangeable ha hb hb).2.2.2 hab
  rcases hsampled (.resolved { ns := 3 }) {} with ⟨x, y, hx, hy, halike⟩ | ⟨hover, -⟩
  · exact ⟨a, b, ha, hb, hab, hne, x, y, hx, hy, halike.agrees (hpoints hgenuine.1 hgenuine.2)⟩
  · obtain ⟨_, -, -, h0, -⟩ := hover
    exact absurd h0 hactive

/-- A second on a curve that goes by the name `ease`. -/
def easeOver (curve : Bezier) : TimingOptions :=
  { duration := some (.clamp 1000000000), easing := .named .ease curve }

/-- A copy of the curve with one control point raised keeps the name, and so it counts as the same.
Half a second into it, its progress is past one already. -/
theorem same_easeRaised :
    ∃ a b, ofOptions (easeOver NamedCurve.ease.curve) = .ok a ∧
      ofOptions (easeOver { NamedCurve.ease.curve with y2 := 3 }) = .ok b ∧ a.same b = true ∧
      ∃ x y, a.compute (.resolved (.clamp 500000000)) {} = .ok x ∧
        b.compute (.resolved (.clamp 500000000)) {} = .ok y ∧
        x.progress.any (· < 1) = true ∧ y.progress.any (1 < ·) = true := by
  have hsamples : ∃ a b, ofOptions (easeOver NamedCurve.ease.curve) = .ok a ∧
      ofOptions (easeOver { NamedCurve.ease.curve with y2 := 3 }) = .ok b ∧ a.same b = true ∧
      (a.compute (.resolved (.clamp 500000000)) {}).toOption.map
        (·.progress.any (· < 1)) = some true ∧
      (b.compute (.resolved (.clamp 500000000)) {}).toOption.map
        (·.progress.any (1 < ·)) = some true :=
    ⟨_, _, rfl, rfl, by decide +kernel, by decide +kernel, by decide +kernel⟩
  obtain ⟨a, b, ha, hb, hsame, hbelow, habove⟩ := hsamples
  obtain ⟨x, hx, hbelow⟩ := exists_ok_of_toOption hbelow
  obtain ⟨y, hy, habove⟩ := exists_ok_of_toOption habove
  exact ⟨a, b, ha, hb, hsame, x, y, hx, hy, hbelow, habove⟩

end TimingParams

end EffectTiming
