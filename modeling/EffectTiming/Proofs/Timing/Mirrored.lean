import Mathlib
import EffectTiming.Proofs.Timing.InEffect

/-!
# Opposite directions

Every direction has an opposite, which runs each iteration the other way round. Which way an
iteration runs is decided last: the phase, the iteration and the progress within it are known by
then, and the direction only turns that progress round and moves the flag for jumps. So the samples
of opposite directions differ in nothing else.
-/

namespace EffectTiming

/-- The direction in which every iteration runs the other way round. -/
def Direction.opposite : Direction → Direction
  | .normal => .reverse
  | .reverse => .normal
  | .alternate => .alternateReverse
  | .alternateReverse => .alternate

/-- The progress within an iteration as it is shown, forwards or backwards. -/
def directed (backwards : Bool) (base : Float) : Float := if backwards then 1 - base else base

/-- The two samples differ only in the way in which their iteration runs: backwards or not in `c`,
and the other way round in `d`. -/
structure ComputedTiming.Mirrors (c d : ComputedTiming) (backwards : Bool) : Prop where
  phase : d.phase = c.phase
  duration : d.duration = c.duration
  fill : d.fill = c.fill
  activeDuration : d.activeDuration = c.activeDuration
  endTime : d.endTime = c.endTime
  iterations : d.iterations = c.iterations
  iterationStart : d.iterationStart = c.iterationStart
  inEffect : d.inEffect = c.inEffect
  activeTime : d.activeTime = c.activeTime
  overall : d.overall = c.overall
  iteration : d.iteration = c.iteration
  /-- One base progress lies behind both samples. -/
  simple : c.inEffect = true → ∃ base,
    c.simple = some (directed backwards base) ∧ d.simple = some (directed (!backwards) base)
  flag_active : c.phase = .active → c.beforeFlag = false ∧ d.beforeFlag = false
  /-- Outside the active interval the flag is set in exactly one of the samples. -/
  flag_outside : c.inEffect = true → c.phase = .before ∨ c.phase = .after →
    d.beforeFlag = !c.beforeFlag

namespace TimingParams

variable {p : TimingParams} {phase : Phase} {time : Span} {l : LocalTime} {o : SampleOptions}

/-- The same timing in the opposite direction. -/
def mirrored (p : TimingParams) : TimingParams := { p with direction := p.direction.opposite }

theorem Valid.mirrored (h : p.Valid) : p.mirrored.Valid :=
  ⟨h.duration, h.iterations, h.start, h.easing⟩

/-! ### The steps of a reading -/

theorem mirrored_runsBackwards (i : Iteration) :
    p.mirrored.runsBackwards i = !p.runsBackwards i := by
  simp only [runsBackwards, mirrored]
  cases p.direction with
  | normal | reverse | alternate => rfl
  | alternateReverse => simp [Direction.opposite]

theorem mirrored_iterationIn : p.mirrored.iterationIn phase time = p.iterationIn phase time := rfl

theorem simpleIn_eq : p.simpleIn phase time =
    directed (p.runsBackwards (p.iterationIn phase time)) (p.baseIn phase time) := rfl

theorem mirrored_simpleIn : p.mirrored.simpleIn phase time =
    directed (!p.runsBackwards (p.iterationIn phase time)) (p.baseIn phase time) := by
  rw [simpleIn_eq, mirrored_iterationIn, mirrored_runsBackwards]
  rfl

theorem flagIn_active (p : TimingParams) (time : Span) : p.flagIn .active time = false := rfl

/-- Turning the iteration round moves the flag. -/
theorem mirrored_flagIn (h : phase = .before ∨ phase = .after) :
    p.mirrored.flagIn phase time = !p.flagIn phase time := by
  rw [flagIn, flagIn, mirrored_iterationIn, mirrored_runsBackwards]
  generalize p.runsBackwards (p.iterationIn phase time) = backwards
  rcases h with rfl | rfl <;> cases backwards <;> rfl

/-! ### Samples -/

theorem mirrors_still (p : TimingParams) (phase : Phase) (backwards : Bool) :
    (p.still phase none).Mirrors (p.mirrored.still phase none) backwards where
  phase := rfl
  duration := rfl
  fill := rfl
  activeDuration := rfl
  endTime := rfl
  iterations := rfl
  iterationStart := rfl
  inEffect := rfl
  activeTime := rfl
  overall := rfl
  iteration := rfl
  simple := nofun
  flag_active := fun _ => ⟨rfl, rfl⟩
  flag_outside := nofun

theorem mirrors_shown (p : TimingParams) (phase : Phase) (time : Span) :
    (p.still phase (some (p.shownIn phase time))).Mirrors
      (p.mirrored.still phase (some (p.mirrored.shownIn phase time)))
      (p.runsBackwards (p.iterationIn phase time)) :=
  { p.mirrors_still phase (p.runsBackwards (p.iterationIn phase time)) with
    inEffect := rfl
    activeTime := rfl
    overall := rfl
    iteration := rfl
    simple := fun _ =>
      ⟨p.baseIn phase time, congrArg some simpleIn_eq, congrArg some mirrored_simpleIn⟩
    flag_active := by
      rintro (rfl : phase = .active)
      exact ⟨p.flagIn_active time, p.mirrored.flagIn_active time⟩
    flag_outside := fun _ hphase => mirrored_flagIn hphase }

/-- The direction has no say in whether there is a sample. -/
theorem mirrored_overflowsAt : p.mirrored.OverflowsAt l o ↔ p.OverflowsAt l o := Iff.rfl

/-- The samples of opposite directions are taken at the same point of the effect and mirror each
other: unless the sum of the iteration count and the iteration start overflows for both, both are
defined, and the one whose iteration runs forwards shows the base progress, the other what is left
of it. -/
theorem compute_mirrored (h : p.Valid) (l : LocalTime) (o : SampleOptions) :
    (∃ c d, p.compute l o = .ok c ∧ p.mirrored.compute l o = .ok d ∧
      c.Mirrors d (p.runsBackwards c.iteration)) ∨
    (p.OverflowsAt l o ∧ p.compute l o = .error .progressNotFinite ∧
      p.mirrored.compute l o = .error .progressNotFinite) := by
  by_cases hover : p.OverflowsAt l o
  · have hover' : p.mirrored.OverflowsAt l o := mirrored_overflowsAt.mpr hover
    exact Or.inr ⟨hover, compute_of_overflowsAt h hover, compute_of_overflowsAt h.mirrored hover'⟩
  · obtain ⟨c, hc⟩ := compute_ok h hover
    obtain ⟨d, hd⟩ := compute_ok h.mirrored (mt mirrored_overflowsAt.mp hover)
    refine Or.inl ⟨c, d, hc, hd, ?_⟩
    -- phase and fill mode are the same for both, so they fall under the same case
    cases sampled_of_compute hc with
    | idle =>
      cases sampled_of_compute hd
      exact p.mirrors_still .idle _
    | unfilled time hnot =>
      cases sampled_of_compute hd with
      | unfilled => exact p.mirrors_still _ _
      | shown _ happlies => exact absurd (happlies.symm.trans hnot) (by decide)
    | shown time happlies =>
      cases sampled_of_compute hd with
      | unfilled _ hnot => exact absurd (happlies.symm.trans hnot) (by decide)
      | shown => exact p.mirrors_shown _ time

/-- Three iterations to and fro, of which the last value is kept. -/
def toAndFro : TimingOptions :=
  { duration := some (.clamp 8), iterations := 3, direction := .known .alternate
    fill := .known .forwards }

/-- After the end the third iteration counts, which runs forwards; in the opposite direction it runs
backwards, and there the flag is set. -/
theorem compute_mirrored_toAndFro :
    ∃ p c d, ofOptions toAndFro = .ok p ∧ p.mirrored.direction = .alternateReverse ∧
      p.compute (.resolved { ns := 30 }) {} = .ok c ∧
      p.mirrored.compute (.resolved { ns := 30 }) {} = .ok d ∧
      c.phase = .after ∧ c.Mirrors d (p.runsBackwards c.iteration) ∧
      d.beforeFlag = !c.beforeFlag := by
  obtain ⟨p, hp, hdirection, hactive, hafter, happlies⟩ : ∃ p, ofOptions toAndFro = .ok p ∧
      p.mirrored.direction = .alternateReverse ∧ p.activeDuration ≠ .zero ∧
      p.phaseAt {} { ns := 30 } = .after ∧ p.fill = .forwards :=
    ⟨_, rfl, rfl, by decide +kernel, by decide +kernel, rfl⟩
  have hvalid := valid_of_ofOptions hp
  rcases compute_mirrored hvalid (.resolved { ns := 30 }) {}
    with ⟨c, d, hc, hd, hmirrors⟩ | ⟨hover, -⟩
  · have hphase : c.phase = .after := (phase_of_compute hvalid hc).trans hafter
    have hshown : c.inEffect = true := by
      rw [(sampled_of_compute hc).inEffect_iff, hphase, happlies]
      decide
    exact ⟨p, c, d, hp, hdirection, hc, hd, hphase, hmirrors,
      hmirrors.flag_outside hshown (Or.inr hphase)⟩
  · obtain ⟨_, -, -, h0, -⟩ := hover
    exact absurd h0 hactive

end TimingParams

end EffectTiming
