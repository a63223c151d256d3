import Mathlib
import EffectTiming.Proofs.Timing.Composition

/-!
# Changes on top of changes

A merge lays a change over parameters and checks the result. The check keeps every field as it was
given, so the options of the merged parameters are the changed options (`merge_eq_ok_iff`), and a
second change finds there just what the first one left. Two merges in a row are then one merge with
both changes, the later one on top, whether or not the result passes the check. That the empty
change does nothing, that a change does nothing the second time, and that changes of different
fields may trade places all follow from this law.
-/

namespace EffectTiming

namespace TimingUpdate

variable {u v : TimingUpdate}

/-- Both changes as one. A field that both set is that of the second. -/
def followedBy (u v : TimingUpdate) : TimingUpdate where
  delay := v.delay.or u.delay
  endDelay := v.endDelay.or u.endDelay
  duration := v.duration.or u.duration
  iterations := v.iterations.or u.iterations
  iterationStart := v.iterationStart.or u.iterationStart
  direction := v.direction.or u.direction
  fill := v.fill.or u.fill
  easing := v.easing.or u.easing

/-- No field is set by both changes. -/
structure Apart (u v : TimingUpdate) : Prop where
  delay : u.delay = none ∨ v.delay = none
  endDelay : u.endDelay = none ∨ v.endDelay = none
  duration : u.duration = none ∨ v.duration = none
  iterations : u.iterations = none ∨ v.iterations = none
  iterationStart : u.iterationStart = none ∨ v.iterationStart = none
  direction : u.direction = none ∨ v.direction = none
  fill : u.fill = none ∨ v.fill = none
  easing : u.easing = none ∨ v.easing = none

theorem apply_followedBy (u v : TimingUpdate) (o : TimingOptions) :
    (u.followedBy v).apply o = v.apply (u.apply o) := by
  simp only [apply, followedBy, Option.getD_or]

/-- A change on top of itself is the change. -/
theorem apply_apply (u : TimingUpdate) (o : TimingOptions) : u.apply (u.apply o) = u.apply o := by
  have hfield {α : Type} (a : Option α) (x : α) : a.getD (a.getD x) = a.getD x := by
    cases a <;> rfl
  simp only [apply, hfield]

theorem Apart.apply_comm (h : u.Apart v) (o : TimingOptions) :
    v.apply (u.apply o) = u.apply (v.apply o) := by
  -- of the two changes of a field at most one is there, and the other passes it on
  have hfield {α : Type} {a b : Option α} (hab : a = none ∨ b = none) (x : α) :
      b.getD (a.getD x) = a.getD (b.getD x) := by
    rcases hab with rfl | rfl <;> rfl
  simp only [apply, hfield h.delay, hfield h.endDelay, hfield h.duration, hfield h.iterations,
    hfield h.iterationStart, hfield h.direction, hfield h.fill, hfield h.easing]

end TimingUpdate

namespace TimingParams

open Binary64

variable {p q s : TimingParams} {o : TimingOptions} {u v : TimingUpdate}

/-! ### What a check lets through -/

theorem options_of_ofOptions (h : ofOptions o = .ok p) : p.options = o := by
  rw [ofOptions, mapError_eq_ok_iff] at h
  obtain ⟨_, -, h⟩ := exists_ok_of_bind h
  obtain ⟨_, -, h⟩ := exists_ok_of_bind h
  obtain ⟨_, -, h⟩ := exists_ok_of_bind h
  split at h
  · cases h
  · cases h
  · rename_i hdirection hfill
    split at h
    · cases h
    · cases h
      simp only [options, ← hdirection, ← hfill]

/-- The check lets options through as they are, if they are those of valid parameters. -/
theorem ofOptions_eq_ok_iff : ofOptions o = .ok p ↔ p.Valid ∧ p.options = o := by
  constructor
  · intro h
    exact ⟨valid_of_ofOptions h, options_of_ofOptions h⟩
  · rintro ⟨hvalid, rfl⟩
    exact hvalid.ofOptions_options

theorem options_inj : p.options = q.options ↔ p = q := by
  refine ⟨fun h => ?_, congrArg options⟩
  cases p
  cases q
  simpa [options] using h

/-- The check lets the options of parameters through exactly if they are valid. -/
theorem exists_ofOptions_options_iff : (∃ q, ofOptions p.options = .ok q) ↔ p.Valid := by
  simp only [ofOptions_eq_ok_iff, options_inj]
  exact exists_eq_right

theorem merge_eq_ok_iff : p.merge u = .ok q ↔ q.Valid ∧ q.options = u.apply p.options :=
  ofOptions_eq_ok_iff

/-- A check that fails says which field it is and why. -/
theorem ofOptions_cases (o : TimingOptions) :
    (∃ p, ofOptions o = .ok p) ∨ ∃ f : TimingFault, ofOptions o = .error f.failure := by
  rw [ofOptions]
  cases o.validate with
  | ok p => exact Or.inl ⟨p, rfl⟩
  | error f => exact Or.inr ⟨f, rfl⟩

/-! ### Two merges -/

/-- Two merges in a row are one merge with both changes. -/
theorem merge_merge (h : p.merge u = .ok q) : q.merge v = p.merge (u.followedBy v) := by
  obtain ⟨-, hoptions⟩ := merge_eq_ok_iff.mp h
  rw [merge, merge, hoptions, TimingUpdate.apply_followedBy]

/-- What holds of a field, and of the field that a change makes of another one, holds of the changed
field. -/
theorem holds_getD {α : Type} {P : α → Prop} {a : Option α} {x y : α} (hx : P x)
    (hy : P (a.getD y)) :
    P (a.getD x) := by
  cases a with
  | none => exact hx
  | some _ => exact hy

/-- A change that some parameters take can be laid over any valid ones: the check looks at each
field by itself. -/
theorem exists_merge (hq : q.Valid) (h : p.merge v = .ok s) : ∃ r, q.merge v = .ok r := by
  obtain ⟨hs, hoptions⟩ := merge_eq_ok_iff.mp h
  simp only [options, TimingUpdate.apply, TimingOptions.mk.injEq] at hoptions
  obtain ⟨-, -, hduration, hiterations, hstart, hdirection, hfill, heasing⟩ := hoptions
  obtain ⟨direction, hdirection'⟩ : ∃ k, v.direction.getD (.known q.direction) = .known k :=
    holds_getD (P := fun c => ∃ k, c = Coded.known k) ⟨_, rfl⟩ ⟨_, hdirection.symm⟩
  obtain ⟨fill, hfill'⟩ : ∃ k, v.fill.getD (.known q.fill) = .known k :=
    holds_getD (P := fun c => ∃ k, c = Coded.known k) ⟨_, rfl⟩ ⟨_, hfill.symm⟩
  let r : TimingParams :=
    { delay := v.delay.getD q.delay, endDelay := v.endDelay.getD q.endDelay
      duration := v.duration.getD q.duration, iterations := v.iterations.getD q.iterations
      iterationStart := v.iterationStart.getD q.iterationStart
      direction, fill, easing := v.easing.getD q.easing }
  have hvalid : r.Valid := by
    constructor
    · have hlength := hs.duration
      rw [iterationDuration, hduration] at hlength
      exact holds_getD (P := fun d : Option Span => 0 ≤ (d.getD .zero).ns) hq.duration hlength
    · exact holds_getD (P := fun x => (∃ n, HasValue x n ∧ 0 ≤ n) ∨ IsInfinite x) hq.iterations
        (hiterations ▸ hs.iterations)
    · exact holds_getD (P := fun x => ∃ n, HasValue x n ∧ 0 ≤ n) hq.start (hstart ▸ hs.start)
    · exact holds_getD (P := fun e : Easing => e.fault? = none) hq.easing (heasing ▸ hs.easing)
  refine ⟨r, merge_eq_ok_iff.mpr ⟨hvalid, ?_⟩⟩
  simp only [r, options, TimingUpdate.apply, hdirection', hfill']

/-- Merging composes. Merging a second change gives the parameters, or the fault with its field and
wording, that merging both changes at once gives. So the empty change leaves valid parameters as
they are, a change makes no difference the second time, and changes of different fields that can
each be merged can be merged in either order, with one result. -/
theorem merge_followedBy (hp : p.Valid) :
    (∀ u v q, p.merge u = .ok q →
      (∃ r, q.merge v = .ok r ∧ p.merge (u.followedBy v) = .ok r) ∨
        ∃ f : TimingFault, q.merge v = .error f.failure ∧
          p.merge (u.followedBy v) = .error f.failure) ∧
      p.merge {} = .ok p ∧
      (∀ u q, p.merge u = .ok q → q.merge u = .ok q) ∧
      ∀ u v q s, u.Apart v → p.merge u = .ok q → p.merge v = .ok s →
        ∃ r, q.merge v = .ok r ∧ s.merge u = .ok r := by
  refine ⟨fun u v q hq => ?_, ?_, fun u q hq => ?_, fun u v q s hapart hq hs => ?_⟩
  · have hboth : q.merge v = p.merge (u.followedBy v) := merge_merge hq
    rcases ofOptions_cases (v.apply q.options) with ⟨r, hr⟩ | ⟨f, hf⟩
    · exact Or.inl ⟨r, hr, hboth ▸ hr⟩
    · exact Or.inr ⟨f, hf, hboth ▸ hf⟩
  · exact merge_eq_ok_iff.mpr ⟨hp, rfl⟩
  · obtain ⟨hvalid, hoptions⟩ := merge_eq_ok_iff.mp hq
    rw [merge_eq_ok_iff, hoptions, TimingUpdate.apply_apply]
    exact ⟨hvalid, rfl⟩
  · obtain ⟨hvalid, hoptions⟩ := merge_eq_ok_iff.mp hq
    obtain ⟨-, hoptions'⟩ := merge_eq_ok_iff.mp hs
    obtain ⟨r, hr⟩ := exists_merge hvalid hs
    refine ⟨r, hr, ?_⟩
    rw [merge_eq_ok_iff] at hr ⊢
    rwa [hoptions', ← hapart.apply_comm, ← hoptions]

/-- Lets the timeline decide how long an iteration is, and shows progress as it is. -/
def evenShare : TimingUpdate := { duration := some none, easing := some .linear }

/-- Two faults, of which the negative duration is found first. -/
def negativeLength : TimingUpdate :=
  { duration := some (some (.clamp (-1))), iterations := some (-1) }

/-- A change that goes through and one that does not: as one change they fail the same way. -/
theorem merge_followedBy_negativeLength :
    ∃ p q, ofOptions delayedRepeat = .ok p ∧ p.merge evenShare = .ok q ∧
      q.merge negativeLength = .error TimingFault.negativeDuration.failure ∧
      p.merge (evenShare.followedBy negativeLength) =
      .error TimingFault.negativeDuration.failure := by
  have hchain : ∃ p q, ofOptions delayedRepeat = .ok p ∧ p.merge evenShare = .ok q ∧
      q.merge negativeLength = .error TimingFault.negativeDuration.failure := ⟨_, _, rfl, rfl, rfl⟩
  obtain ⟨p, q, hp, hq, hfault⟩ := hchain
  refine ⟨p, q, hp, hq, hfault, ?_⟩
  rcases (merge_followedBy (valid_of_ofOptions hp)).1 evenShare negativeLength q hq with
    ⟨r, hr, -⟩ | ⟨f, hf, hboth⟩
  · rw [hfault] at hr
    cases hr
  · rw [hboth, ← hf, hfault]

end TimingParams

end EffectTiming
