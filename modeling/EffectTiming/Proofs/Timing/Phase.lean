import Mathlib
import EffectTiming.Proofs.Timing.Defined

/-!
# The order of phases

The phases of an effect follow each other in time. A rate, an endpoint behaviour or a boundary of
the timeline can move a sample from one phase to a neighbouring one, but only exactly on a boundary
of the active interval; so two samples at different times stay in order even if they are taken under
different options.
-/

namespace EffectTiming

/-- The place of a phase in the course of an effect. Without a local time there is no such place. -/
def Phase.rank : Phase → ℕ
  | .idle => 0
  | .before => 1
  | .active => 2
  | .after => 3

/-- Both phases belong to the course of an effect, and `a` does not come later in it than `b`. -/
def Phase.NotLater (a b : Phase) : Prop := a ≠ .idle ∧ b ≠ .idle ∧ a.rank ≤ b.rank

/-- What is not over later on was not over before, and is active there if it was active before. -/
theorem Phase.NotLater.of_not_over {a b : Phase} (h : a.NotLater b)
    (hb : b = .before ∨ b = .active) :
    a = .before ∨ a = .active ∧ b = .active := by
  obtain ⟨hidle, -, hrank⟩ := h
  cases a with
  | idle => exact absurd rfl hidle
  | before => exact Or.inl rfl
  | active | after => rcases hb with rfl | rfl <;> revert hrank <;> decide

theorem Phase.NotLater.of_begun {a b : Phase} (h : a.NotLater b) (ha : a = .active ∨ a = .after) :
    b = .after ∨ a = .active ∧ b = .active := by
  obtain ⟨-, hidle, hrank⟩ := h
  cases b with
  | idle => exact absurd rfl hidle
  | after => exact Or.inl rfl
  | before | active => rcases ha with rfl | rfl <;> revert hrank <;> decide

theorem Phase.rank_injective : Function.Injective Phase.rank := by
  intro a b h
  cases a <;> cases b <;> first | rfl | cases h

/-- Phases in order, of which no two neighbours are equal, are some of the three in the course of an
effect. -/
theorem Phase.sublist_course {ps : List Phase} (hcourse : ∀ q ∈ ps, q ≠ .idle)
    (hordered : ps.Pairwise Phase.NotLater) (hdistinct : ps.IsChain (· ≠ ·)) :
    ps.Sublist [.before, .active, .after] := by
  have hsteps : (ps.map Phase.rank).IsChain (· < ·) := by
    rw [List.isChain_map]
    rw [List.isChain_iff_getElem] at hdistinct ⊢
    intro i hi
    have hle := (List.pairwise_iff_getElem.mp hordered i (i + 1) (by omega) hi (by omega)).2.2
    exact lt_of_le_of_ne hle (Phase.rank_injective.ne (hdistinct i hi))
  have hrising : ps.Pairwise fun a b => a.rank < b.rank := List.pairwise_map.mp hsteps.pairwise
  have hnodup : ps.Nodup := hrising.imp fun hlt heq => hlt.ne (congrArg Phase.rank heq)
  have hsubset : ps ⊆ [.before, .active, .after] := by
    intro q hq
    cases q with
    | idle => exact absurd rfl (hcourse _ hq)
    | before | active | after => simp
  have : Std.Antisymm fun a b : Phase => a.rank < b.rank :=
    ⟨fun a b hab hba => absurd hba hab.asymm⟩
  exact List.sublist_of_subperm_of_pairwise
    (List.subperm_of_subset hnodup hsubset) hrising (by decide)

namespace TimingParams

open Binary64

variable {p : TimingParams} {o : SampleOptions} {time : Span}

/-! ### Where a phase can lie -/

theorem phaseAt_of_activeAfter_lt (h : p.activeAfter < time) : p.phaseAt o time = .after := by
  rw [phaseAt, if_pos]
  simp [h]

theorem activeAfter_le_of_phaseAt (h : p.phaseAt o time = .after) : p.activeAfter ≤ time := by
  by_contra hle
  have hlt : time.ns < p.activeAfter.ns := not_le.mp hle
  have hne : time ≠ p.activeAfter := by
    rintro rfl
    omega
  have hnot : ¬ p.activeAfter < time := not_lt.mpr hlt.le
  rw [phaseAt, if_neg (by simp [hnot, hne])] at h
  split at h <;> cases h

theorem phaseAt_of_lt_beforeActive (h : time < p.beforeActive)
    (hafter : p.phaseAt o time ≠ .after) :
    p.phaseAt o time = .before := by
  rw [phaseAt] at hafter ⊢
  split at hafter
  · exact absurd rfl hafter
  · rename_i hnot
    rw [if_neg hnot, if_pos]
    simp [h]

theorem le_beforeActive_of_phaseAt (h : p.phaseAt o time = .before) : time ≤ p.beforeActive := by
  by_contra hle
  have hlt : p.beforeActive.ns < time.ns := not_le.mp hle
  have hne : time ≠ p.beforeActive := by
    rintro rfl
    omega
  have hnot : ¬ time < p.beforeActive := not_lt.mpr hlt.le
  rw [phaseAt] at h
  split at h
  · cases h
  · rw [if_neg (by simp [hnot, hne])] at h
    cases h

/-! ### Two samples -/

/-- A later time is never in an earlier phase. -/
theorem phaseAt_notLater {t₁ t₂ : Span} (h : t₁ < t₂) (o₁ o₂ : SampleOptions) :
    (p.phaseAt o₁ t₁).NotLater (p.phaseAt o₂ t₂) := by
  refine ⟨phaseAt_ne_idle p o₁ t₁, phaseAt_ne_idle p o₂ t₂, ?_⟩
  have hafter : p.phaseAt o₁ t₁ = .after → p.phaseAt o₂ t₂ = .after := by
    intro h₁
    have hle : p.activeAfter.ns ≤ t₁.ns := activeAfter_le_of_phaseAt h₁
    exact phaseAt_of_activeAfter_lt (hle.trans_lt h)
  cases h₂ : p.phaseAt o₂ t₂ with
  | idle => exact absurd h₂ (phaseAt_ne_idle p o₂ t₂)
  | after => cases p.phaseAt o₁ t₁ <;> decide
  | active =>
    cases h₁ : p.phaseAt o₁ t₁ with
    | after =>
      rw [hafter h₁] at h₂
      cases h₂
    | idle | before | active => decide
  | before =>
    -- the later time lies before the active interval at the latest, so the earlier one lies before
    -- it
    have hle : t₂.ns ≤ p.beforeActive.ns := le_beforeActive_of_phaseAt h₂
    have hbefore : p.phaseAt o₁ t₁ = .before := by
      refine phaseAt_of_lt_beforeActive (lt_of_lt_of_le h hle) fun h₁ => ?_
      rw [hafter h₁] at h₂
      cases h₂
    rw [hbefore]

/-- The two times may be the same if the options go by the time. -/
theorem phaseAt_notLater_of_le {t₁ t₂ : Span} (h : t₁ ≤ t₂) (options : Span → SampleOptions) :
    (p.phaseAt (options t₁) t₁).NotLater (p.phaseAt (options t₂) t₂) := by
  rcases Int.lt_or_eq_of_le h with hlt | heq
  · exact phaseAt_notLater hlt (options t₁) (options t₂)
  · rw [Span.ext heq]
    exact ⟨phaseAt_ne_idle p _ t₂, phaseAt_ne_idle p _ t₂, le_rfl⟩

/-- Away from the boundaries no option has a say. -/
theorem phaseAt_eq_of_ne (hbefore : time ≠ p.beforeActive) (hafter : time ≠ p.activeAfter)
    (o₁ o₂ : SampleOptions) : p.phaseAt o₁ time = p.phaseAt o₂ time := by
  simp [phaseAt, hbefore, hafter]

theorem compute_eq_of_phaseAt {o₁ o₂ : SampleOptions} (h : p.phaseAt o₁ time = p.phaseAt o₂ time) :
    p.compute (.resolved time) o₁ = p.compute (.resolved time) o₂ := by
  simp only [compute, h]

/-- The phase is monotone in the local time, across all options, and away from the two boundaries of
the active interval a sample does not depend on its options at all. A sample shows its phase unless
the sum of the iteration count and the iteration start overflows in it. -/
theorem compute_phase_monotone (h : p.Valid) :
    (∀ (t₁ t₂ : Span) (o₁ o₂ : SampleOptions) (c₁ c₂ : ComputedTiming), t₁ < t₂ →
      p.compute (.resolved t₁) o₁ = .ok c₁ → p.compute (.resolved t₂) o₂ = .ok c₂ →
      c₁.phase.NotLater c₂.phase) ∧
    (∀ (time : Span) (o₁ o₂ : SampleOptions), time ≠ p.beforeActive → time ≠ p.activeAfter →
      p.phaseAt o₁ time = p.phaseAt o₂ time ∧
        p.compute (.resolved time) o₁ = p.compute (.resolved time) o₂) ∧
    ∀ (time : Span) (o : SampleOptions),
      (∃ c, p.compute (.resolved time) o = .ok c ∧ c.phase = p.phaseAt o time) ∨
        p.compute (.resolved time) o = .error .progressNotFinite ∧
        p.OverflowsAt (.resolved time) o := by
  refine ⟨?_, ?_, ?_⟩
  · intro t₁ t₂ o₁ o₂ c₁ c₂ hlt h₁ h₂
    rw [phase_of_compute h h₁, phase_of_compute h h₂]
    exact phaseAt_notLater hlt o₁ o₂
  · intro time o₁ o₂ hbefore hafter
    have hphase := phaseAt_eq_of_ne hbefore hafter o₁ o₂
    exact ⟨hphase, compute_eq_of_phaseAt hphase⟩
  · intro time o
    by_cases hover : p.OverflowsAt (.resolved time) o
    · exact Or.inr ⟨compute_of_overflowsAt h hover, hover⟩
    · obtain ⟨c, hc⟩ := compute_ok h hover
      exact Or.inl ⟨c, hc, phase_of_compute h hc⟩

/-- An empty effect after a delay, the two boundaries of which coincide. -/
def emptyAfterDelay : TimingOptions := { delay := { ns := 10 }, duration := some .zero }

/-- A sample at the given rate, with the ends of the active interval left out. -/
def exclusively (rate : Float) : SampleOptions := { rate, endpoint := .known .exclusive }

/-- Played forwards, the effect is over on its only boundary; and a nanosecond later it is not
before itself again, although it is played backwards. -/
theorem compute_phase_monotone_empty :
    ∃ p c₁ c₂, ofOptions emptyAfterDelay = .ok p ∧
      p.compute (.resolved { ns := 10 }) (exclusively 1) = .ok c₁ ∧
      p.compute (.resolved { ns := 11 }) (exclusively (-1)) = .ok c₂ ∧
      c₁.phase = .after ∧ c₁.phase.NotLater c₂.phase := by
  have hsamples : ∃ p c₁ c₂, ofOptions emptyAfterDelay = .ok p ∧
      p.compute (.resolved { ns := 10 }) (exclusively 1) = .ok c₁ ∧
      p.compute (.resolved { ns := 11 }) (exclusively (-1)) = .ok c₂ ∧ c₁.phase = .after :=
    ⟨_, _, _, rfl, rfl, rfl, rfl⟩
  obtain ⟨p, c₁, c₂, hp, h₁, h₂, hafter⟩ := hsamples
  have hmono := (compute_phase_monotone (valid_of_ofOptions hp)).1
  exact ⟨p, c₁, c₂, hp, h₁, h₂, hafter, hmono _ _ _ _ _ _ (by decide) h₁ h₂⟩

end TimingParams

end EffectTiming
