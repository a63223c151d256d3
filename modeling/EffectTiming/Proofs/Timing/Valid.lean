import Mathlib
import EffectTiming.Timing.Params
import EffectTiming.Proofs.Easing.Finite
import EffectTiming.Proofs.Time.Span

/-!
# Checked parameters

What `TimingParams.ofOptions` promises of the parameters that it lets through, and what follows for
the active duration: it is not negative, and it is zero only if nothing is repeated.
-/

namespace EffectTiming

open Binary64

/-- A computation that goes on succeeded so far. -/
theorem exists_ok_of_bind {ε α β : Type} {x : Except ε α} {f : α → Except ε β} {b : β}
    (h : x >>= f = .ok b) : ∃ a, x = .ok a ∧ f a = .ok b :=
  match x, h with
  | .ok a, h => ⟨a, rfl, h⟩

@[simp]
theorem ok_bind {ε α β : Type} (a : α) (f : α → Except ε β) : Except.ok a >>= f = f a := rfl

/-- A computation that failed did so at once or later on. -/
theorem error_of_bind {ε α β : Type} {x : Except ε α} {f : α → Except ε β} {e : ε}
    (h : x >>= f = .error e) : x = .error e ∨ ∃ a, x = .ok a ∧ f a = .error e :=
  match x, h with
  | .error _, h => Or.inl (by cases h; rfl)
  | .ok a, h => Or.inr ⟨a, rfl, h⟩

theorem exists_ok_of_map {ε α β : Type} {x : Except ε α} {f : α → β} {b : β} (h : x.map f = .ok b) :
    ∃ a, x = .ok a ∧ f a = b :=
  match x, h with
  | .ok a, h => ⟨a, rfl, Except.ok.inj h⟩

theorem exists_ok_of_toOption {ε α β : Type} {x : Except ε α} {f : α → β} {b : β}
    (h : x.toOption.map f = some b) : ∃ a, x = .ok a ∧ f a = b :=
  match x, h with
  | .ok a, h => ⟨a, rfl, Option.some_inj.mp h⟩

/-- What a list of computations gives comes from the computation at its place. -/
theorem forall₂_of_mapM {ε α β : Type} {f : α → Except ε β} {as : List α} {bs : List β}
    (h : as.mapM f = .ok bs) : List.Forall₂ (fun a b => f a = .ok b) as bs := by
  induction as generalizing bs with
  | nil =>
    cases h
    exact .nil
  | cons a as ih =>
    rw [List.mapM_cons] at h
    obtain ⟨b, hb, h⟩ := exists_ok_of_bind h
    obtain ⟨bs, hbs, h⟩ := exists_ok_of_bind h
    cases h
    exact .cons hb (ih hbs)

theorem exists_mapM_iff {ε α β : Type} {f : α → Except ε β} {as : List α} :
    (∃ bs, as.mapM f = .ok bs) ↔ ∀ a ∈ as, ∃ b, f a = .ok b := by
  induction as with
  | nil => simp [pure, Except.pure]
  | cons a as ih =>
    rw [List.forall_mem_cons, ← ih, List.mapM_cons]
    constructor
    · rintro ⟨bs, h⟩
      obtain ⟨b, hb, h⟩ := exists_ok_of_bind h
      obtain ⟨bs, hbs, -⟩ := exists_ok_of_bind h
      exact ⟨⟨b, hb⟩, bs, hbs⟩
    · rintro ⟨⟨b, hb⟩, bs, hbs⟩
      rw [hb, hbs]
      exact ⟨b :: bs, rfl⟩

/-- Another wording of its failures does not change what a computation gives. -/
theorem mapError_eq_ok_iff {ε δ α : Type} {x : Except ε α} {f : ε → δ} {a : α} :
    x.mapError f = .ok a ↔ x = .ok a := by
  cases x <;> simp [Except.mapError]

namespace TimingParams

/-- What a check promises of timing parameters. -/
structure Valid (p : TimingParams) : Prop where
  duration : 0 ≤ p.iterationDuration.ns
  iterations : (∃ n, HasValue p.iterations n ∧ 0 ≤ n) ∨ IsInfinite p.iterations
  start : ∃ r, HasValue p.iterationStart r ∧ 0 ≤ r
  easing : p.easing.fault? = none

end TimingParams

theorem exists_of_checkIterations {x : Float} (h : checkIterations x = .ok ()) :
    (∃ n, HasValue x n ∧ 0 ≤ n) ∨ IsInfinite x := by
  rw [checkIterations] at h
  split_ifs at h with hnan hneg
  exact exists_of_not_neg (by simpa using hnan) hneg

theorem exists_of_checkStart {x : Float} (h : checkStart x = .ok ()) :
    ∃ r, HasValue x r ∧ 0 ≤ r := by
  rw [checkStart] at h
  split_ifs at h with hnan hinf hneg
  rcases exists_of_not_neg (by simpa using hnan) hneg with hr | hx
  · exact hr
  · refine absurd ?_ hinf
    show x.toModel.unpack.isInf = true
    rw [hx]
    rfl

theorem nonneg_of_checkDuration {d : Option Span} (h : checkDuration d = .ok ()) :
    0 ≤ (d.getD .zero).ns := by
  cases d with
  | none => exact le_rfl
  | some d =>
    rw [checkDuration] at h
    split_ifs at h with hneg
    exact not_lt.mp hneg

/-- Checked parameters keep what the check has seen. -/
theorem TimingOptions.valid_of_validate {o : TimingOptions} {p : TimingParams}
    (h : o.validate = .ok p) : p.Valid := by
  obtain ⟨_, hduration, h⟩ := exists_ok_of_bind h
  obtain ⟨_, hiterations, h⟩ := exists_ok_of_bind h
  obtain ⟨_, hstart, h⟩ := exists_ok_of_bind h
  split at h
  · cases h
  · cases h
  · split at h
    · cases h
    · rename_i heasing
      cases h
      exact ⟨nonneg_of_checkDuration hduration, exists_of_checkIterations hiterations,
        exists_of_checkStart hstart, heasing⟩

namespace TimingParams

variable {o : TimingOptions} {p : TimingParams} {d : Span} {n : ℚ}

theorem valid_of_ofOptions (h : ofOptions o = .ok p) : p.Valid := by
  rw [ofOptions] at h
  cases hv : o.validate with
  | error f =>
    rw [hv] at h
    cases h
  | ok q =>
    rw [hv] at h
    cases h
    exact TimingOptions.valid_of_validate hv

theorem Valid.nonneg_of_duration (h : p.Valid) (hd : p.duration = some d) : 0 ≤ d.ns := by
  have hnonneg := h.duration
  rwa [iterationDuration, hd, Option.getD_some] at hnonneg

theorem Valid.iterations_nonneg (h : p.Valid) : 0 ≤ p.iterations := by
  rcases h.iterations with ⟨n, hn, hn0⟩ | hinf
  · exact (hasValue_zero.le_iff hn).mpr hn0
  · exact hinf.le hasValue_zero

theorem Valid.iterations_number (h : p.Valid) : p.iterations.isNaN = false := by
  rcases h.iterations with ⟨n, hn, -⟩ | hinf
  · exact hn.isNaN
  · exact hinf.isNaN

/-! ### The active duration -/

/-- Either nothing is repeated, or a duration that is not empty is scaled by a positive number. -/
theorem activeDuration_cases (h : p.Valid) :
    p.activeDuration = .zero ∨
      (0 < p.iterationDuration.ns ∧ p.activeDuration = p.iterationDuration.scale p.iterations ∧
        ((∃ n, HasValue p.iterations n ∧ 0 < n) ∨ IsInfinite p.iterations)) := by
  have hnonneg := h.duration
  rw [activeDuration]
  -- an `auto` duration counts as zero, and so falls under the first case
  rw [iterationDuration] at hnonneg ⊢
  cases hd : p.duration with
  | none => exact Or.inl rfl
  | some d =>
    rw [hd] at hnonneg
    change 0 ≤ d.ns at hnonneg
    by_cases hzero : d = .zero || p.iterations == 0
    · exact Or.inl (if_pos hzero)
    · right
      simp only [Bool.or_eq_true, decide_eq_true_eq, not_or, Bool.not_eq_true] at hzero
      obtain ⟨hd0, hn0⟩ := hzero
      have hpos : d.ns ≠ 0 := fun h0 => hd0 (Span.ext h0)
      refine ⟨?_, if_neg (by simp [hd0, hn0]), ?_⟩
      · show 0 < d.ns
        omega
      · refine h.iterations.imp_left ?_
        rintro ⟨n, hn, hle⟩
        refine ⟨n, hn, lt_of_le_of_ne hle fun h0 => ?_⟩
        rw [(hn.beq_iff hasValue_zero).mpr h0.symm] at hn0
        exact absurd hn0 (by decide)

/-- Scaling a duration that is not negative keeps it so. -/
theorem activeDuration_nonneg (h : p.Valid) : 0 ≤ p.activeDuration.ns := by
  rcases activeDuration_cases h with h0 | ⟨hpos, hscale, ⟨n, hn, hn0⟩ | hinf⟩
  · rw [h0]
    decide
  · rw [hscale, Span.scale_ns hpos.le hn hn0.le]
    exact Span.scaledCount_nonneg hpos.le hn0.le
  · rw [hscale, Span.scale_of_isInfinite hpos hinf]
    decide

theorem activeDuration_pos (h : p.Valid) (h0 : p.activeDuration ≠ .zero) :
    0 < p.activeDuration.ns ∧ 0 < p.iterationDuration.ns := by
  rcases activeDuration_cases h with hzero | ⟨hpos, -⟩
  · exact absurd hzero h0
  · have := activeDuration_nonneg h
    have : p.activeDuration.ns ≠ 0 := fun hns => h0 (Span.ext hns)
    exact ⟨by omega, hpos⟩

theorem activeDuration_ns (hd : p.duration = some d) (hnonneg : 0 ≤ d.ns)
    (hn : HasValue p.iterations n) (hpos : 0 < n) :
    p.activeDuration.ns = Span.scaledCount d.ns n := by
  have hne : (p.iterations == 0) = false := by
    rw [Bool.eq_false_iff, ne_eq, hn.beq_iff hasValue_zero]
    exact hpos.ne'
  rw [← Span.scale_ns hnonneg hn hpos.le, activeDuration, hd]
  by_cases hzero : d = .zero
  · simp [hzero]
  · simp [hzero, hne]

/-- An iteration without end makes an effect without end. -/
theorem activeDuration_eq_forever (h : p.Valid) (h0 : p.activeDuration ≠ .zero)
    (hd : p.iterationDuration = .forever) : p.activeDuration = .forever := by
  rcases activeDuration_cases h with hzero | ⟨hpos, hscale, ⟨n, hn, hn0⟩ | hinf⟩
  · exact absurd hzero h0
  · apply Span.ext
    rw [hscale, Span.scale_ns hpos.le hn hn0.le, Span.scaledCount, if_pos ⟨by rw [hd]; rfl, hn0⟩]
    rfl
  · rw [hscale, Span.scale_of_isInfinite hpos hinf]

end TimingParams

end EffectTiming
