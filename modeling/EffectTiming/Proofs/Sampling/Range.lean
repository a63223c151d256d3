import Mathlib
import EffectTiming.Sampling.Range
import EffectTiming.Proofs.Binary64.Near
import EffectTiming.Proofs.Time.Span

/-!
# The times of a range

The times of a range come from a walk in equal steps, with the last time put behind it. Steps are
sums of spans, which stay where they are at an extreme, so a walk need not get anywhere; that it
does, and that it lists what the range says, follows from what a check of the range promises
(`Listable`).

## Main statements

* `times_lists`: the walk of a checked range ends, and its times are those of the range.
* `length_times_le_iff`: how the number of times compares with the limit that the check looks at.
  The check counts steps, in binary64, and the times are one more than the steps begun.
-/

namespace EffectTiming.SampleRange

open Binary64

variable {r : SampleRange} {t : Span} {ts : List Span}

/-! ### What a check promises -/

/-- What a check promises of a range. -/
structure Listable (r : SampleRange) : Prop where
  step_pos : 0 < r.step.ns
  first_le : r.first.ns ≤ r.last.ns
  lt_first : -9223372036854775807 < r.first.ns
  last_lt : r.last.ns < 9223372036854775807
  length_lt : r.last.ns - r.first.ns < 9223372036854775807
  /-- The number of steps, unless there is only one, stays below the limit after rounding. -/
  steps_lt : r.step.ns = 9223372036854775807 ∨
    rounded (rounded (r.last.ns - r.first.ns : ℤ) / rounded r.step.ns) < limit

theorem hasValue_limit : HasValue (Float.ofNat limit) limit := hasValue_ofNat_of_le (by decide)

/-- What the check compares, one after the other. -/
theorem of_validate (h : r.validate = .ok ()) :
    0 < r.step.ns ∧ r.first.ns ≤ r.last.ns ∧ r.first.isForever = false ∧ r.last.isForever = false ∧
      ¬ (r.last.sub r.first).ratio r.step ≥ Float.ofNat limit := by
  simp only [validate] at h
  split_ifs at h with hstep hback hends hlong
  rw [Bool.or_eq_true, not_or, Bool.not_eq_true, Bool.not_eq_true] at hends
  exact ⟨not_le.mp hstep, not_lt.mp hback, hends.1, hends.2, hlong⟩

/-- The check looks at the difference of both ends only after it was cut off, but it lets no
difference through that was: it has an infinite ratio. -/
theorem sub_ns_of_validate (h : r.validate = .ok ()) :
    (r.last.sub r.first).ns = r.last.ns - r.first.ns ∧ -9223372036854775807 < r.first.ns ∧
      r.last.ns < 9223372036854775807 ∧ r.last.ns - r.first.ns < 9223372036854775807 := by
  obtain ⟨hstep, hback, hfirst, hlast, hlong⟩ := of_validate h
  have hcut : (r.last.sub r.first).ns ≠ 9223372036854775807 := by
    intro hforever
    have hpos : Span.zero < r.step := hstep
    apply hlong
    rw [Span.eq_forever_iff.mpr hforever, Span.ratio, if_pos (by decide), if_pos (by simp [hpos])]
    exact Span.isInfinite_infinity.le hasValue_limit
  simp only [← Bool.not_eq_true, Span.isForever, Bool.or_eq_true, beq_iff_eq, Span.eq_forever_iff,
    Span.eq_negForever_iff, not_or] at hfirst hlast
  have hhigh := r.last.ns_le
  have hsub := Span.sub_ns r.last r.first
  split_ifs at hsub with hforever hneg
  · exact absurd hsub hcut
  · omega
  · omega

theorem listable_of_validate (h : r.validate = .ok ()) : r.Listable := by
  obtain ⟨hstep, hback, -, -, hlong⟩ := of_validate h
  obtain ⟨hsub, hlow, hhigh, hlength⟩ := sub_ns_of_validate h
  refine ⟨hstep, hback, hlow, hhigh, hlength, ?_⟩
  by_cases hforever : r.step.ns = 9223372036854775807
  · exact Or.inl hforever
  right
  have hratio := (Span.hasValue_ratio (d := r.last.sub r.first) (o := r.step)
    (Span.isForever_eq_false (by omega) (Span.ne_forever_of_lt (by omega)))
    (Span.isForever_eq_false hstep.le (mt Span.eq_forever_iff.mp hforever)) hstep).1
  rwa [ge_iff_le, hasValue_limit.le_iff hratio, not_le, hsub] at hlong

/-! ### The walk -/

/-- The walk from `t` on, with nothing but the last time to stop it: it lists `ts`. A walk without
end lists nothing. -/
inductive Walk (r : SampleRange) : Span → List Span → Prop where
  | stop {t : Span} (h : r.last ≤ t) : Walk r t [r.last]
  | go {t : Span} {ts : List Span} (h : t < r.last) (hrest : Walk r (t.add r.step) ts) :
      Walk r t (t :: ts)

/-- A step leads on by its length, or past the last time. Only there is the sum cut off. -/
theorem Listable.add_step (h : r.Listable) (hfirst : r.first.ns ≤ t.ns) (hlast : t.ns < r.last.ns) :
    (t.add r.step).ns = t.ns + r.step.ns ∨
      r.last.ns ≤ t.ns + r.step.ns ∧ r.last.ns ≤ (t.add r.step).ns := by
  have ⟨hstep, _, hlow, hhigh, hlength, _⟩ := h
  have := r.step.ns_le
  rw [Span.add_ns]
  split_ifs <;> omega

theorem Listable.lt_add_step (h : r.Listable) (hfirst : r.first.ns ≤ t.ns)
    (hlast : t.ns < r.last.ns) :
    t.ns < (t.add r.step).ns := by
  have hstep := h.step_pos
  rcases h.add_step hfirst hlast with heq | ⟨-, hle⟩ <;> omega

/-- The times are those of the walk: as long as it goes on it gets somewhere. -/
theorem Walk.timesFrom_eq (hwalk : r.Walk t ts) (h : r.Listable) (hfirst : r.first.ns ≤ t.ns)
    (earlier : List Span) : r.timesFrom t earlier = earlier.reverse ++ ts := by
  induction hwalk generalizing earlier with
  | stop hstop =>
    rw [timesFrom, if_neg (fun hc => Int.not_lt.mpr hstop hc.1), List.reverse_cons]
  | go hgo _ ih =>
    have hmove := h.lt_add_step hfirst hgo
    rw [timesFrom, if_pos ⟨hgo, hmove⟩, ih (hfirst.trans hmove.le), List.reverse_cons,
      List.append_assoc, List.singleton_append]

/-- The time after `i` steps from `t` on, or the last time if that is earlier. -/
def after (r : SampleRange) (t : Span) (i : ℕ) : Span :=
  .clamp (min (t.ns + i * r.step.ns) r.last.ns)

theorem Listable.after_ns (h : r.Listable) (hfirst : r.first.ns ≤ t.ns) (i : ℕ) :
    (r.after t i).ns = min (t.ns + i * r.step.ns) r.last.ns := by
  have hnonneg : 0 ≤ i * r.step.ns := mul_nonneg (by positivity) h.step_pos.le
  have ⟨_, _, hlow, hhigh, _, _⟩ := h
  have := t.ns_le
  rw [after, Span.clamp_ns]
  omega

/-- A walk that `k` steps take to the last time, and no fewer, ends there. -/
theorem Listable.walk (h : r.Listable) (hfirst : r.first.ns ≤ t.ns) {k : ℕ}
    (hreach : r.last.ns ≤ t.ns + k * r.step.ns)
    (hbefore : ∀ i < k, t.ns + i * r.step.ns < r.last.ns) :
    r.Walk t ((List.range (k + 1)).map (r.after t)) := by
  induction k generalizing t with
  | zero =>
    have hlast : r.last.ns ≤ t.ns := by simpa using hreach
    have hafter : r.after t 0 = r.last := by
      apply Span.ext
      rw [h.after_ns hfirst]
      omega
    rw [List.range_one, List.map_singleton, hafter]
    exact .stop hlast
  | succ k ih =>
    have hlast : t.ns < r.last.ns := by simpa using hbefore 0 k.succ_pos
    have hhere : r.after t 0 = t := by
      apply Span.ext
      rw [h.after_ns hfirst]
      omega
    have hmove := h.lt_add_step hfirst hlast
    -- also where the first step is cut off, what follows is the same
    have hnext : r.after t ∘ Nat.succ = r.after (t.add r.step) := by
      funext i
      have hnonneg : 0 ≤ i * r.step.ns := mul_nonneg (by positivity) h.step_pos.le
      apply Span.ext
      rw [Function.comp_apply, h.after_ns hfirst, h.after_ns (hfirst.trans hmove.le)]
      push_cast
      rw [add_mul, one_mul]
      rcases h.add_step hfirst hlast with heq | ⟨hle, hle'⟩ <;> omega
    rw [List.range_succ_eq_map, List.map_cons, List.map_map, hhere, hnext]
    refine .go hlast (ih (hfirst.trans hmove.le) ?_ fun i hi => ?_)
    · have hnonneg : 0 ≤ k * r.step.ns := mul_nonneg (by positivity) h.step_pos.le
      push_cast [add_mul] at hreach
      rcases h.add_step hfirst hlast with heq | ⟨-, hle⟩ <;> omega
    · have hnonneg : 0 ≤ i * r.step.ns := mul_nonneg (by positivity) h.step_pos.le
      have hbefore := hbefore (i + 1) (by omega)
      push_cast [add_mul] at hbefore
      rcases h.add_step hfirst hlast with heq | ⟨hle, -⟩ <;> omega

/-! ### The times -/

/-- The number of steps that are begun on the way from the first time to the last. -/
def steps (r : SampleRange) : ℕ := ⌈((r.last.ns - r.first.ns : ℤ) : ℚ) / r.step.ns⌉₊

theorem Listable.last_le_steps (h : r.Listable) : r.last.ns ≤ r.first.ns + r.steps * r.step.ns := by
  have hstep : (0 : ℚ) < r.step.ns := by exact_mod_cast h.step_pos
  have hceil : ((r.last.ns - r.first.ns : ℤ) : ℚ) / r.step.ns ≤ r.steps := Nat.le_ceil _
  rw [div_le_iff₀ hstep] at hceil
  have : r.last.ns - r.first.ns ≤ r.steps * r.step.ns := by exact_mod_cast hceil
  omega

theorem Listable.lt_last (h : r.Listable) {i : ℕ} (hi : i < r.steps) :
    r.first.ns + i * r.step.ns < r.last.ns := by
  have hstep : (0 : ℚ) < r.step.ns := by exact_mod_cast h.step_pos
  have hceil := Nat.lt_ceil.mp hi
  rw [lt_div_iff₀ hstep] at hceil
  have : i * r.step.ns < r.last.ns - r.first.ns := by exact_mod_cast hceil
  omega

theorem Listable.times_eq (h : r.Listable) :
    r.Walk r.first r.times ∧ r.times = (List.range (r.steps + 1)).map (r.after r.first) := by
  have hwalk := h.walk le_rfl h.last_le_steps fun i hi => h.lt_last hi
  have htimes : r.times = (List.range (r.steps + 1)).map (r.after r.first) :=
    hwalk.timesFrom_eq h le_rfl []
  exact ⟨htimes ▸ hwalk, htimes⟩

theorem Listable.length_times (h : r.Listable) : r.times.length = r.steps + 1 := by
  rw [h.times_eq.2, List.length_map, List.length_range]

/-- In steps from the first time on, but not past the last. -/
theorem Listable.getElem_times (h : r.Listable) {i : ℕ} (hi : i < r.times.length) :
    r.times[i].ns = min (r.first.ns + i * r.step.ns) r.last.ns := by
  have hget : r.times[i] = r.after r.first i := by
    simp only [h.times_eq.2, List.getElem_map, List.getElem_range]
  rw [hget, h.after_ns le_rfl]

theorem Listable.getElem_times_of_lt (h : r.Listable) {i : ℕ} (hi : i + 1 < r.times.length) :
    r.times[i].ns = r.first.ns + i * r.step.ns ∧ r.times[i].ns < r.last.ns := by
  have hlength := h.length_times
  have hlt := h.lt_last (i := i) (by omega)
  rw [h.getElem_times]
  omega

/-- The times of a range, in their order. -/
structure Lists (r : SampleRange) (ts : List Span) : Prop where
  /-- They are listed by a walk that ends. -/
  walk : r.Walk r.first ts
  head : ts.head? = some r.first
  getLast : ts.getLast? = some r.last
  increasing : ts.Pairwise (· < ·)
  gap : ∀ i, (hi : i + 2 < ts.length) → ts[i + 1].ns - ts[i].ns = r.step.ns
  /-- The last gap may be shorter than a step. -/
  lastGap : ∀ i, (hi : i + 2 = ts.length) →
    0 < ts[i + 1].ns - ts[i].ns ∧ ts[i + 1].ns - ts[i].ns ≤ r.step.ns
  length : ts.length = ⌈((r.last.ns - r.first.ns : ℤ) : ℚ) / r.step.ns⌉₊ + 1
  single : r.first = r.last → ts = [r.last]

theorem Listable.getLast_times (h : r.Listable) : r.times.getLast? = some r.last := by
  have hlength := h.length_times
  have hreach := h.last_le_steps
  rw [List.getLast?_eq_getElem?, List.getElem?_eq_getElem (by omega), Option.some_inj]
  apply Span.ext
  rw [h.getElem_times, hlength, Nat.add_sub_cancel]
  omega

theorem Listable.times_increasing (h : r.Listable) : r.times.Pairwise (· < ·) := by
  rw [List.pairwise_iff_getElem]
  intro i j hi hj hij
  obtain ⟨hns, hlt⟩ := h.getElem_times_of_lt (i := i) (by omega)
  have hmul : (i + 1 : ℤ) * r.step.ns ≤ j * r.step.ns :=
    mul_le_mul_of_nonneg_right (by exact_mod_cast hij) h.step_pos.le
  have hstep := h.step_pos
  show r.times[i].ns < r.times[j].ns
  rw [h.getElem_times hj]
  rw [add_mul, one_mul] at hmul
  omega

/-- The walk of a checked range ends. It lists times that start with the first one, increase by a
step from each to the next, except that the last gap may be shorter, and end with the last one;
there are as many as steps are begun, and one more. -/
theorem times_lists (h : r.validate = .ok ()) : r.Lists r.times := by
  have h := listable_of_validate h
  have hfirst := h.first_le
  have hlength := h.length_times
  constructor
  case walk => exact h.times_eq.1
  case head =>
    rw [List.head?_eq_getElem?, List.getElem?_eq_getElem (by omega), Option.some_inj]
    apply Span.ext
    rw [h.getElem_times]
    omega
  case getLast => exact h.getLast_times
  case increasing => exact h.times_increasing
  case gap =>
    intro i hi
    obtain ⟨hns, -⟩ := h.getElem_times_of_lt (i := i) (by omega)
    obtain ⟨hns', -⟩ := h.getElem_times_of_lt (i := i + 1) hi
    rw [hns, hns']
    push_cast
    ring
  case lastGap =>
    intro i hi
    obtain ⟨hns, hlt⟩ := h.getElem_times_of_lt (i := i) (by omega)
    -- all steps but the last one are full, and that one reaches the last time
    have hreach := h.last_le_steps
    have hstep := h.step_pos
    rw [show r.steps = i + 1 by omega] at hreach
    rw [h.getElem_times (i := i + 1)]
    push_cast [add_mul] at hreach ⊢
    omega
  case length => exact hlength
  case single =>
    intro hsame
    have hsteps : r.steps = 0 := by simp [steps, hsame]
    have hlast := h.getLast_times
    obtain ⟨t, ht⟩ := List.length_eq_one_iff.mp (hlength.trans (by rw [hsteps]))
    rw [ht] at hlast ⊢
    simpa using hlast

/-- Four times, the last of them early. -/
def shortEnd : SampleRange := { first := .clamp (-500), last := .clamp 1000, step := .clamp 600 }

theorem times_lists_shortEnd : shortEnd.validate = .ok () ∧ shortEnd.Lists shortEnd.times := by
  have hvalid : shortEnd.validate = .ok () := rfl
  exact ⟨hvalid, times_lists hvalid⟩

/-! ### Their number -/

theorem Listable.steps_le_iff (h : r.Listable) (k : ℕ) :
    r.steps ≤ k ↔ r.last.ns - r.first.ns ≤ k * r.step.ns := by
  have hstep : (0 : ℚ) < r.step.ns := by exact_mod_cast h.step_pos
  rw [steps, Nat.ceil_le, div_le_iff₀ hstep]
  exact_mod_cast Iff.rfl

/-- The rounded number of steps is below the limit, so the exact one passes it by less than one
step. -/
theorem Listable.length_le (h : r.Listable) :
    r.last.ns - r.first.ns ≤ ((limit + 1 : ℕ) : ℤ) * r.step.ns := by
  by_contra hlong
  rw [not_le] at hlong
  have hstep := h.step_pos
  have hlength := h.length_lt
  have hlimit : ((limit + 1 : ℕ) : ℤ) = 100001 := rfl
  rw [hlimit] at hlong
  rcases h.steps_lt with hforever | hsteps
  · omega
  -- so short a step is a binary64 number, and only the length is rounded before the division
  have hexact : rounded r.step.ns = r.step.ns :=
    rounded_of_representable (representable_intCast (abs_le.mpr ⟨by omega, by omega⟩))
  have hpos : (1 : ℚ) ≤ r.step.ns := by exact_mod_cast hstep
  have hlong : (100001 : ℚ) * r.step.ns ≤ (r.last.ns - r.first.ns : ℤ) := by exact_mod_cast hlong.le
  have hround : (1 - roundoff) * (r.last.ns - r.first.ns : ℤ) ≤
      rounded (r.last.ns - r.first.ns : ℤ) :=
    (rounded_bounds (leastNormal_le_one.trans (by linarith))).1
  have hquotient : (limit : ℚ) ≤ rounded (r.last.ns - r.first.ns : ℤ) / rounded r.step.ns := by
    have hnumber : (limit : ℚ) = 100000 := rfl
    rw [hexact, le_div_iff₀ (by linarith), hnumber]
    rw [roundoff] at hround
    linarith
  have := le_rounded hasValue_limit.representable hquotient
  linarith

/-- A checked range keeps to the limit exactly if it is no longer than one step less than the limit,
since steps list one time more than their number. The check compares the number of steps itself,
rounded, with the limit, and so lets two times too many through at most. -/
theorem length_times_le_iff (h : r.validate = .ok ()) :
    (r.times.length ≤ limit ↔ r.last.ns - r.first.ns ≤ ((limit - 1 : ℕ) : ℤ) * r.step.ns) ∧
      r.times.length ≤ limit + 2 := by
  have h := listable_of_validate h
  have hpos : 0 < limit := by decide
  have hsteps := (h.steps_le_iff (limit + 1)).mpr h.length_le
  rw [h.length_times, ← h.steps_le_iff]
  omega

/-- As many times as the limit allows. -/
def fullRange : SampleRange := { first := .zero, last := .clamp 199998, step := .clamp 2 }

theorem length_times_fullRange : fullRange.validate = .ok () ∧ fullRange.times.length ≤ limit := by
  have hvalid : fullRange.validate = .ok () := rfl
  exact ⟨hvalid, (length_times_le_iff hvalid).1.mpr (by decide)⟩

/-- Half a step short of the limit, which makes one time more than it. -/
def halfStepShort : SampleRange := { first := .zero, last := .clamp 199999, step := .clamp 2 }

theorem length_times_halfStepShort :
    halfStepShort.validate = .ok () ∧ halfStepShort.times.length = limit + 1 := by
  have hvalid : halfStepShort.validate = .ok () := rfl
  have h := listable_of_validate hvalid
  have hle : halfStepShort.steps ≤ limit := (h.steps_le_iff limit).mpr (by decide)
  have hlt : ¬ halfStepShort.steps ≤ limit - 1 := (h.steps_le_iff (limit - 1)).not.mpr (by decide)
  refine ⟨hvalid, ?_⟩
  rw [h.length_times]
  omega

end EffectTiming.SampleRange
