import Mathlib
import EffectTiming.Proofs.Binary64.Near
import EffectTiming.Proofs.Timing.Composition

/-!
# Normalized timing and the length of its timeline

Normalization stretches the delay, the iterations and the end delay of an effect so that together
they last as long as the timeline. Each is stretched by itself, in binary64, and cut to whole
nanoseconds towards zero; the iteration is cut before it is repeated. The result may still pass the
end of the timeline, for four reasons: two negative delays that are cut, an active duration that was
cut before it was stretched, an iteration that is too long for a span, and roundings of times so
long that a unit in their last place is a nanosecond or more.

## Main statements

* `normalize_times`: the normalized times as exact functions of the timing and the timeline.
* `normalize_endTime_le_iff`: when the normalized timing ends within its timeline, and that without
  the first three reasons a timeline of some days is never passed.
-/

namespace EffectTiming

open Binary64

/-! ### What rounding gains -/

namespace Span

variable {k : ℤ} {q : ℚ}

theorem floor_product_le (hk : 0 ≤ k) (hq : 0 ≤ q) :
    (⌊rounded (rounded k * q)⌋ : ℚ) ≤ (1 + roundoff) ^ 2 * (k * q) := by
  have hu : (0 : ℚ) ≤ 1 + roundoff := by norm_num [roundoff]
  have hk' : (0 : ℚ) ≤ k := by exact_mod_cast hk
  calc (⌊rounded (rounded k * q)⌋ : ℚ)
      ≤ (1 + roundoff) * (rounded k * q) := floor_rounded_le (mul_nonneg (rounded_nonneg hk') hq)
    _ ≤ (1 + roundoff) * ((1 + roundoff) * k * q) := by
        gcongr
        exact rounded_intCast_le hk
    _ = (1 + roundoff) ^ 2 * (k * q) := by ring

theorem scaledCount_le (hk : 0 ≤ k) (hends : k < 9223372036854775807) (hq : 0 ≤ q) :
    (scaledCount k q : ℚ) ≤ (1 + roundoff) ^ 2 * (k * q) := by
  rw [scaledCount, if_neg (fun hc => hends.ne hc.1)]
  refine le_trans ?_ (floor_product_le hk hq)
  exact_mod_cast min_le_right _ _

/-- A count that is scaled and then repeated. -/
theorem scaledCount_scaledCount_le {n : ℚ} (hk : 0 ≤ k)
    (hends : k < 9223372036854775807) (hq : 0 ≤ q)
    (hends' : scaledCount k q < 9223372036854775807) (hn : 0 ≤ n) :
    (scaledCount (scaledCount k q) n : ℚ) ≤ (1 + roundoff) ^ 4 * (q * (k * n)) := by
  calc (scaledCount (scaledCount k q) n : ℚ)
      ≤ (1 + roundoff) ^ 2 * (scaledCount k q * n) :=
        scaledCount_le (scaledCount_nonneg hk hq) hends' hn
    _ ≤ (1 + roundoff) ^ 2 * ((1 + roundoff) ^ 2 * (k * q) * n) := by
        gcongr
        exact scaledCount_le hk hends hq
    _ = (1 + roundoff) ^ 4 * (q * (k * n)) := by ring

theorem scaledShift_le (hk : 0 ≤ k) (hq : 0 ≤ q) :
    0 ≤ scaledShift k q ∧ (scaledShift k q : ℚ) ≤ (1 + roundoff) ^ 4 * (q * k) := by
  have hk' : (0 : ℚ) ≤ k := by exact_mod_cast hk
  have hnonneg : 0 ≤ rounded (rounded k * q) := rounded_nonneg (mul_nonneg (rounded_nonneg hk') hq)
  rw [scaledShift, towardZero_of_nonneg hnonneg]
  refine ⟨Int.floor_nonneg.mpr hnonneg, (floor_product_le hk hq).trans ?_⟩
  rw [mul_comm q]
  exact mul_le_mul_of_nonneg_right (by norm_num [roundoff]) (mul_nonneg hk' hq)

end Span

/-- The counts of a delay, an active duration and an end delay. -/
structure ScaledTimes where
  delay : ℤ
  active : ℤ
  endDelay : ℤ

/-- The times, one after the other, are over at `t`. None of them, nor the first two together, may
be too long for a span. One that is too far back for a span ends the sum, since it stays there. -/
def ScaledTimes.OverBy (c : ScaledTimes) (t : ℤ) : Prop :=
  c.delay < 9223372036854775807 ∧ c.active < 9223372036854775807 ∧
    c.endDelay < 9223372036854775807 ∧
    (-9223372036854775808 < c.delay → c.delay + c.active < 9223372036854775807 ∧
      (-9223372036854775808 < c.endDelay → c.delay + c.active + c.endDelay ≤ t))

namespace TimingParams

variable {p q : TimingParams} {d timeline : Span}

theorem endTime_le_iff (hactive : 0 ≤ q.activeDuration.ns) (ht : 0 ≤ timeline.ns)
    (hends : timeline.ns < 9223372036854775807) :
    q.endTime ≤ timeline ↔
      (⟨q.delay.ns, q.activeDuration.ns, q.endDelay.ns⟩ : ScaledTimes).OverBy timeline.ns := by
  have h1 := q.delay.neg_le_ns
  have h2 := q.delay.ns_le
  have h3 := q.activeDuration.ns_le
  have h4 := q.endDelay.neg_le_ns
  have h5 := q.endDelay.ns_le
  have hreach := Span.add_ns q.delay q.activeDuration
  show q.endTime.ns ≤ timeline.ns ↔ _
  rw [endTime, Span.max_ns, Span.add_ns, Span.zero_ns]
  simp only [ScaledTimes.OverBy]
  split_ifs at hreach ⊢ <;> omega

/-! ### Scaled times -/

/-- The counts of the normalized delays and of all iterations. -/
def scaledTimes (p : TimingParams) (timeline : Span) : ScaledTimes :=
  match p.duration with
  | none => { delay := 0, active := timelineEnd none (value p.iterations) timeline, endDelay := 0 }
  | some d =>
    let factor := p.timelineFactor timeline
    { delay := Span.scaledShift p.delay.ns factor
      active := Span.scaledCount (Span.scaledCount d.ns factor) (value p.iterations)
      endDelay := Span.scaledShift p.endDelay.ns factor }

/-- An effect that ends after some time has no endless part, and none of its sums is cut off. -/
theorem endTime_eq_sum (hactive : 0 ≤ p.activeDuration.ns) (hpos : 0 < p.endTime.ns)
    (hfinite : p.endTime ≠ .forever) :
    p.endTime.ns = p.delay.ns + p.activeDuration.ns + p.endDelay.ns ∧ p.delay.isForever = false ∧
      p.activeDuration.ns < 9223372036854775807 ∧ p.endDelay.isForever = false := by
  have h1 := p.delay.neg_le_ns
  have h2 := p.delay.ns_le
  have h3 := p.activeDuration.ns_le
  have h4 := p.endDelay.neg_le_ns
  have h5 := p.endDelay.ns_le
  have hreach := Span.add_ns p.delay p.activeDuration
  have hend : p.endTime.ns = _ := Span.max_ns ((p.delay.add p.activeDuration).add p.endDelay) .zero
  rw [Span.add_ns, Span.zero_ns] at hend
  rw [ne_eq, Span.eq_forever_iff] at hfinite
  simp only [← Bool.not_eq_true, Span.isForever, Bool.or_eq_true, beq_iff_eq, Span.eq_forever_iff,
    Span.eq_negForever_iff]
  split_ifs at hreach hend <;> omega

theorem timelineFactor_ne_zero (h : p.timelineFactor timeline ≠ 0) :
    0 < p.endTime.ns ∧ p.endTime ≠ .forever := by
  rw [timelineFactor] at h
  split_ifs at h with hend
  · exact hend
  · exact absurd rfl h

/-- Only a count that is finite, or a duration that is empty, is repeated here. -/
theorem activeDuration_ns_value (hvalid : q.Valid) (hd : q.duration = some d)
    (hempty : IsInfinite q.iterations → d = .zero) :
    q.activeDuration.ns = Span.scaledCount d.ns (value q.iterations) := by
  rcases hvalid.iterations with ⟨n, hn, hn0⟩ | hinf
  · rw [hn.value_eq]
    rcases hn0.eq_or_lt with rfl | hpos
    · have hzero : (q.iterations == 0) = true := (hn.beq_iff hasValue_zero).mpr rfl
      rw [activeDuration, hd, Span.scaledCount_zero_right]
      simp [hzero]
    · exact activeDuration_ns hd (hvalid.nonneg_of_duration hd) hn hpos
  · rw [hinf.value_eq, Span.scaledCount_zero_right, activeDuration, hd, hempty hinf]
    rfl

theorem fillTimeline_active (hvalid : p.Valid) (ht : 0 < timeline.ns)
    (hends : timeline ≠ .forever) :
    (p.fillTimeline timeline).activeDuration.ns =
    timelineEnd none (value p.iterations) timeline := by
  by_cases hzero : value p.iterations = 0
  · -- nothing is repeated, or the timeline is not divided among iterations without end
    have hempty : IsInfinite p.iterations → (if p.iterations > 0 && !p.iterations.isInf then
        timeline.scale (1 / p.iterations) else Span.zero) = .zero := by
      intro hinf
      rw [if_neg (by simp [hinf.isInf])]
    rw [activeDuration_ns_value (hvalid.fillTimeline ht hends) rfl hempty]
    show Span.scaledCount _ (value p.iterations) = _
    rw [hzero, timelineEnd, Span.scaledCount_zero_right, Span.scaledCount_zero_right]
  · rcases hvalid.iterations with ⟨n, hn, hn0⟩ | hinf
    · rw [hn.value_eq] at hzero ⊢
      have hpos : 0 < n := lt_of_le_of_ne hn0 (Ne.symm hzero)
      obtain ⟨-, hvalid', d, hd, hcount⟩ := fillTimeline_spec hvalid hn hpos ht hends
      rw [activeDuration_ns hd (hvalid'.nonneg_of_duration hd) hn hpos, hcount]
      rfl
    · exact absurd hinf.value_eq hzero

/-- Iterations without end make an effect without end, which is dropped, unless they are empty. -/
theorem scale_eq_zero_of_isInfinite (hvalid : p.Valid) (hd : p.duration = some d)
    (ht : 0 < timeline.ns) (hends : timeline ≠ .forever) (hinf : IsInfinite p.iterations) :
    d.scale (p.timelineScale timeline) = .zero := by
  have hfactor := (hasValue_timelineScale (p := p) ht hends).1
  have hd0 := hvalid.nonneg_of_duration hd
  by_cases hzero : p.timelineFactor timeline = 0
  · apply Span.ext
    rw [Span.scale_ns hd0 hfactor (timelineFactor_nonneg ht), hzero, Span.scaledCount_zero_right]
    rfl
  · obtain ⟨hend, hfinite⟩ := timelineFactor_ne_zero hzero
    obtain ⟨-, -, hactive, -⟩ := endTime_eq_sum (activeDuration_nonneg hvalid) hend hfinite
    by_cases hempty : d = .zero
    · rw [hempty, Span.zero_scale]
    · have hpos : 0 < d.ns := lt_of_le_of_ne hd0 fun h0 => hempty (Span.ext h0.symm)
      rw [activeDuration, hd] at hactive
      simp only [hempty, hinf.beq hasValue_zero, decide_false, Bool.or_false,
        Bool.false_eq_true, if_false, Span.scale_of_isInfinite hpos hinf, Span.forever_ns,
        lt_irrefl] at hactive

/-- What normalization makes of the times of an effect. -/
theorem normalize_times (hvalid : p.Valid) (ht : isTimelineDuration timeline = true) :
    ∃ q, p.normalize timeline = .ok q ∧ q.Valid ∧
      q.delay = .clamp (p.scaledTimes timeline).delay ∧
      q.activeDuration.ns = (p.scaledTimes timeline).active ∧
      q.endDelay = .clamp (p.scaledTimes timeline).endDelay := by
  obtain ⟨hpos, hends⟩ := isTimelineDuration_iff.mp ht
  rw [normalize_of_isTimelineDuration ht]
  cases hd : p.duration with
  | none =>
    simp only [scaledTimes, hd]
    exact ⟨_, rfl, hvalid.fillTimeline hpos hends, rfl, fillTimeline_active hvalid hpos hends, rfl⟩
  | some d =>
    simp only [scaledTimes, hd]
    obtain ⟨hfactor, hbound⟩ := hasValue_timelineScale (p := p) hpos hends
    have hvalid' := hvalid.scaleTimes hd hpos hends
    -- a delay without end belongs to an effect that is dropped
    have hdropped : p.delay.isForever = true ∨ p.endDelay.isForever = true →
        p.timelineFactor timeline = 0 := by
      intro hforever
      by_contra hne
      obtain ⟨hend, hfinite⟩ := timelineFactor_ne_zero hne
      obtain ⟨-, hdelay, -, hendDelay⟩ := endTime_eq_sum (activeDuration_nonneg hvalid) hend hfinite
      rw [hdelay, hendDelay] at hforever
      simp at hforever
    have hactive : (p.scaleTimes d (p.timelineScale timeline)).activeDuration.ns =
        Span.scaledCount (d.scale (p.timelineScale timeline)).ns (value p.iterations) :=
      activeDuration_ns_value (d := d.scale (p.timelineScale timeline)) hvalid' rfl fun hinf =>
        scale_eq_zero_of_isInfinite hvalid hd hpos hends hinf
    rw [Span.scale_ns (hvalid.nonneg_of_duration hd) hfactor (timelineFactor_nonneg hpos)]
      at hactive
    have hdelay : p.delay.scale (p.timelineScale timeline) = _ :=
      Span.scale_eq_clamp (fun h => hdropped (Or.inl h)) hfactor hbound
    have hendDelay : p.endDelay.scale (p.timelineScale timeline) = _ :=
      Span.scale_eq_clamp (fun h => hdropped (Or.inr h)) hfactor hbound
    exact ⟨_, rfl, hvalid', hdelay, hactive, hendDelay⟩

/-- Cutting the delays off to spans changes nothing about when the times are over. -/
theorem overBy_clamp_iff (c : ScaledTimes) (t : ℤ) :
    (⟨(Span.clamp c.delay).ns, c.active, (Span.clamp c.endDelay).ns⟩ : ScaledTimes).OverBy t ↔
      c.OverBy t := by
  simp only [ScaledTimes.OverBy, Span.clamp_ns]
  omega

/-! ### Times that are scaled evenly -/

/-- Neither negative delays nor cut iterations make the scaled times longer than the timeline: there
are no negative delays, the active duration is not cut, and a scaled iteration is far from too long
for a span. -/
def ScalesEvenly (p : TimingParams) (timeline : Span) : Prop :=
  match p.duration with
  | none => value p.iterations = 0 ∨ timeline.ns ≤ 2 ^ 62 * value p.iterations
  | some d =>
    0 ≤ p.delay.ns ∧ 0 ≤ p.endDelay.ns ∧ d.ns * value p.iterations ≤ p.activeDuration.ns ∧
      d.ns * timeline.ns ≤ 2 ^ 62 * p.endTime.ns

/-- A count that passes a short timeline by no more than six roundings does not pass it at all. -/
theorem le_of_gain {t c : ℤ} (ht : t < 2 ^ 50)
    (h : (1 - roundoff) * c ≤ (1 + roundoff) ^ 5 * t) (ht0 : 0 ≤ t) : c ≤ t := by
  have ht' : (t : ℚ) < 2 ^ 50 := by exact_mod_cast ht
  have ht0' : (0 : ℚ) ≤ t := by exact_mod_cast ht0
  have hpow : (1 + roundoff) ^ 5 ≤ 1 + 6 * roundoff := by norm_num [roundoff]
  have hgain : (1 - roundoff) * c ≤ (1 + 6 * roundoff) * t :=
    h.trans (mul_le_mul_of_nonneg_right hpow ht0')
  by_contra hlt
  have hlt : (t : ℚ) + 1 ≤ c := by exact_mod_cast not_le.mp hlt
  rw [roundoff] at hgain
  linarith

/-- The exact share of the timeline, up to the roundings of the end time and of the quotient. -/
theorem timelineFactor_mul_le (ht : 0 < timeline.ns) (hshort : timeline.ns < 2 ^ 50)
    (hne : p.timelineFactor timeline ≠ 0) :
    (1 - roundoff) * (p.timelineFactor timeline * p.endTime.ns) ≤ (1 + roundoff) * timeline.ns := by
  obtain ⟨hend, hfinite⟩ := timelineFactor_ne_zero hne
  have hexact : rounded timeline.ns = timeline.ns :=
    rounded_of_representable (representable_intCast (abs_le.mpr ⟨by omega, by omega⟩))
  have hround : (1 - roundoff) * p.endTime.ns ≤ rounded p.endTime.ns :=
    (rounded_bounds (leastNormal_le_one.trans (by exact_mod_cast hend))).1
  have hone := Span.one_le_rounded_ns hend
  have hfactor : p.timelineFactor timeline ≤ (1 + roundoff) *
      (timeline.ns / rounded p.endTime.ns) := by
    have hnormal : (2 : ℚ) ^ (-1022 : ℤ) ≤ rounded timeline.ns / rounded p.endTime.ns :=
      (zpow_le_zpow_right₀ (by norm_num) (by norm_num)).trans (Span.le_quotient ht hend)
    rw [timelineFactor, if_pos ⟨hend, hfinite⟩]
    rw [hexact] at hnormal ⊢
    exact (rounded_bounds hnormal).2
  have hfactor0 : 0 ≤ p.timelineFactor timeline := timelineFactor_nonneg ht
  calc (1 - roundoff) * (p.timelineFactor timeline * p.endTime.ns)
      = p.timelineFactor timeline * ((1 - roundoff) * p.endTime.ns) := by ring
    _ ≤ (1 + roundoff) * (timeline.ns / rounded p.endTime.ns) * rounded p.endTime.ns :=
        mul_le_mul hfactor hround (mul_nonneg (by norm_num [roundoff]) (by exact_mod_cast hend.le))
          (hfactor0.trans hfactor)
    _ = (1 + roundoff) * timeline.ns := by rw [mul_assoc, div_mul_cancel₀ _ (by linarith)]

/-- A scaled iteration is a span if its exact length is one, with room for the roundings. -/
theorem lt_of_room {c : ℤ} {x : ℚ} (hx : 0 ≤ x) (h : c ≤ (1 + roundoff) ^ 2 * x)
    (hroom : (1 - roundoff) * x ≤ (1 + roundoff) * 2 ^ 62) : c < 9223372036854775807 := by
  have hpow : (1 + roundoff) ^ 2 ≤ 1 + 3 * roundoff := by norm_num [roundoff]
  have hle : (c : ℚ) ≤ (1 + 3 * roundoff) * x := h.trans (mul_le_mul_of_nonneg_right hpow hx)
  rw [roundoff] at hle hroom
  have : (c : ℚ) < 9223372036854775807 := by linarith
  exact_mod_cast this

/-- So many iterations that their inverse is no longer rounded in proportion get no time at all. -/
theorem share_eq_zero {n : ℚ} (ht : 0 < timeline.ns) (hshort : timeline.ns < 2 ^ 50) (hn : 0 < n)
    (hsmall : 1 / n ≤ 2 ^ (-1022 : ℤ)) : Span.scaledCount timeline.ns (rounded (1 / n)) = 0 := by
  have hinv : 0 ≤ rounded (1 / n) := rounded_nonneg (by positivity)
  have hinv' : rounded (1 / n) ≤ 2 ^ (-63 : ℤ) :=
    (rounded_le (representable_zpow (by norm_num)) hsmall).trans
      (zpow_le_zpow_right₀ (by norm_num) (by norm_num))
  have hle : (Span.scaledCount timeline.ns (rounded (1 / n)) : ℚ) < 1 :=
    calc (Span.scaledCount timeline.ns (rounded (1 / n)) : ℚ)
        ≤ (1 + roundoff) ^ 2 * (timeline.ns * rounded (1 / n)) :=
          Span.scaledCount_le ht.le (by omega) hinv
      _ ≤ (1 + roundoff) ^ 2 * (2 ^ 50 * 2 ^ (-63 : ℤ)) := by
          gcongr
          exact_mod_cast hshort.le
      _ < 1 := by norm_num [roundoff]
  have hlt : Span.scaledCount timeline.ns (rounded (1 / n)) < 1 := by exact_mod_cast hle
  have := Span.scaledCount_nonneg ht.le hinv
  omega

/-- Iterations that share a short timeline evenly do not take longer than it. -/
theorem timelineEnd_le {n : ℚ} (ht : 0 < timeline.ns) (hshort : timeline.ns < 2 ^ 50)
    (hn : 0 < n) (hroom : timeline.ns ≤ 2 ^ 62 * n) :
    timelineEnd none n timeline ≤ timeline.ns := by
  rw [timelineEnd, iterationCount]
  rcases le_total (1 / n) (2 ^ (-1022 : ℤ)) with hsmall | hnormal
  · rw [share_eq_zero ht hshort hn hsmall, Span.scaledCount_zero_left]
    exact ht.le
  have hu : 0 < roundoff := by norm_num [roundoff]
  have ht' : (0 : ℚ) ≤ timeline.ns := by exact_mod_cast ht.le
  have hends : timeline.ns < 9223372036854775807 := by omega
  have hinv : 0 ≤ rounded (1 / n) := rounded_nonneg (by positivity)
  have hinv' : rounded (1 / n) * n ≤ 1 + roundoff := by
    have := mul_le_mul_of_nonneg_right (rounded_bounds hnormal).2 hn.le
    rwa [mul_assoc, one_div_mul_cancel hn.ne', mul_one] at this
  have hshare : timeline.ns * rounded (1 / n) ≤ (1 + roundoff) * 2 ^ 62 :=
    calc timeline.ns * rounded (1 / n) ≤ 2 ^ 62 * n * rounded (1 / n) := by gcongr
      _ = rounded (1 / n) * n * 2 ^ 62 := by ring
      _ ≤ (1 + roundoff) * 2 ^ 62 := by gcongr
  have hshare0 : 0 ≤ timeline.ns * rounded (1 / n) := mul_nonneg ht' hinv
  have hfits := lt_of_room hshare0 (Span.scaledCount_le ht.le hends hinv) (by nlinarith)
  have hrepeated0 : (0 : ℚ) ≤
      Span.scaledCount (Span.scaledCount timeline.ns (rounded (1 / n))) n := by
    exact_mod_cast Span.scaledCount_nonneg (Span.scaledCount_nonneg ht.le hinv) hn.le
  refine le_of_gain hshort ?_ ht.le
  calc (1 - roundoff) * Span.scaledCount (Span.scaledCount timeline.ns (rounded (1 / n))) n
      ≤ Span.scaledCount (Span.scaledCount timeline.ns (rounded (1 / n))) n := by nlinarith
    _ ≤ (1 + roundoff) ^ 4 * (rounded (1 / n) * (timeline.ns * n)) :=
        Span.scaledCount_scaledCount_le ht.le hends hinv hfits hn.le
    _ = (1 + roundoff) ^ 4 * (rounded (1 / n) * n * timeline.ns) := by ring
    _ ≤ (1 + roundoff) ^ 4 * ((1 + roundoff) * timeline.ns) := by gcongr
    _ = (1 + roundoff) ^ 5 * timeline.ns := by ring

theorem Valid.value_nonneg (hvalid : p.Valid) : 0 ≤ value p.iterations := by
  rcases hvalid.iterations with ⟨n, hn, hn0⟩ | hinf
  · exact hn.value_eq ▸ hn0
  · exact hinf.value_eq.ge

/-- A scaled iteration that is far from too long for a span. -/
theorem scaledCount_lt (hd : 0 ≤ d.ns) (hends : d.ns < 9223372036854775807) (ht : 0 < timeline.ns)
    (hshort : timeline.ns < 2 ^ 50) (hne : p.timelineFactor timeline ≠ 0)
    (hroom : d.ns * timeline.ns ≤ 2 ^ 62 * p.endTime.ns) :
    Span.scaledCount d.ns (p.timelineFactor timeline) < 9223372036854775807 := by
  have hfactor : 0 ≤ p.timelineFactor timeline := timelineFactor_nonneg ht
  have hd' : (0 : ℚ) ≤ d.ns := by exact_mod_cast hd
  have hend : (0 : ℚ) < p.endTime.ns := by exact_mod_cast (timelineFactor_ne_zero hne).1
  have hu : 0 ≤ 1 + roundoff := by norm_num [roundoff]
  have hroom' : (d.ns : ℚ) * timeline.ns ≤ 2 ^ 62 * p.endTime.ns := by exact_mod_cast hroom
  refine lt_of_room (mul_nonneg hd' hfactor) (Span.scaledCount_le hd hends hfactor) ?_
  refine le_of_mul_le_mul_right ?_ hend
  calc (1 - roundoff) * (d.ns * p.timelineFactor timeline) * p.endTime.ns
      = d.ns * ((1 - roundoff) * (p.timelineFactor timeline * p.endTime.ns)) := by ring
    _ ≤ d.ns * ((1 + roundoff) * timeline.ns) :=
        mul_le_mul_of_nonneg_left (timelineFactor_mul_le ht hshort hne) hd'
    _ = (1 + roundoff) * (d.ns * timeline.ns) := by ring
    _ ≤ (1 + roundoff) * (2 ^ 62 * p.endTime.ns) := by gcongr
    _ = (1 + roundoff) * 2 ^ 62 * p.endTime.ns := by ring

/-- All iterations of an effect that is scaled evenly take their share, up to rounding. -/
theorem repeated_le (hvalid : p.Valid) (hd : p.duration = some d) (ht : 0 < timeline.ns)
    (hshort : timeline.ns < 2 ^ 50) (hne : p.timelineFactor timeline ≠ 0)
    (huncut : d.ns * value p.iterations ≤ p.activeDuration.ns)
    (hroom : d.ns * timeline.ns ≤ 2 ^ 62 * p.endTime.ns) :
    (Span.scaledCount (Span.scaledCount d.ns (p.timelineFactor timeline))
      (value p.iterations) : ℚ) ≤
      (1 + roundoff) ^ 4 * (p.timelineFactor timeline * p.activeDuration.ns) := by
  have hfactor : 0 ≤ p.timelineFactor timeline := timelineFactor_nonneg ht
  have hactive0 := activeDuration_nonneg hvalid
  have hd0 := hvalid.nonneg_of_duration hd
  rcases hvalid.value_nonneg.eq_or_lt with hzero | hpos
  · rw [← hzero, Span.scaledCount_zero_right, Int.cast_zero]
    have : (0 : ℚ) ≤ p.activeDuration.ns := by exact_mod_cast hactive0
    positivity
  · obtain ⟨hend, hfinite⟩ := timelineFactor_ne_zero hne
    obtain ⟨-, -, hactive, -⟩ := endTime_eq_sum hactive0 hend hfinite
    -- an iteration without end would make the effect one without end
    have hends : d.ns < 9223372036854775807 := by
      rcases hvalid.iterations with ⟨n, hn, -⟩ | hinf
      · rw [hn.value_eq] at hpos
        rw [activeDuration_ns hd hd0 hn hpos, Span.scaledCount] at hactive
        split_ifs at hactive with hforever
        · exact absurd hactive (lt_irrefl _)
        · exact lt_of_le_of_ne d.ns_le fun h => hforever ⟨h, hpos⟩
      · exact absurd hinf.value_eq hpos.ne'
    have hfits := scaledCount_lt hd0 hends ht hshort hne hroom
    refine (Span.scaledCount_scaledCount_le hd0 hends hfactor hfits hpos.le).trans ?_
    gcongr

/-- The scaled times of an effect without negative delays. Their exact shares add up to the
timeline, so that they pass it by what the roundings gain at most. -/
theorem scaled_sum_le (hvalid : p.Valid) (hd : p.duration = some d) (ht : 0 < timeline.ns)
    (hshort : timeline.ns < 2 ^ 50) (hne : p.timelineFactor timeline ≠ 0)
    (hdelay : 0 ≤ p.delay.ns) (hendDelay : 0 ≤ p.endDelay.ns)
    (huncut : d.ns * value p.iterations ≤ p.activeDuration.ns)
    (hroom : d.ns * timeline.ns ≤ 2 ^ 62 * p.endTime.ns) :
    Span.scaledShift p.delay.ns (p.timelineFactor timeline) +
        Span.scaledCount (Span.scaledCount d.ns (p.timelineFactor timeline)) (value p.iterations) +
        Span.scaledShift p.endDelay.ns (p.timelineFactor timeline) ≤ timeline.ns := by
  have hfactor : 0 ≤ p.timelineFactor timeline := timelineFactor_nonneg ht
  obtain ⟨hend, hfinite⟩ := timelineFactor_ne_zero hne
  obtain ⟨hsum, -⟩ := endTime_eq_sum (activeDuration_nonneg hvalid) hend hfinite
  have hfirst := (Span.scaledShift_le hdelay hfactor).2
  have hactive := repeated_le hvalid hd ht hshort hne huncut hroom
  have hlast := (Span.scaledShift_le hendDelay hfactor).2
  have hshares := timelineFactor_mul_le ht hshort hne
  rw [hsum] at hshares
  push_cast at hshares
  have hu : 0 ≤ 1 - roundoff := by norm_num [roundoff]
  refine le_of_gain hshort ?_ ht.le
  push_cast
  calc _ ≤ (1 - roundoff) * ((1 + roundoff) ^ 4 * (p.timelineFactor timeline * p.delay.ns) +
          (1 + roundoff) ^ 4 * (p.timelineFactor timeline * p.activeDuration.ns) +
          (1 + roundoff) ^ 4 * (p.timelineFactor timeline * p.endDelay.ns)) :=
        mul_le_mul_of_nonneg_left (add_le_add (add_le_add hfirst hactive) hlast) hu
    _ = (1 + roundoff) ^ 4 * ((1 - roundoff) * (p.timelineFactor timeline *
          (p.delay.ns + p.activeDuration.ns + p.endDelay.ns))) := by ring
    _ ≤ (1 + roundoff) ^ 4 * ((1 + roundoff) * timeline.ns) :=
        mul_le_mul_of_nonneg_left hshares (by positivity)
    _ = (1 + roundoff) ^ 5 * timeline.ns := by ring

theorem ScalesEvenly.overBy (h : p.ScalesEvenly timeline) (hvalid : p.Valid) (ht : 0 < timeline.ns)
    (hshort : timeline.ns < 2 ^ 50) : (p.scaledTimes timeline).OverBy timeline.ns := by
  have hnumber := hvalid.value_nonneg
  cases hd : p.duration with
  | none =>
    simp only [ScalesEvenly, hd] at h
    have hle : timelineEnd none (value p.iterations) timeline ≤ timeline.ns := by
      rcases hnumber.eq_or_lt with hzero | hpos
      · rw [← hzero, timelineEnd, Span.scaledCount_zero_right]
        exact ht.le
      · exact timelineEnd_le ht hshort hpos (h.resolve_left hpos.ne')
    simp only [scaledTimes, hd, ScaledTimes.OverBy]
    omega
  | some d =>
    simp only [ScalesEvenly, hd] at h
    obtain ⟨hdelay, hendDelay, huncut, hroom⟩ := h
    simp only [scaledTimes, hd, ScaledTimes.OverBy]
    by_cases hne : p.timelineFactor timeline = 0
    · simp only [hne, Span.scaledShift_zero, Span.scaledCount_zero_right,
        Span.scaledCount_zero_left]
      omega
    have hfactor : 0 ≤ p.timelineFactor timeline := timelineFactor_nonneg ht
    have hsum := scaled_sum_le hvalid hd ht hshort hne hdelay hendDelay huncut hroom
    -- none of the three is negative, so none of them passes the timeline either
    have hfirst := (Span.scaledShift_le hdelay hfactor).1
    have hlast := (Span.scaledShift_le hendDelay hfactor).1
    have hactive := Span.scaledCount_nonneg
      (Span.scaledCount_nonneg (hvalid.nonneg_of_duration hd) hfactor) hnumber
    omega

/-! ### The end of normalized timing -/

/-- Valid timing can be normalized to any timeline duration, and the result ends with the timeline
or earlier exactly if the scaled times are over by then. On a timeline of less than `2 ^ 50`
nanoseconds they are, if they are scaled evenly: what the roundings gain stays below a nanosecond,
and is cut. -/
theorem normalize_endTime_le_iff (hvalid : p.Valid) (ht : isTimelineDuration timeline = true) :
    ∃ q, p.normalize timeline = .ok q ∧
      (q.endTime ≤ timeline ↔ (p.scaledTimes timeline).OverBy timeline.ns) ∧
      (timeline.ns < 2 ^ 50 → p.ScalesEvenly timeline → q.endTime ≤ timeline) := by
  obtain ⟨hpos, hends⟩ := isTimelineDuration_iff.mp ht
  have hlt : timeline.ns < 9223372036854775807 :=
    lt_of_le_of_ne timeline.ns_le (mt Span.eq_forever_iff.mpr hends)
  obtain ⟨q, hq, hvalid', hdelay, hactive, hendDelay⟩ := normalize_times hvalid ht
  have hiff : q.endTime ≤ timeline ↔ (p.scaledTimes timeline).OverBy timeline.ns := by
    rw [endTime_le_iff (activeDuration_nonneg hvalid') hpos.le hlt, hdelay, hactive, hendDelay,
      overBy_clamp_iff]
  exact ⟨q, hq, hiff, fun hshort heven => hiff.mpr (heven.overBy hvalid hpos hshort)⟩

/-- Two iterations between two delays. -/
def spaced : TimingOptions :=
  { delay := .clamp 1000000000, endDelay := .clamp 1000000000, duration := some (.clamp 3000000000)
    iterations := 2 }

theorem normalize_endTime_spaced :
    ∃ p q, ofOptions spaced = .ok p ∧ p.normalize progressTimeline = .ok q ∧
      q.endTime ≤ progressTimeline := by
  obtain ⟨p, hp, hduration, hiterations, hdelay, hendDelay, hactive, hend⟩ :
      ∃ p, ofOptions spaced = .ok p ∧ p.duration = some (.clamp 3000000000) ∧ p.iterations = 2 ∧
        p.delay.ns = 1000000000 ∧ p.endDelay.ns = 1000000000 ∧ p.activeDuration.ns = 6000000000 ∧
        p.endTime.ns = 8000000000 :=
    ⟨_, rfl, rfl, rfl, rfl, rfl, by decide +kernel, by decide +kernel⟩
  have htwo : HasValue 2 2 := by exact_mod_cast hasValue_ofNat_of_le (n := 2) (by norm_num)
  have heven : p.ScalesEvenly progressTimeline := by
    have hthree : (Span.clamp 3000000000).ns = 3000000000 := rfl
    simp only [ScalesEvenly, hduration, hdelay, hendDelay, hactive, hend, hiterations,
      htwo.value_eq, hthree]
    norm_num [progressTimeline]
  obtain ⟨q, hq, -, hshort⟩ := normalize_endTime_le_iff (valid_of_ofOptions hp)
    (show isTimelineDuration progressTimeline = true from rfl)
  exact ⟨p, q, hp, hq, hshort (by decide) heven⟩

/-- Seven seconds, of which the delays take two at either end. -/
def overlapping : TimingOptions :=
  { delay := .clamp (-2000000000), endDelay := .clamp (-2000000000),
    duration := some (.clamp 7000000000) }

/-- Both negative delays are cut towards zero, and what is cut adds up to a nanosecond. -/
theorem normalize_endTime_overlapping :
    ∃ p q, ofOptions overlapping = .ok p ∧ p.normalize progressTimeline = .ok q ∧
      q.endTime.ns = progressTimeline.ns + 1 :=
  ⟨_, _, rfl, rfl, by decide +kernel⟩

end TimingParams

end EffectTiming
