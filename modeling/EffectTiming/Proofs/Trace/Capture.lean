import Mathlib
import EffectTiming.Proofs.Binary64.Overflow
import EffectTiming.Proofs.Timing.InEffect
import EffectTiming.Proofs.Trace.File

/-!
# Which captured traces can be kept

A captured trace has one sample for each time. A sample keeps its progress in millionths, and for
that the progress is multiplied first: a finite progress becomes infinite if a million times it is
out of range. Then the trace has no text. The heights of a curve are not bounded, so that this
happens with usable easings too.
-/

namespace EffectTiming

open Binary64

/-! ### Rounded progress -/

/-- A million times the number is nearer to the greatest number than to `limit`. -/
def Keepable (x : Float) : Prop := |value x| * 1000000 < limit - topUnit / 2

theorem hasValue_million : HasValue 1000000 1000000 := by
  exact_mod_cast hasValue_ofNat_of_le (n := 1000000) (by norm_num)

/-- Rounding to millionths leads out of range exactly by the multiplication. -/
theorem isFinite_roundedProgress_iff {x : Float} {q : ℚ} (hx : HasValue x q) :
    isFinite (roundedProgress x) = true ↔ Keepable x := by
  have hproduct : isFinite (x * 1000000) = true ↔ Keepable x := by
    rw [isFinite_mul_iff hx hasValue_million, Keepable, hx.value_eq, abs_mul, Nat.abs_ofNat]
  rw [← hproduct, roundedProgress]
  cases hfinite : isFinite (x * 1000000) with
  | true =>
    obtain ⟨v, hv⟩ := isFinite_iff.mp hfinite
    obtain ⟨w, hw⟩ : ∃ w, HasValue (round (x * 1000000)) w := ⟨_, hv.round⟩
    have hsmall : |w / 1000000| < limit - topUnit / 2 := by
      have hle := hw.abs_le
      have hunit := topUnit_pos
      rw [abs_div, Nat.abs_ofNat]
      linarith [abs_nonneg w]
    have hquotient := (hw.div hasValue_million (by norm_num) (abs_rounded_lt hsmall)).isFinite
    split
    · simp [hasValue_zero.isFinite]
    · simp [hquotient]
  | false =>
    have hquotient : isFinite (x * 1000000 / 1000000) = false :=
      not_isFinite_div hfinite hasValue_million
    simp [round_of_not_finite hfinite, beq_of_not_finite hquotient hasValue_zero, hquotient]

/-! ### The text of a trace -/

namespace TraceSample

theorem exists_toJson_iff {s : TraceSample} :
    (∃ v, s.toJson = .ok v) ↔ ∀ x, s.progress = some x → isFinite x = true := by
  rw [toJson]
  cases s.progress with
  | none => simp [progressJson, Except.map]
  | some x => cases hx : isFinite x <;> simp [progressJson, hx, Except.map]

theorem isText_ofComputed (l : LocalTime) (c : ComputedTiming) :
    (ofComputed l c).isText = true := by
  simp only [ofComputed, isText]
  split <;> simp

end TraceSample

namespace Trace

variable {t : Trace}

/-- A trace has a text exactly if every progress in it is finite. -/
theorem exists_text_iff :
    (∃ s, t.text = .ok s) ↔
      ∀ s ∈ t.samples.getD [], ∀ x, s.progress = some x → isFinite x = true := by
  simp only [← TraceSample.exists_toJson_iff]
  rw [← exists_mapM_iff, text, toJson]
  cases t.samples with
  | none => exact ⟨fun _ => ⟨[], rfl⟩, fun _ => ⟨_, rfl⟩⟩
  | some samples =>
    show (∃ s, (Except.map _ (Except.map _ (Except.map _ (samples.mapM TraceSample.toJson)))) = _) ↔
      ∃ vs, samples.mapM TraceSample.toJson = _
    cases samples.mapM TraceSample.toJson with
    | error u => simp [Except.map]
    | ok vs => simp [Except.map]

/-- There is one sample for each of the times, in their order. -/
def TakenAt (p : TimingParams) (o : SampleOptions) : List Span → List TraceSample → Prop :=
  List.Forall₂ fun time s =>
    ∃ c, p.compute (.resolved time) o = .ok c ∧ s = .ofComputed (.resolved time) c

/-- Captured samples stand in the order of their times, after those that are there already. -/
theorem takenAt_of_foldlM {p : TimingParams} {o : SampleOptions} {times : List Span} {start : Trace}
    (h : times.foldlM (fun t time => (p.compute (.resolved time) o).map fun c =>
      t.push (.ofComputed (.resolved time) c)) start = .ok t) :
    t.name = start.name ∧
      ∃ samples, t.samples.getD [] = start.samples.getD [] ++ samples ∧
        TakenAt p o times samples := by
  induction times generalizing start with
  | nil =>
    cases h
    exact ⟨rfl, [], (List.append_nil _).symm, .nil⟩
  | cons time times ih =>
    rw [List.foldlM_cons] at h
    obtain ⟨next, hnext, h⟩ := exists_ok_of_bind h
    obtain ⟨c, hc, rfl⟩ := exists_ok_of_map hnext
    obtain ⟨hname, samples, hsamples, hall⟩ := ih h
    refine ⟨hname, .ofComputed (.resolved time) c :: samples, ?_, .cons ⟨c, hc, rfl⟩ hall⟩
    rw [hsamples]
    simp [push]

end Trace

/-! ### Moderate easings -/

/-- The control points of a curve are no higher than a millionth of `limit`, unless they are those
that belong to the name of the curve. -/
def Easing.Moderate : Easing → Prop
  | .named n c => c = n.curve ∨ |value c.y1| * 1000000 ≤ limit ∧ |value c.y2| * 1000000 ≤ limit
  | .bezier c => |value c.y1| * 1000000 ≤ limit ∧ |value c.y2| * 1000000 ≤ limit
  | _ => True

theorem abs_value_le_one {x : Float} (hx : isFinite x = true) (h0 : 0 ≤ x)
    (h1 : x ≤ 1) : |value x| ≤ 1 := by
  obtain ⟨q, hq⟩ := isFinite_iff.mp hx
  rw [hasValue_zero.le_iff hq] at h0
  rw [hq.le_iff hasValue_one] at h1
  rw [hq.value_eq, abs_of_nonneg h0]
  exact h1

theorem NamedCurve.abs_heights_le (n : NamedCurve) :
    |value n.curve.y1| ≤ 1 ∧ |value n.curve.y2| ≤ 1 := by
  cases n <;> exact ⟨abs_value_le_one (by decide +kernel) (by decide +kernel) (by decide +kernel),
    abs_value_le_one (by decide +kernel) (by decide +kernel) (by decide +kernel)⟩

theorem millionth_of_limit : (2 : ℚ) ^ 70 ≤ limit / 1000000 := by
  have hpow := pow_lt_limit (k := 90) (by norm_num)
  norm_num at hpow ⊢
  linarith

theorem keepable_of_abs_le {x : Float} {q : ℚ} (hx : HasValue x q)
    (hq : |q| ≤ 49 / 50 * (limit / 1000000)) :
    Keepable x := by
  have hunit := topUnit_pos
  rw [Keepable, hx.value_eq]
  rw [limit] at hq ⊢
  linarith

theorem keepable_of_atMost {x : Float} (hx : AtMost x 66) : Keepable x := by
  obtain ⟨q, hq, hle⟩ := hx
  have hlarge := millionth_of_limit
  refine keepable_of_abs_le hq (hle.trans ?_)
  norm_num at hlarge ⊢
  linarith

/-- The heights of a curve exceed those of its control points by no more than rounding does, so the
bound for these is enough. -/
theorem Bezier.keepable_eval {c : Bezier} (hc : c.fault? = none)
    (h1 : |value c.y1| * 1000000 ≤ limit) (h2 : |value c.y2| * 1000000 ≤ limit) {x : Float} {q : ℚ}
    (hx : HasValue x q) : Keepable (c.eval x) := by
  have hlarge := millionth_of_limit
  have hpos := hundred_le_limit
  obtain ⟨v, hv, hle⟩ := eval_le hc hx (b := limit / 1000000) (by linarith) (by linarith)
    (by norm_num at hlarge; linarith) (by linarith)
  exact keepable_of_abs_le hv hle

theorem Easing.keepable_eval {e : Easing} (h : e.fault? = none) (hm : e.Moderate)
    {x : Float} (hx : AtMost x 1) (before : Bool) : Keepable (e.eval x before) := by
  obtain ⟨q, hq, -⟩ := id hx
  cases e with
  | linear => exact keepable_of_atMost (hx.mono (by norm_num))
  | steps s => exact keepable_of_atMost (Staircase.atMost_eval h hx before)
  | bezier c => exact Bezier.keepable_eval h hm.1 hm.2 hq
  | named n c =>
    rcases hm with rfl | ⟨h1, h2⟩
    · obtain ⟨h1, h2⟩ := n.abs_heights_le
      have hlarge := millionth_of_limit
      norm_num at hlarge
      exact Bezier.keepable_eval h (by linarith) (by linarith) hq
    · exact Bezier.keepable_eval h h1 h2 hq

namespace TimingParams

variable {p : TimingParams} {time : Span} {o : SampleOptions} {c : ComputedTiming} {x : Float}

/-- A progress that is shown is the easing of some progress of moderate size. -/
theorem exists_eval_of_progress (h : p.Valid) (hc : p.compute (.resolved time) o = .ok c)
    (hx : c.progress = some x) : ∃ y before, AtMost y 1 ∧ x = p.easing.eval y before := by
  have hsampled := sampled_of_compute hc
  cases hsampled with
  | unfilled _ _ => cases hx
  | shown _ happlies =>
    cases hx
    refine ⟨_, _, atMost_simpleIn h fun hover => ?_, rfl⟩
    rw [compute_of_overflowsAt h ⟨time, rfl, happlies, hover⟩] at hc
    cases hc

end TimingParams

/-! ### Captured traces -/

namespace Trace

variable {p : TimingParams} {o : SampleOptions} {name : RawText} {times : List Span} {t : Trace}

/-- What the samples keep is the rounded progress of the samples taken. -/
theorem finite_samples_iff {samples : List TraceSample} (h : TakenAt p o times samples) :
    (∀ s ∈ samples, ∀ x, s.progress = some x → isFinite x = true) ↔
      ∀ time ∈ times, ∀ c x, p.compute (.resolved time) o = .ok c → c.progress = some x →
        isFinite (roundedProgress x) = true := by
  induction h with
  | nil => simp
  | @cons time s times samples hs _ ih =>
    obtain ⟨c, hc, rfl⟩ := hs
    rw [List.forall_mem_cons, List.forall_mem_cons, ih]
    refine and_congr_left fun _ => ?_
    simp only [hc, TraceSample.ofComputed, Option.map_eq_some_iff, forall_exists_index, and_imp,
      forall_apply_eq_imp_iff₂, Except.ok.injEq]
    constructor
    · rintro hfinite _ x rfl hx
      exact hfinite x hx
    · intro hfinite x hx
      exact hfinite c x rfl hx

theorem isText_samples {samples : List TraceSample} (h : TakenAt p o times samples) :
    samples.all TraceSample.isText = true := by
  induction h with
  | nil => rfl
  | cons hs _ ih =>
    obtain ⟨c, -, rfl⟩ := hs
    rw [List.all_cons, TraceSample.isText_ofComputed, ih]
    rfl

/-- A captured trace has a text exactly if every progress that is shown at one of its times is kept
as a finite number. The text is read back as the trace is shown, which is as it is if its name has
no stray bytes. -/
theorem text_capture_iff {d : TimingOptions} (hp : TimingParams.ofOptions d = .ok p)
    (h : capture name p o times = .ok t) :
    ((∃ s, t.text = .ok s ∧ read s = .ok t.shown) ↔
        ∀ time ∈ times, ∀ c x, p.compute (.resolved time) o = .ok c → c.progress = some x →
          Keepable x) ∧
      (p.easing.Moderate → ∃ s, t.text = .ok s ∧ read s = .ok t.shown) ∧
      (name.isText = true → t.shown = t) := by
  have hvalid := TimingParams.valid_of_ofOptions hp
  obtain ⟨hname, samples, hsamples, hall⟩ := takenAt_of_foldlM h
  have hkeepable : ∀ time c x, p.compute (.resolved time) o = .ok c → c.progress = some x →
      (isFinite (roundedProgress x) = true ↔ Keepable x) := by
    intro time c x hc hx
    obtain ⟨y, before, hy, rfl⟩ := TimingParams.exists_eval_of_progress hvalid hc hx
    obtain ⟨v, hv⟩ := Easing.eval_hasValue hvalid.easing hy before
    exact isFinite_roundedProgress_iff hv
  have htext : (∃ s, t.text = .ok s ∧ read s = .ok t.shown) ↔ ∀ time ∈ times, ∀ c x,
      p.compute (.resolved time) o = .ok c → c.progress = some x → Keepable x := by
    have hread : (∃ s, t.text = .ok s ∧ read s = .ok t.shown) ↔ ∃ s, t.text = .ok s :=
      exists_congr fun s => and_iff_left_of_imp read_text
    rw [hread, exists_text_iff, hsamples]
    refine (finite_samples_iff hall).trans ?_
    exact forall₂_congr fun time _ => forall₂_congr fun c x => forall₂_congr (hkeepable time c x)
  refine ⟨htext, fun hmoderate => htext.mpr fun time _ c x hc hx => ?_,
    fun hnamed => shown_of_isText ?_⟩
  · obtain ⟨y, before, hy, rfl⟩ := TimingParams.exists_eval_of_progress hvalid hc hx
    exact Easing.keepable_eval hvalid.easing hmoderate hy before
  · rw [isText, hname, hsamples, Bool.and_eq_true]
    exact ⟨hnamed, isText_samples hall⟩

/-- Two nanoseconds on a curve whose control points are both at the height with the given bits. -/
def raised (height : UInt64) : TimingOptions :=
  { duration := some { ns := 2 }
    easing := .bezier ⟨0, Float.ofBits height, 1, Float.ofBits height⟩ }

theorem moderate_raised : (raised 0x7ea2aa4f4a405be2).easing.Moderate := by
  obtain ⟨q, hq⟩ :=
    isFinite_iff.mp (show isFinite (Float.ofBits 0x7ea2aa4f4a405be2) = true by decide +kernel)
  have hproduct := (isFinite_mul_iff hq hasValue_million).mp (by decide +kernel)
  have hunit := topUnit_pos
  rw [abs_mul, Nat.abs_ofNat] at hproduct
  rw [raised, Easing.Moderate, hq.value_eq, and_self]
  linarith

/-- With control points at `1e302`, what is captured can be kept. -/
theorem text_capture_raised :
    ∃ p, TimingParams.ofOptions (raised 0x7ea2aa4f4a405be2) = .ok p ∧ p.easing.Moderate ∧
      ∃ t, capture "raised" p {} [{ ns := 1 }] = .ok t ∧ ∃ s, t.text = .ok s ∧ read s = .ok t := by
  refine ⟨_, rfl, moderate_raised, ?_⟩
  refine (exists_ok_of_toOption (f := fun _ => ()) (b := ()) ?_).imp fun t ht => ⟨ht.1, ?_⟩
  · decide +kernel
  · obtain ⟨-, hkept, hshown⟩ := text_capture_iff (d := raised 0x7ea2aa4f4a405be2) rfl ht.1
    obtain ⟨s, hs, hread⟩ := hkept moderate_raised
    exact ⟨s, hs, hshown rfl ▸ hread⟩

/-- With control points at `1e308`, the progress after one of the two nanoseconds cannot be kept. -/
theorem no_text_capture_raised :
    ∃ p, TimingParams.ofOptions (raised 0x7fe1ccf385ebc8a0) = .ok p ∧
      ∃ t, capture "raised" p {} [{ ns := 1 }] = .ok t ∧
        t.text.mapError UnwritableNumber.message = .error "json: unsupported value: +Inf" := by
  refine ⟨_, rfl, exists_ok_of_toOption ?_⟩
  decide +kernel

end Trace

end EffectTiming
