import Mathlib
import EffectTiming.Easing.Basic
import EffectTiming.Proofs.Binary64.Whole
import EffectTiming.Proofs.Easing.Newton

/-!
# Easings keep progress finite

A usable easing turns finite progress of moderate size into finite progress, and hands on the number
that equals nothing.

## Main statements

* `Easing.eval_hasValue`: the eased progress is finite.
* `Easing.eval_notANumber`: no number stays no number.
-/

namespace EffectTiming

open Binary64

/-! ### Parameters in the unit interval -/

/-- `x` is a number of the unit interval. -/
def InUnit (x : Float) : Prop := ∃ q, HasValue x q ∧ 0 ≤ q ∧ q ≤ 1

theorem inUnit_zero : InUnit 0 := ⟨0, hasValue_zero, le_rfl, zero_le_one⟩

theorem inUnit_one : InUnit 1 := ⟨1, hasValue_one, zero_le_one, le_rfl⟩

theorem inUnit_clampUnit {x : Float} {q : ℚ} (h : HasValue x q) : InUnit (clampUnit x) := by
  rw [clampUnit]
  split
  · exact inUnit_zero
  · rename_i hneg
    split
    · exact inUnit_one
    · rename_i hlarge
      rw [h.lt_iff hasValue_zero, not_lt] at hneg
      rw [gt_iff_lt, hasValue_one.lt_iff h, not_lt] at hlarge
      exact ⟨q, h, hneg, hlarge⟩

theorem hasValue_half : HasValue 0.5 (1 / 2) := by
  have h : (0.5 : Float).toModel.unpack = .finite .positive 4503599627370496 (-53) (by decide) :=
    rfl
  have := hasValue_of_unpack h
  norm_num [signed] at this
  exact this

theorem two_lt_limit : 2 < limit := by
  simpa using pow_lt_limit (k := 1) (by norm_num)

/-- The middle of two numbers of the unit interval lies between any bounds that these have there,
and is exact up to two roundings. -/
theorem hasValue_middle {x y : Float} {l h p q : ℚ} (hx : HasValue x l) (hy : HasValue y h)
    (hp : Representable p) (hq : Representable q) (hp0 : 0 ≤ p) (hq1 : q ≤ 1) (hl : p ≤ l ∧ l ≤ q)
    (hh : p ≤ h ∧ h ≤ q) :
    ∃ m, HasValue ((x + y) * 0.5) m ∧ p ≤ m ∧ m ≤ q ∧ |m - (l + h) / 2| ≤ 2 * roundoff := by
  have hdouble : ∀ {r}, Representable r → Representable (2 * r) := by
    rintro _ ⟨m, e, hm, he, rfl⟩
    refine ⟨m, e + 1, hm, by omega, ?_⟩
    rw [zpow_add_one₀ (by norm_num)]
    ring
  have hlow : 2 * p ≤ rounded (l + h) := le_rounded (hdouble hp) (by linarith [hl.1, hh.1])
  have hhigh : rounded (l + h) ≤ 2 * q := rounded_le (hdouble hq) (by linarith [hl.2, hh.2])
  have hlow' : p ≤ rounded (rounded (l + h) * (1 / 2)) := le_rounded hp (by linarith)
  have hhigh' : rounded (rounded (l + h) * (1 / 2)) ≤ q := rounded_le hq (by linarith)
  have hlimit := two_lt_limit
  have hsum := hx.add hy (abs_lt.mpr ⟨by linarith, by linarith⟩)
  refine ⟨_, hsum.mul hasValue_half (abs_lt.mpr ⟨by linarith, by linarith⟩), hlow', hhigh', ?_⟩
  have hsize : |l + h| ≤ 2 := abs_le.mpr ⟨by linarith [hl.1, hh.1], by linarith [hl.2, hh.2]⟩
  have herr := abs_rounded_sub_le hsize (leastNormal_le_one.trans (by norm_num))
  have hsize' : |rounded (l + h) * (1 / 2)| ≤ 1 := abs_le.mpr ⟨by linarith, by linarith⟩
  have herr' := abs_rounded_sub_le hsize' leastNormal_le_one
  rw [← roundoff_eq] at herr herr'
  have herr := abs_le.mp herr
  have herr' := abs_le.mp herr'
  exact abs_le.mpr ⟨by linarith, by linarith⟩

theorem InUnit.middle {x y : Float} (hx : InUnit x) (hy : InUnit y) : InUnit ((x + y) * 0.5) := by
  obtain ⟨p, hp, hp01⟩ := hx
  obtain ⟨q, hq, hq01⟩ := hy
  obtain ⟨m, hm, hm0, hm1, -⟩ :=
    hasValue_middle hp hq hasValue_zero.representable representable_one le_rfl le_rfl hp01 hq01
  exact ⟨m, hm, hm0, hm1⟩

namespace Bezier

variable {c : Bezier} {t : Float}

/-- Halving does not leave the unit interval. -/
theorem inUnit_bisect {n : ℕ} {lo hi u : Float} (hlo : InUnit lo)
    (hhi : InUnit hi) (hu : InUnit u) :
    InUnit (bisect c t n lo hi u) := by
  induction n generalizing lo hi u with
  | zero => exact hu
  | succ n ih =>
    rw [bisect]
    split
    · exact hu
    · split
      · exact ih hlo hu (hlo.middle hu)
      · exact ih hu hhi (hu.middle hhi)

/-- A rounded number exceeds a bound in proportion to it. -/
theorem abs_rounded_le_add {z b : ℚ} (hz : |z| ≤ b) (hb : 1 ≤ b) :
    |rounded z| ≤ b + roundoff * b := by
  have herr := abs_rounded_sub_le hz (leastNormal_le_one.trans hb)
  rw [← roundoff_eq] at herr
  calc |rounded z| = |(rounded z - z) + z| := by ring_nf
    _ ≤ |rounded z - z| + |z| := abs_add_le _ _
    _ ≤ b + roundoff * b := by linarith

theorem weight_le {u : ℚ} (h1 : u ≤ 1) : 3 * (1 - u) * (1 - u) * u ≤ 4 / 9 := by
  have : 4 / 9 - 3 * (1 - u) * (1 - u) * u = 3 * ((u - 1 / 3) ^ 2 * (4 / 3 - u)) := by ring
  have : 0 ≤ (u - 1 / 3) ^ 2 * (4 / 3 - u) := mul_nonneg (sq_nonneg _) (by linarith)
  linarith

/-- A height times a weight below one half. -/
theorem weighed_hasValue {w y : Float} {p r b : ℚ} (hw : HasValue w r) (hr : |r| ≤ 9 / 20)
    (hy : HasValue y p) (hp : |p| ≤ b) (hb : 100 ≤ b) (hlimit : b ≤ limit) :
    ∃ v, HasValue (w * y) v ∧ |v| ≤ 23 / 50 * b := by
  have hz : |r * p| ≤ 9 / 20 * b := by
    rw [abs_mul]
    gcongr
  have hbound : |rounded (r * p)| ≤ 23 / 50 * b := by
    refine (abs_rounded_le_add hz (by linarith)).trans ?_
    rw [roundoff]
    linarith
  exact ⟨_, hw.mul hy (by linarith), hbound⟩

/-- The weights of the two control points are below one half, so that heights up to the greatest
number may be weighed and added. -/
theorem coordinate_le {y1 y2 : Float} {p q b : ℚ} (h1 : HasValue y1 p)
    (h2 : HasValue y2 q) (hp : |p| ≤ b) (hq : |q| ≤ b) (hb : 100 ≤ b)
    (hlimit : b ≤ limit) (ht : InUnit t) :
    ∃ v, HasValue (coordinate y1 y2 t) v ∧ |v| ≤ 49 / 50 * b := by
  obtain ⟨u, hu, hu0, hu1⟩ := ht
  have huabs : |u| ≤ 1 := abs_le.mpr ⟨by linarith, hu1⟩
  have hroom : 100 * (1 : ℚ) ^ 3 ≤ limit / 4 := room_of_le (by norm_num) (by norm_num)
  have hpos : 0 ≤ (1 - u) * u := mul_nonneg (by linarith) hu0
  obtain ⟨r1, hr1, hr1'⟩ := (near_firstWeight hu le_rfl huabs hroom).close
  obtain ⟨r2, hr2, hr2'⟩ := (near_secondWeight hu le_rfl huabs hroom).close
  obtain ⟨r3, hr3, hr3'⟩ := (near_lastWeight hu le_rfl huabs hroom).close
  norm_num [roundoff] at hr1' hr2' hr3'
  have hw1 : |r1| ≤ 9 / 20 := by
    have hlow : 0 ≤ 3 * (1 - u) * (1 - u) * u := by nlinarith
    have hhigh := weight_le hu1
    have := abs_le.mp hr1'
    exact abs_le.mpr ⟨by linarith, by linarith⟩
  have hw2 : |r2| ≤ 9 / 20 := by
    have hlow : 0 ≤ 3 * (1 - u) * u * u := by nlinarith
    have hhigh := weight_le (u := 1 - u) (by linarith)
    have := abs_le.mp hr2'
    exact abs_le.mpr ⟨by linarith, by linarith⟩
  have hw3 : |r3| ≤ 2 := by
    have hcube : |u * u * u| ≤ 1 := by
      rw [abs_mul, abs_mul]
      nlinarith [abs_nonneg u, mul_nonneg (abs_nonneg u) (abs_nonneg u)]
    have := abs_le.mp hcube
    have := abs_le.mp hr3'
    exact abs_le.mpr ⟨by linarith, by linarith⟩
  -- two weights of less than a half keep the sum of two numbers of any size in range
  obtain ⟨v1, hv1, hv1'⟩ := weighed_hasValue hr1 hw1 h1 hp hb hlimit
  obtain ⟨v2, hv2, hv2'⟩ := weighed_hasValue hr2 hw2 h2 hq hb hlimit
  have hsum : |rounded (v1 + v2)| ≤ 47 / 50 * b := by
    refine (abs_rounded_le_add (b := 46 / 50 * b) ?_ (by linarith)).trans ?_
    · have := abs_add_le v1 v2
      linarith
    · rw [roundoff]
      linarith
  have hlast : |rounded (rounded (v1 + v2) + r3)| ≤ 49 / 50 * b := by
    have := abs_add_le (rounded (v1 + v2)) r3
    refine (abs_rounded_le_add (b := 48 / 50 * b + 1) ?_ (by linarith)).trans ?_
    · linarith
    · rw [roundoff]
      linarith
  exact ⟨_, (hv1.add hv2 (by linarith)).add hr3 (by linarith), hlast⟩

/-- The control points of a usable curve. -/
theorem exists_of_fault?_eq_none (h : c.fault? = none) :
    ∃ a b p q, HasValue c.x1 a ∧ HasValue c.x2 b ∧ HasValue c.y1 p ∧ HasValue c.y2 q ∧
      0 ≤ a ∧ a ≤ 1 ∧ 0 ≤ b ∧ b ≤ 1 := by
  rw [fault?] at h
  split at h
  · exact absurd h (by simp)
  · rename_i hfinite
    split at h
    · exact absurd h (by simp)
    · rename_i hbox
      simp only [values, List.any_cons, List.any_nil, Bool.or_false, Bool.or_eq_true,
        Bool.not_eq_true', not_or, Bool.not_eq_false] at hfinite
      obtain ⟨hx1, hy1, hx2, hy2⟩ := hfinite
      obtain ⟨a, ha⟩ := isFinite_iff.mp hx1
      obtain ⟨p, hp⟩ := isFinite_iff.mp hy1
      obtain ⟨b, hb⟩ := isFinite_iff.mp hx2
      obtain ⟨q, hq⟩ := isFinite_iff.mp hy2
      simp only [Bool.or_eq_true, decide_eq_true_eq, not_or, gt_iff_lt, ha.lt_iff hasValue_zero,
        hasValue_one.lt_iff ha, hb.lt_iff hasValue_zero, hasValue_one.lt_iff hb, not_lt] at hbox
      obtain ⟨⟨⟨ha0, ha1⟩, hb0⟩, hb1⟩ := hbox
      exact ⟨a, b, p, q, ha, hb, hp, hq, ha0, ha1, hb0, hb1⟩

/-- The heights of a usable curve are bounded by those of its control points. -/
theorem eval_le (hc : c.fault? = none) {τ b : ℚ} (ht : HasValue t τ) (h1 : |value c.y1| ≤ b)
    (h2 : |value c.y2| ≤ b) (hb : 100 ≤ b) (hlimit : b ≤ limit) :
    ∃ v, HasValue (c.eval t) v ∧ |v| ≤ 49 / 50 * b := by
  obtain ⟨a, d, p, q, ha, hd, hp, hq, ha0, ha1, hd0, hd1⟩ := exists_of_fault?_eq_none hc
  rw [hp.value_eq] at h1
  rw [hq.value_eq] at h2
  rw [eval]
  split
  · exact ⟨0, hasValue_zero, by rw [abs_zero]; linarith⟩
  · rename_i hlow
    split
    · exact ⟨1, hasValue_one, by rw [abs_one]; linarith⟩
    · rename_i hhigh
      rw [ht.le_iff hasValue_zero, not_le] at hlow
      rw [ge_iff_le, hasValue_one.le_iff ht, not_le] at hhigh
      have hposed : Posed c t a d τ := ⟨ha, hd, ht, ha0, ha1, hd0, hd1, hlow.le, hhigh.le⟩
      obtain ⟨u, hu⟩ := hposed.newton_hasValue
      cases hsearch : newton c t 8 t with
      | solved x =>
        rw [hsearch] at hu
        exact coordinate_le hp hq h1 h2 hb hlimit (inUnit_clampUnit hu)
      | stalled x =>
        rw [hsearch] at hu
        exact coordinate_le hp hq h1 h2 hb hlimit
          (inUnit_bisect inUnit_zero inUnit_one (inUnit_clampUnit hu))

theorem hundred_le_limit : 100 ≤ limit :=
  (by norm_num : (100 : ℚ) ≤ 2 ^ 7).trans (pow_lt_limit (by norm_num)).le

/-- A usable curve has a finite height over every number. -/
theorem eval_hasValue (hc : c.fault? = none) {τ : ℚ} (ht : HasValue t τ) :
    ∃ v, HasValue (c.eval t) v := by
  obtain ⟨-, -, p, q, -, -, hp, hq, -⟩ := exists_of_fault?_eq_none hc
  obtain ⟨v, hv, -⟩ := eval_le hc ht (hp.value_eq ▸ hp.abs_lt.le) (hq.value_eq ▸ hq.abs_lt.le)
    hundred_le_limit le_rfl
  exact ⟨v, hv⟩

/-! ### No number on a curve -/

@[simp]
theorem coordinate_notANumber (a b : Float) : coordinate a b notANumber = notANumber := by
  simp [coordinate]

@[simp]
theorem slope_notANumber (a b : Float) : slope a b notANumber = notANumber := by
  simp [slope]

theorem newton_notANumber (n : ℕ) : newton c notANumber n notANumber = .stalled notANumber := by
  induction n with
  | zero => rfl
  | succ n ih => simp [newton, ih]

theorem bisect_notANumber (n : ℕ) (lo hi : Float) :
    bisect c notANumber n lo hi notANumber = notANumber := by
  induction n generalizing lo hi with
  | zero => rfl
  | succ n ih => simp [bisect, ih]

theorem eval_notANumber (c : Bezier) : c.eval notANumber = notANumber := by
  simp [eval, newton_notANumber, clampUnit, bisect_notANumber]

end Bezier

/-! ### Steps -/

namespace Staircase

variable {s : Staircase} {x : Float}

/-- What a usable step function promises. -/
theorem exists_position (h : s.fault? = none) : ∃ p, s.position = .known p ∧ 0 ≤ s.count := by
  rw [fault?] at h
  split at h
  · cases h
  · rename_i p hp
    split_ifs at h
    exact ⟨p, hp, by omega⟩

/-- A number of jumps that is not zero. -/
theorem one_le_abs_ofInt {n : ℤ} (hn : n ≠ 0) (hle : |n| ≤ 2 ^ 63) :
    ∃ q, HasValue (Float.ofInt n) q ∧ 1 ≤ |q| := by
  have hsize : |rounded n| ≤ 2 ^ 63 := abs_rounded_le_pow (by exact_mod_cast hle)
  refine ⟨_, hasValue_ofInt n (hsize.trans_lt (pow_lt_limit (by norm_num))), ?_⟩
  rcases lt_or_gt_of_ne hn with hneg | hpos
  · have : rounded n ≤ -1 :=
      rounded_le representable_one.neg (by exact_mod_cast Int.le_sub_one_of_lt hneg)
    exact le_abs.mpr (Or.inr (by linarith))
  · have : 1 ≤ rounded n := le_rounded representable_one (by exact_mod_cast hpos)
    exact le_abs.mpr (Or.inl this)

theorem abs_signed_le (n : ℤ) : |Word.signed n| ≤ 2 ^ 63 := by
  have h1 := Word.neg_half_le_signed n
  have h2 := Word.signed_le n
  exact abs_le.mpr ⟨by omega, by omega⟩

theorem abs_count_le (s : Staircase) : |s.count| ≤ 2 ^ 63 := by
  have h1 := s.least_le
  have h2 := s.le_greatest
  exact abs_le.mpr ⟨by omega, by omega⟩

theorem signed_ne_zero {n : ℤ} (hpos : 0 < n) (hlt : n < 18446744073709551616) :
    Word.signed n ≠ 0 := by
  intro h
  have : (18446744073709551616 : ℤ) ∣ n := Int.dvd_of_bmod_eq_zero h
  omega

/-- The number of jumps is that of a word that is not zero. -/
theorem exists_jumps (h : s.fault? = none) :
    ∃ n : ℤ, s.jumps = Float.ofInt n ∧ n ≠ 0 ∧ |n| ≤ 2 ^ 63 := by
  have hle := s.le_greatest
  rw [fault?] at h
  rw [jumps]
  split at h
  · exact absurd h (by simp)
  · rename_i p hp
    split_ifs at h with hnone hcount
    have hcount' : 1 ≤ s.count := by omega
    cases p with
    | jumpBoth =>
      rw [hp]
      exact ⟨_, rfl, signed_ne_zero (by omega) (by omega), abs_signed_le _⟩
    | jumpNone =>
      have : 2 ≤ s.count := by
        by_contra hlt
        exact hnone ⟨rfl, by omega⟩
      rw [hp]
      exact ⟨_, rfl, signed_ne_zero (by omega) (by omega), abs_signed_le _⟩
    | jumpEnd | jumpStart | start | finish =>
      rw [hp]
      exact ⟨_, rfl, by omega, s.abs_count_le⟩

/-- A usable step function keeps to numbers of moderate size. -/
theorem atMost_eval (hs : s.fault? = none) (hx : AtMost x 1) (before : Bool) :
    AtMost (s.eval x before) 66 := by
  obtain ⟨n, hn, hn0, hnle⟩ := exists_jumps hs
  obtain ⟨q, hq, hq1⟩ := one_le_abs_ofInt hn0 hnle
  have hjumps : AtMost s.jumps 66 := by
    rw [hn]
    exact (atMost_ofInt hnle (by norm_num)).mono (by norm_num)
  rw [← hn] at hq
  have hscaled : AtMost (x * Float.ofInt s.count) 64 :=
    hx.mul (atMost_ofInt s.abs_count_le (by norm_num)) (by norm_num)
  have hfirst : AtMost (if s.jumpsFirst then Binary64.floor (x * Float.ofInt s.count) + 1
      else Binary64.floor (x * Float.ofInt s.count)) 65 := by
    split
    · exact hscaled.floor.add (atMost_one 64) (by norm_num)
    · exact hscaled.floor.mono (by norm_num)
  -- each of the choices that follow keeps to `2 ^ 66`
  rw [eval]
  generalize (if s.jumpsFirst then Binary64.floor (x * Float.ofInt s.count) + 1
      else Binary64.floor (x * Float.ofInt s.count)) = step at hfirst ⊢
  have hlower : AtMost (if before && Binary64.fraction (x * Float.ofInt s.count) == 0 then step - 1
      else step) 66 := by
    split
    · exact hfirst.sub (atMost_one 65) (by norm_num)
    · exact hfirst.mono (by norm_num)
  generalize (if before && Binary64.fraction (x * Float.ofInt s.count) == 0 then step - 1
      else step) = step at hlower ⊢
  have hfloor : AtMost (if x ≥ 0 && step < 0 then 0 else step) 66 := by
    split
    · exact atMost_zero 66
    · exact hlower
  generalize (if x ≥ 0 && step < 0 then 0 else step) = step at hfloor ⊢
  have hceiling : AtMost (if x ≤ 1 && step > s.jumps then s.jumps else step) 66 := by
    split
    · exact hjumps
    · exact hfloor
  exact hceiling.div hq hq1 (by norm_num)

theorem eval_notANumber (s : Staircase) (before : Bool) :
    s.eval notANumber before = notANumber := by
  simp [eval]

end Staircase

/-! ### All easings -/

namespace Easing

/-- A usable easing keeps progress finite. -/
theorem eval_hasValue {e : Easing} (h : e.fault? = none) {x : Float}
    (hx : AtMost x 1) (before : Bool) :
    ∃ v, HasValue (e.eval x before) v := by
  obtain ⟨q, hq, hle⟩ := hx
  cases e with
  | linear => exact ⟨q, hq⟩
  | named n c => exact Bezier.eval_hasValue h hq
  | bezier c => exact Bezier.eval_hasValue h hq
  | steps s =>
    obtain ⟨v, hv, -⟩ := Staircase.atMost_eval h ⟨q, hq, hle⟩ before
    exact ⟨v, hv⟩

/-- No easing makes a number of none. -/
theorem eval_notANumber (e : Easing) (before : Bool) : e.eval notANumber before = notANumber := by
  cases e with
  | linear => rfl
  | named n c => exact Bezier.eval_notANumber c
  | bezier c => exact Bezier.eval_notANumber c
  | steps s => exact Staircase.eval_notANumber s before

end Easing

end EffectTiming
