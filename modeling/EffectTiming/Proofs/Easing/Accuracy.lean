import Mathlib
import EffectTiming.Proofs.Easing.Confined
import EffectTiming.Proofs.Easing.Finite

/-!
# How near a solved parameter comes

On a curve along the diagonal, where heights and coordinates have the same control values, the
height over a target shows how well the search has met it. A parameter that passes the test is
within the tolerance, also one that was found outside of the unit interval and moved to its end. If
no parameter passes, the halvings still bound the distance, since the curve does not climb faster
than three to one.
-/

namespace EffectTiming.Bezier

open Binary64

variable {a b τ u v : ℚ} {c : Bezier} {t p x d : Float}

/-! ### Tests against the tolerance -/

theorem abs_lt_of_lt_tolerance (hd : HasValue d v) (h : d.abs < tolerance) :
    |v| < 1 / 10000000 := by
  rw [hd.abs.lt_iff hasValue_tolerance] at h
  refine h.trans ?_
  norm_num

/-- A difference that is computed below the tolerance is below it. -/
theorem abs_sub_lt_of_met (hx : HasValue x v) (ht : HasValue t τ)
    (hsize : |rounded (v - τ)| < limit) (h : (x - t).abs < tolerance) : |v - τ| < 1 / 10000000 := by
  rw [(hx.sub ht hsize).abs.lt_iff hasValue_tolerance] at h
  refine lt_of_not_ge fun hlarge => absurd h (not_lt.mpr ?_)
  have hbound : 7555786372591432 * 2 ^ (-76 : ℤ) ≤ |v - τ| := le_trans (by norm_num) hlarge
  rcases le_abs.mp hbound with hpos | hneg
  · exact (le_rounded hasValue_tolerance.representable hpos).trans (le_abs_self _)
  · have := le_rounded hasValue_tolerance.representable hneg
    rw [rounded_neg] at this
    exact this.trans (neg_le_abs _)

theorem margin_le_abs_sub (hx : HasValue x v) (ht : HasValue t τ) (hsize : |v - τ| ≤ 1)
    (h : ¬ (x - t).abs < tolerance) : margin ≤ |v - τ| := by
  have hround := abs_rounded_sub_le hsize leastNormal_le_one
  rw [← roundoff_eq, roundoff] at hround
  have hrange : |rounded (v - τ)| < limit := by
    have := abs_sub_abs_le_abs_sub (rounded (v - τ)) (v - τ)
    linarith [two_lt_limit]
  rw [(hx.sub ht hrange).abs.lt_iff hasValue_tolerance, not_lt] at h
  have := abs_sub_abs_le_abs_sub (rounded (v - τ)) (v - τ)
  norm_num [margin] at h ⊢
  linarith

/-! ### Newton's steps -/

theorem Posed.computed_reach (h : Posed c t a b τ) (hp : HasValue p u) (hr : reach u ≤ 4294967296) :
    ∃ X D, HasValue (coordinate c.x1 c.x2 p - t) X ∧ HasValue (slope c.x1 c.x2 p) D ∧
      Computed a b τ u (reach u) X D :=
  h.computed hp (one_le_reach u) (abs_le_reach u)
    (room_of_le (by linarith [one_le_reach u]) (hr.trans (by norm_num)))

theorem Posed.computed_unit (h : Posed c t a b τ) (hp : HasValue p u) (h0 : 0 ≤ u) (h1 : u ≤ 1) :
    ∃ X, HasValue (coordinate c.x1 c.x2 p - t) X ∧ |X - (cubic a b u - τ)| ≤ fault := by
  have hreach := reach_of_mem h0 h1
  obtain ⟨X, D, hX, -, hc⟩ := h.computed_reach hp (by rw [hreach]; norm_num)
  have hdistance := hc.distance
  rw [hreach, one_pow, mul_one] at hdistance
  exact ⟨X, hX, hdistance⟩

/-- A step that is taken is a stride. -/
theorem Posed.exists_stride (h : Posed c t a b τ) (hp : HasValue p u) (hr : reach u ≤ 4294967296)
    (hfar : ¬ (coordinate c.x1 c.x2 p - t).abs < tolerance)
    (hsteep : ¬ (slope c.x1 c.x2 p).abs < tolerance) :
    ∃ v X D, HasValue (step c t p) v ∧ Stride a b τ u v X D := by
  have hone := one_le_reach u
  obtain ⟨X, D, hX, hD, hc⟩ := h.computed_reach hp hr
  have hX' := margin_le hX hfar
  have hD' := margin_le hD hsteep
  have hpos : 0 < |D| := margin_pos.trans_le hD'
  have hcube : reach u ^ 3 ≤ 4294967296 ^ 3 := by gcongr
  have hcube1 : 1 ≤ reach u ^ 3 := one_le_pow₀ hone
  have hXle := hc.abs_distance_le h.box
  have hDle := hc.abs_slope_le h.box
  have hquot : |X / D| * |D| = |X| := by rw [abs_div, div_mul_cancel₀ _ hpos.ne']
  have hstep : |X / D| ≤ 2 ^ 180 := by
    rw [abs_div, div_le_iff₀ hpos]
    rw [margin] at hD'
    norm_num at hcube ⊢
    linarith
  have hroom : reach u + |X / D| ≤ limit / 8 := by
    have := pow_lt_limit (k := 200) (by norm_num)
    norm_num at this hstep
    linarith
  obtain ⟨v, hv, herr⟩ := (near_update hp hX hD (abs_pos.mp hpos) (B := reach u + |X / D|)
    (by linarith [abs_nonneg (X / D)]) (by linarith [abs_nonneg (X / D), abs_le_reach u])
    (by linarith) hroom).close
  refine ⟨v, X, D, hv, hc, hX', hD', ?_⟩
  have hlands : |(v - u) * D + X| = |v - (u - X / D)| * |D| := by
    rw [← abs_mul]
    congr 1
    field_simp [abs_pos.mp hpos]
    ring
  rw [hlands]
  have hsize : reach u * |D| ≤ 4 * reach u ^ 3 := by
    have := mul_le_mul_of_nonneg_left hDle (by linarith : 0 ≤ reach u)
    linarith
  have hprod := mul_le_mul_of_nonneg_right herr hpos.le
  rw [roundoff] at hprod
  rw [fault]
  push_cast at hprod
  linarith

/-- What a test of the parameter `p` says. -/
def Meets (c : Bezier) (t p : Float) : Prop := (coordinate c.x1 c.x2 p - t).abs < tolerance

def Search.isSolved : Search → Bool
  | .solved _ => true
  | .stalled _ => false

/-- Both loops end without a parameter that passes the test. -/
def Unsolved (c : Bezier) (t : Float) : Prop :=
  ∃ u, newton c t 8 t = .stalled u ∧ ¬ Meets c t (bisect c t 12 0 1 (clampUnit u))

/-- Where the search is solved, it has come by strides and the test is passed. -/
theorem Posed.visited_of_solved (h : Posed c t a b τ) (hτ : Unmet a b τ) {w : Float} :
    ∀ n u p, HasValue p u → Visited a b τ u → newton c t n p = .solved w →
      ∃ ω, HasValue w ω ∧ Visited a b τ ω ∧ Meets c t w := by
  intro n
  induction n with
  | zero =>
    intro u p _ _ hsolved
    cases hsolved
  | succ n ih =>
    intro u p hp hvisited hsolved
    rw [newton] at hsolved
    simp only at hsolved
    split at hsolved
    · rename_i hmet
      cases hsolved
      exact ⟨u, hp, hvisited, hmet⟩
    · rename_i hfar
      split at hsolved
      · cases hsolved
      · rename_i hsteep
        obtain ⟨v, X, D, hv, hs⟩ := h.exists_stride hp (hvisited.reach_le hτ) hfar hsteep
        exact ih v _ hv (.step hvisited hs) hsolved

/-- The target is met right away, or the search is one that `Unmet` describes. -/
theorem Posed.meets_or_unmet (h : Posed c t a b τ) : Meets c t t ∨ Unmet a b τ := by
  by_cases hmet : Meets c t t
  · exact Or.inl hmet
  · obtain ⟨X, hX, hdistance⟩ := h.computed_unit h.target h.box.target_nonneg h.box.target_le
    refine Or.inr ⟨h.box, ?_⟩
    have hfar := margin_le hX hmet
    have := abs_sub_abs_le_abs_sub X (cubic a b τ - τ)
    linarith

/-! ### Heights on the diagonal -/

/-- A coordinate in the unit interval is computed well. -/
theorem Posed.exists_coordinate (h : Posed c t a b τ) (hp : HasValue p u)
    (h0 : 0 ≤ u) (h1 : u ≤ 1) :
    ∃ v, HasValue (coordinate c.x1 c.x2 p) v ∧ |v - cubic a b u| ≤ fault ∧
    |rounded (v - τ)| < limit := by
  have ha : |a| ≤ 1 := abs_le.mpr ⟨by linarith [h.box.first_nonneg], h.box.first_le⟩
  have hb : |b| ≤ 1 := abs_le.mpr ⟨by linarith [h.box.second_nonneg], h.box.second_le⟩
  have hu : |u| ≤ 1 := abs_le.mpr ⟨by linarith, h1⟩
  have hτ : |τ| ≤ 1 := abs_le.mpr ⟨by linarith [h.box.target_nonneg], h.box.target_le⟩
  obtain ⟨v, hv, hclose⟩ :=
    (near_coordinate h.first ha h.second hb hp le_rfl hu
      (room_of_le (by norm_num) (by norm_num))).close
  have hclose' : |v - cubic a b u| ≤ fault := hclose.trans (by norm_num [roundoff, fault])
  refine ⟨v, hv, hclose', ?_⟩
  have hcubic := abs_le.mp (h.box.abs_cubic_le (u := u))
  rw [reach_of_mem h0 h1] at hcubic
  have hv' := abs_le.mp hclose'
  have hτ' := abs_le.mp hτ
  rw [fault] at hv'
  have hsize : |v - τ| ≤ 2 ^ 2 := abs_le.mpr ⟨by linarith, by linarith⟩
  exact (abs_rounded_le_pow hsize).trans_lt (pow_lt_limit (by norm_num))

/-- Where the test is passed in the unit interval, the height is within the tolerance. -/
theorem Posed.close_of_meets (h : Posed c t a b τ) (hp : HasValue p u) (h0 : 0 ≤ u) (h1 : u ≤ 1)
    (hmet : Meets c t p) : ∃ v, HasValue (coordinate c.x1 c.x2 p) v ∧ |v - τ| < 1 / 10000000 := by
  obtain ⟨v, hv, -, hsize⟩ := h.exists_coordinate hp h0 h1
  exact ⟨v, hv, abs_sub_lt_of_met hv h.target hsize hmet⟩

theorem clampUnit_of_mem (hp : HasValue p u) (h0 : 0 ≤ u) (h1 : u ≤ 1) : clampUnit p = p := by
  rw [clampUnit, if_neg, if_neg]
  · rw [gt_iff_lt, hasValue_one.lt_iff hp]
    exact not_lt.mpr h1
  · rw [hp.lt_iff hasValue_zero]
    exact not_lt.mpr h0

theorem clampUnit_of_neg (hp : HasValue p u) (h : u < 0) : clampUnit p = 0 := by
  rw [clampUnit, if_pos ((hp.lt_iff hasValue_zero).mpr h)]

theorem clampUnit_of_one_lt (hp : HasValue p u) (h : 1 < u) : clampUnit p = 1 := by
  rw [clampUnit, if_neg, if_pos ((hasValue_one.lt_iff hp).mpr h)]
  rw [hp.lt_iff hasValue_zero]
  linarith

/-- At an end of the curve, only the weight of that end counts. -/
theorem hasValue_of_weights {x y w1 w2 w3 : Float} (hx : HasValue x a) (hy : HasValue y b)
    (h1 : HasValue w1 0) (h2 : HasValue w2 0) (h3 : HasValue w3 u) :
    HasValue (w1 * x + w2 * y + w3) u := by
  have hzero : |rounded 0| < limit := by
    rw [rounded_zero, abs_zero]
    linarith [two_lt_limit]
  have hfirst := h1.mul hx (by rwa [zero_mul])
  have hsecond := h2.mul hy (by rwa [zero_mul])
  rw [zero_mul, rounded_zero] at hfirst hsecond
  have hsum := hfirst.add hsecond (by rwa [add_zero])
  rw [add_zero, rounded_zero] at hsum
  have hexact := rounded_of_representable h3.representable
  have hall := hsum.add h3 (by rw [zero_add, hexact]; exact h3.abs_lt)
  rwa [zero_add, hexact] at hall

theorem hasValue_coordinate_zero {x y : Float} (hx : HasValue x a) (hy : HasValue y b) :
    HasValue (coordinate x y 0) 0 :=
  hasValue_of_weights hx hy (isNumber_zero .positive) (isNumber_zero .positive)
    (isNumber_zero .positive)

theorem hasValue_coordinate_one {x y : Float} (hx : HasValue x a) (hy : HasValue y b) :
    HasValue (coordinate x y 1) 1 :=
  hasValue_of_weights hx hy (isNumber_zero .positive) (isNumber_zero .positive) hasValue_one

/-- Where the search is solved, the height over the parameter is within the tolerance. -/
theorem Posed.close_of_solved (h : Posed c t a b τ) {w : Float}
    (hsolved : newton c t 8 t = .solved w) :
    ∃ v, HasValue (coordinate c.x1 c.x2 (clampUnit w)) v ∧ |v - τ| < 1 / 10000000 := by
  rcases h.meets_or_unmet with hmet | hτ
  · have hw : newton c t 8 t = .solved t := by
      rw [newton]
      exact if_pos hmet
    cases hw.symm.trans hsolved
    rw [clampUnit_of_mem h.target h.box.target_nonneg h.box.target_le]
    exact h.close_of_meets h.target h.box.target_nonneg h.box.target_le hmet
  · obtain ⟨ω, hω, hvisited, hmet⟩ := h.visited_of_solved hτ 8 τ t h.target .target hsolved
    obtain ⟨X, D, hX, -, hc⟩ := h.computed_reach hω (hvisited.reach_le hτ)
    have hX' := abs_lt_of_lt_tolerance hX hmet
    rcases lt_or_ge ω 0 with hneg | h0
    · -- solved beyond zero: the parameter becomes zero, and the target is next to it
      rw [clampUnit_of_neg hω hneg]
      refine ⟨0, hasValue_coordinate_zero h.first h.second, ?_⟩
      rw [zero_sub, abs_neg, abs_of_nonneg h.box.target_nonneg]
      exact hvisited.target_lt hτ hneg hc.distance hX'
    rcases lt_or_ge 1 ω with hone | h1
    · rw [clampUnit_of_one_lt hω hone]
      refine ⟨1, hasValue_coordinate_one h.first h.second, ?_⟩
      rw [abs_of_nonneg (by linarith [h.box.target_le])]
      exact hvisited.reflect.target_lt hτ.reflect (by linarith)
        hc.reflect.distance (by rwa [abs_neg])
    · rw [clampUnit_of_mem hω h0 h1]
      exact h.close_of_meets hω h0 h1 hmet

/-! ### Halvings -/

/-- The target lies over the interval from `l` to `h`, and `u` is no further than `w` from its
ends. -/
structure Bracket (a b τ l h u w : ℚ) : Prop where
  nonneg : 0 ≤ l
  low : l ≤ u
  high : u ≤ h
  le_one : h ≤ 1
  below : cubic a b l ≤ τ + fault
  above : τ - fault ≤ cubic a b h
  left : u - l ≤ w
  right : h - u ≤ w

theorem Bracket.close {l h w : ℚ} (hbox : UnitBox a b τ) (hb : Bracket a b τ l h u w) :
    |cubic a b u - τ| ≤ 3 * w + fault := by
  have h1 := hbox.cubic_sub_le hb.nonneg hb.low (hb.high.trans hb.le_one)
  have h2 := hbox.cubic_sub_le (hb.nonneg.trans hb.low) hb.high hb.le_one
  have := hb.below
  have := hb.above
  have := hb.left
  have := hb.right
  exact abs_le.mpr ⟨by linarith, by linarith⟩

/-- Halving an interval about the target: where the test is not passed in the end, the interval is
halved every time. -/
theorem Posed.bisect_close (h : Posed c t a b τ) :
    ∀ n lo hi p l r u w, HasValue lo l → HasValue hi r → HasValue p u → Bracket a b τ l r u w →
      ∃ ω, HasValue (bisect c t n lo hi p) ω ∧ 0 ≤ ω ∧ ω ≤ 1 ∧
        (Meets c t (bisect c t n lo hi p) ∨
          |cubic a b ω - τ| ≤ 3 * ((w - 4 * roundoff) / 2 ^ n + 4 * roundoff) + fault) := by
  intro n
  induction n with
  | zero =>
    intro lo hi p l r u w _ _ hp hb
    refine ⟨u, hp, hb.nonneg.trans hb.low, hb.high.trans hb.le_one, Or.inr ?_⟩
    have := hb.close h.box
    rw [pow_zero, div_one]
    linarith
  | succ n ih =>
    intro lo hi p l r u w hlo hhi hp hb
    have hu0 := hb.nonneg.trans hb.low
    have hu1 := hb.high.trans hb.le_one
    obtain ⟨X, hX, hdistance⟩ := h.computed_unit hp hu0 hu1
    have hdistance := abs_le.mp hdistance
    have hhalf : ((w / 2 + 2 * roundoff) - 4 * roundoff) / 2 ^ n =
        (w - 4 * roundoff) / 2 ^ (n + 1) := by
      rw [pow_succ']
      field_simp
      ring
    rw [bisect, ← hhalf]
    split
    · rename_i hmet
      exact ⟨u, hp, hu0, hu1, Or.inl hmet⟩
    · split
      · rename_i hpos
        rw [gt_iff_lt, hasValue_zero.lt_iff hX] at hpos
        obtain ⟨m, hm, hlm, hmu, hmid⟩ :=
          hasValue_middle hlo hp hlo.representable hp.representable hb.nonneg hu1
          ⟨le_rfl, hb.low⟩ ⟨hb.low, le_rfl⟩
        have hmid := abs_le.mp hmid
        refine ih lo p _ l u m (w / 2 + 2 * roundoff) hlo hp hm ⟨hb.nonneg, hlm, hmu, hu1,
          hb.below, ?_, ?_, ?_⟩
        · linarith
        · linarith [hb.left]
        · linarith [hb.left]
      · rename_i hneg
        rw [gt_iff_lt, hasValue_zero.lt_iff hX, not_lt] at hneg
        obtain ⟨m, hm, hum, hmr, hmid⟩ :=
          hasValue_middle hp hhi hp.representable hhi.representable hu0 hb.le_one
          ⟨le_rfl, hb.high⟩ ⟨hb.high, le_rfl⟩
        have hmid := abs_le.mp hmid
        refine ih p hi _ u r m (w / 2 + 2 * roundoff) hp hhi hm ⟨hu0, hum, hmr, hb.le_one,
          ?_, hb.above, ?_, ?_⟩
        · linarith
        · linarith [hb.right]
        · linarith [hb.right]

/-- The halvings start from the whole unit interval. -/
theorem UnitBox.bracket (h : UnitBox a b τ) (h0 : 0 ≤ u) (h1 : u ≤ 1) : Bracket a b τ 0 1 u 1 := by
  have hzero : cubic a b 0 = 0 := by
    rw [cubic]
    ring
  have hone : cubic a b 1 = 1 := by
    rw [cubic]
    ring
  refine ⟨le_rfl, h0, h1, le_rfl, ?_, ?_, by linarith, by linarith⟩
  · rw [hzero, fault]
    linarith [h.target_nonneg]
  · rw [hone, fault]
    linarith [h.target_le]

/-- Where the search stalls, twelve halvings meet the target or at least come near it. -/
theorem Posed.close_of_stalled (h : Posed c t a b τ) {w : Float} (hw : HasValue w u)
    (hstalled : newton c t 8 t = .stalled w) :
    ∃ v, HasValue (coordinate c.x1 c.x2 (bisect c t 12 0 1 (clampUnit w))) v ∧
      (|v - τ| < 1 / 10000000 ∨ Unsolved c t ∧ 9999 / 100000000000 ≤ |v - τ| ∧
        |v - τ| ≤ 3 / 4096 + 1 / 1099511627776) := by
  obtain ⟨q, hq, hq0, hq1⟩ := inUnit_clampUnit hw
  obtain ⟨ω, hω, hω0, hω1, hend⟩ :=
    h.bisect_close 12 0 1 _ 0 1 q 1 hasValue_zero hasValue_one hq (h.box.bracket hq0 hq1)
  by_cases hmet : Meets c t (bisect c t 12 0 1 (clampUnit w))
  · obtain ⟨v, hv, hclose⟩ := h.close_of_meets hω hω0 hω1 hmet
    exact ⟨v, hv, Or.inl hclose⟩
  · obtain ⟨v, hv, hv', -⟩ := h.exists_coordinate hω hω0 hω1
    have hclose : |v - τ| ≤ 3 / 4096 + 1 / 1099511627776 := by
      have hnear := hend.resolve_left hmet
      have hsum := abs_add_le (v - cubic a b ω) (cubic a b ω - τ)
      rw [sub_add_sub_cancel] at hsum
      norm_num [roundoff, fault] at hnear hv'
      linarith
    exact ⟨v, hv,
      Or.inr ⟨⟨w, hstalled, hmet⟩, margin_le_abs_sub hv h.target (by linarith) hmet, hclose⟩⟩

/-- On a curve along the diagonal, the height over a target is within the tolerance of it, unless
both loops end without meeting the target; then it is as near as twelve halvings of the unit
interval lead. -/
theorem eval_close_of_diagonal (hc : c.fault? = none) (h1 : c.y1 = c.x1)
    (h2 : c.y2 = c.x2) (ht : HasValue t τ) (h0 : 0 ≤ τ) (hτ : τ ≤ 1) :
    ∃ v, HasValue (c.eval t) v ∧
      (|v - τ| < 1 / 10000000 ∨ Unsolved c t ∧ 9999 / 100000000000 ≤ |v - τ| ∧
        |v - τ| ≤ 3 / 4096 + 1 / 1099511627776) := by
  obtain ⟨a, b, -, -, ha, hb, -, -, ha0, ha1, hb0, hb1⟩ := exists_of_fault?_eq_none hc
  have hposed : Posed c t a b τ := ⟨ha, hb, ht, ha0, ha1, hb0, hb1, h0, hτ⟩
  rw [eval, h1, h2]
  split
  · rename_i hlow
    rw [ht.le_iff hasValue_zero] at hlow
    exact ⟨0, hasValue_zero, Or.inl (by rw [le_antisymm hlow h0]; norm_num)⟩
  · split
    · rename_i hhigh
      rw [ge_iff_le, hasValue_one.le_iff ht] at hhigh
      exact ⟨1, hasValue_one, Or.inl (by rw [le_antisymm hτ hhigh]; norm_num)⟩
    · obtain ⟨u, hu⟩ := hposed.newton_hasValue
      cases hsearch : newton c t 8 t with
      | solved w =>
        obtain ⟨v, hv, hclose⟩ := hposed.close_of_solved hsearch
        exact ⟨v, hv, Or.inl hclose⟩
      | stalled w =>
        rw [hsearch] at hu
        exact hposed.close_of_stalled hu hsearch

/-- A curve along the diagonal. -/
def diagonal (x1 x2 : Float) : Bezier := ⟨x1, x1, x2, x2⟩

/-- The search for a quarter on the cube goes beyond one and comes back in time. -/
theorem eval_close_cube :
    ∃ v, HasValue ((diagonal 0 0).eval 0.25) v ∧ |v - 1 / 4| < 1 / 10000000 := by
  have hquarter : HasValue 0.25 (1 / 4) := by
    have h : (0.25 : Float).toModel.unpack = .finite .positive 4503599627370496 (-54) (by decide) :=
      rfl
    have := hasValue_of_unpack h
    norm_num [signed] at this
    exact this
  obtain ⟨v, hv, hclose⟩ :=
    eval_close_of_diagonal (c := diagonal 0 0) (by decide +kernel) rfl rfl hquarter
      (by norm_num) (by norm_num)
  refine ⟨v, hv, hclose.resolve_right ?_⟩
  rintro ⟨⟨u, hstalled, -⟩, -⟩
  have hsolved : (newton (diagonal 0 0) 0.25 8 0.25).isSolved = true := by decide +kernel
  rw [hstalled] at hsolved
  cases hsolved

/-- The search for a thousandth does not. -/
theorem not_close_cube :
    (diagonal 0 0).fault? = none ∧ 4e-6 < ((diagonal 0 0).eval 0.001 - 0.001).abs := by
  decide +kernel

end EffectTiming.Bezier
