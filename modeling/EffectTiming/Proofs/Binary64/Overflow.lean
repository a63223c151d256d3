import Mathlib
import EffectTiming.Proofs.Binary64.Shortest
import EffectTiming.Proofs.Binary64.Whole

/-!
# Where numbers leave the format

Rounding leads beyond the greatest number exactly from the middle between it and `limit` on, since
the tie goes to the even side. A product is finite exactly below that. What is not finite stays so
when it is rounded to a whole number or divided. What is beyond the numbers still has a sign, and
what is no number has none.
-/

namespace EffectTiming.Binary64

open Float.Model
open Float.Model.UnpackedFloat (Sign)

variable {x y : Float} {p q : ℚ}

/-- The middle between the greatest number and `limit` is rounded up. -/
theorem limit_le_rounded (h : limit - topUnit / 2 ≤ q) : limit ≤ rounded q := by
  have hunit := topUnit_pos
  have hmiddle : rounded (limit - topUnit / 2) = limit := by
    have hgrid : gridExponent (limit - topUnit / 2) = 971 := by
      refine gridExponent_eq (Or.inl ?_) ?_ (by norm_num)
      · rw [zpow_add₀ (by norm_num), ← topUnit, limit]
        norm_num
        linarith
      · rw [zpow_add₀ (by norm_num), ← topUnit, limit]
        norm_num
        exact hunit
    have hround := rounded_of_grid (k := 9007199254740992) hgrid (Or.inr ⟨?_, by decide⟩)
    · rw [hround, ← topUnit, limit]
      norm_num
    · rw [← topUnit, limit]
      push_cast
      rw [show 9007199254740992 * topUnit - topUnit / 2 - 9007199254740992 * topUnit =
        -(topUnit / 2) by ring,
        abs_neg, abs_of_pos (by linarith)]
  rw [← hmiddle]
  exact rounded_mono h

/-- A result that is out of range on either side is not finite. -/
theorem not_isFinite_pack {u : UnpackedFloat} (h : IsNumber u q) (hq : limit ≤ |q|) :
    isFinite ⟨Float.Model.pack u⟩ = false := by
  rcases h.cases with ⟨s, rfl, rfl⟩ | ⟨s, m, e, hm, rfl, rfl⟩
  · rw [abs_zero, limit] at hq
    linarith [topUnit_pos]
  · rw [abs_signed_significand] at hq
    have hunpack : (⟨Float.Model.pack (.finite s m e hm)⟩ : Float).toModel.unpack = .infinity s :=
      unpack_pack_of_not_stored hm (lt_exponent_of_limit_le h.canonical.1 hq)
    rw [isFinite, parts_eq, hunpack]
    rfl

/-- A product is finite exactly if it is nearer to the greatest number than to `limit`. -/
theorem isFinite_mul_iff (hx : HasValue x p) (hy : HasValue y q) :
    isFinite (x * y) = true ↔ |p * q| < limit - topUnit / 2 := by
  constructor
  · intro hfinite
    by_contra hlarge
    have hlimit : limit ≤ |rounded (p * q)| := by
      rcases le_abs.mp (not_lt.mp hlarge) with hpos | hneg
      · exact (limit_le_rounded hpos).trans (le_abs_self _)
      · have := limit_le_rounded hneg
        rw [rounded_neg] at this
        exact this.trans (neg_le_abs _)
    rw [show isFinite (x * y) = false from not_isFinite_pack (IsNumber.mul hx hy) hlimit] at hfinite
    cases hfinite
  · intro hsmall
    exact isFinite_iff.mpr ⟨_, hx.mul hy (abs_rounded_lt hsmall)⟩

theorem round_of_not_finite (h : isFinite x = false) : round x = x := by
  rw [isFinite] at h
  rw [round]
  split at h
  · cases h
  · rfl

theorem unpack_of_not_finite (h : isFinite x = false) :
    x.toModel.unpack = .notANumber ∨ ∃ s, x.toModel.unpack = .infinity s := by
  rw [isFinite, parts_eq] at h
  cases hx : x.toModel.unpack with
  | zero s => simp [hx, unpackedParts] at h
  | finite s m e hm => simp [hx, unpackedParts] at h
  | notANumber => exact Or.inl rfl
  | infinity s => exact Or.inr ⟨s, rfl⟩

/-- Division by a number does not lead back to the numbers. -/
theorem not_isFinite_div (h : isFinite x = false) (hy : HasValue y q) :
    isFinite (x / y) = false := by
  have hinfinite : ∀ s : Sign, isFinite ⟨Float.Model.pack (.infinity s)⟩ = false := by
    intro s
    cases s <;> decide
  show isFinite ⟨Float.Model.pack (UnpackedFloat.div .binary64 x.toModel.unpack y.toModel.unpack)⟩ =
    false
  rcases unpack_of_not_finite h with hx | ⟨s, hx⟩ <;> rw [hx]
  · rcases hy.cases with ⟨t, hy, -⟩ | ⟨t, n, f, hn, hy, -⟩ <;> rw [hy] <;>
      exact not_isFinite_notANumber
  · rcases hy.cases with ⟨t, hy, -⟩ | ⟨t, n, f, hn, hy, -⟩ <;> rw [hy] <;> exact hinfinite (s / t)

theorem beq_of_not_finite (h : isFinite x = false) (hy : HasValue y q) : (x == y) = false := by
  show UnpackedFloat.beq x.toModel.unpack y.toModel.unpack = false
  rcases unpack_of_not_finite h with hx | ⟨s, hx⟩ <;> rw [hx]
  · rcases hy.cases with ⟨t, hy, -⟩ | ⟨t, n, f, hn, hy, -⟩ <;> rw [hy] <;> rfl
  · rcases hy.cases with ⟨t, hy, -⟩ | ⟨t, n, f, hn, hy, -⟩ <;> rw [hy] <;> cases s <;> rfl

/-- What equals a number has its value, whichever sign a zero has. -/
theorem HasValue.of_beq (hy : HasValue y q) (h : (x == y) = true) : HasValue x q := by
  cases hfinite : Binary64.isFinite x with
  | false =>
    rw [beq_of_not_finite hfinite hy] at h
    cases h
  | true =>
    obtain ⟨p, hp⟩ := isFinite_iff.mp hfinite
    rwa [← (hp.beq_iff hy).mp h]

/-! ### Signs -/

theorem not_neg_of_pos (h : 0 < x) : ¬ x < 0 := by
  cases hfinite : isFinite x with
  | true =>
    obtain ⟨q, hq⟩ := isFinite_iff.mp hfinite
    rw [hasValue_zero.lt_iff hq] at h
    rw [hq.lt_iff hasValue_zero]
    exact h.asymm
  | false =>
    change Float.lt 0 x = true at h
    rw [Float.lt, decide_eq_true_eq] at h
    change UnpackedFloat.lt (.zero .positive) x.toModel.unpack = true at h
    rcases unpack_of_not_finite hfinite with hx | ⟨s, hx⟩
    · rw [hx] at h
      cases h
    · cases s with
      | positive => exact IsInfinite.not_lt hx hasValue_zero
      | negative =>
        rw [hx] at h
        cases h

/-- What is zero or no number has no sign. -/
theorem not_pos_and_not_neg (h : (x == 0) = true ∨ x.isNaN = true) : ¬ 0 < x ∧ ¬ x < 0 := by
  rcases h with hzero | hnan
  · have hx : HasValue x 0 := hasValue_zero.of_beq hzero
    rw [hx.lt_iff hasValue_zero, hasValue_zero.lt_iff hx]
    exact ⟨lt_irrefl 0, lt_irrefl 0⟩
  · have hx : x.toModel.unpack = .notANumber := by
      change x.toModel.unpack.isNaN = true at hnan
      cases hu : x.toModel.unpack with
      | notANumber => rfl
      | zero _ | infinity _ | finite _ _ _ _ =>
        rw [hu] at hnan
        cases hnan
    constructor
    · show ¬ Float.lt 0 x = true
      rw [Float.lt, decide_eq_true_eq]
      show ¬ UnpackedFloat.lt _ x.toModel.unpack = true
      rw [hx, UnpackedFloat.lt, compare_notANumber]
      exact Bool.false_ne_true
    · show ¬ Float.lt x 0 = true
      rw [Float.lt, decide_eq_true_eq]
      show ¬ UnpackedFloat.lt x.toModel.unpack _ = true
      rw [hx]
      exact Bool.false_ne_true

end EffectTiming.Binary64
