import Mathlib
import EffectTiming.Proofs.Binary64.Decimal

/-!
# Numbers that differ at most in the sign of a zero

`Alike x y` says that `x` and `y` are the same number, or zeros of any sign. That is what `==` says
of numbers, and what a computation in which no one looks at the sign of a zero keeps: `Alike.map`
for results that are numbers, `Alike.map_eq` for decisions.
-/

namespace EffectTiming.Binary64

open Float.Model (UnpackedFloat)

variable {x y z : Float} {q r : ℚ}

/-- `x` and `y` are the same number, but for the sign of a zero. -/
def Alike (x y : Float) : Prop := x = y ∨ HasValue x 0 ∧ HasValue y 0

@[refl]
theorem Alike.refl (x : Float) : Alike x x := Or.inl rfl

@[symm]
theorem Alike.symm (h : Alike x y) : Alike y x := h.imp Eq.symm And.symm

theorem Alike.trans (hxy : Alike x y) (hyz : Alike y z) : Alike x z := by
  rcases hxy with rfl | ⟨hx, hy⟩
  · exact hyz
  · rcases hyz with rfl | ⟨-, hz⟩
    · exact Or.inr ⟨hx, hy⟩
    · exact Or.inr ⟨hx, hz⟩

/-- Numbers with the same value are alike. -/
theorem alike_of_hasValue (hx : HasValue x q) (hy : HasValue y q) : Alike x y := by
  rcases eq_or_ne q 0 with rfl | hq
  · exact Or.inr ⟨hx, hy⟩
  · exact Or.inl (hx.eq_of_ne_zero hy hq)

theorem Alike.hasValue (h : Alike x y) (hx : HasValue x q) : HasValue y q := by
  rcases h with rfl | ⟨hx', hy⟩
  · exact hx
  · rwa [hx.unique hx']

/-! ### Computations on alike numbers -/

/-- A decision that does not look at the sign of a zero. -/
theorem Alike.map_eq {β : Type} (f : Float → β) (h : Alike x y)
    (hf : ∀ z, HasValue z 0 → f z = f 0) :
    f x = f y := by
  rcases h with rfl | ⟨hx, hy⟩
  · rfl
  · rw [hf x hx, hf y hy]

/-- A computation that gives both zeros the same value. -/
theorem Alike.map (f : Float → Float) (h : Alike x y) (hf : ∀ z, HasValue z 0 → HasValue (f z) q) :
    Alike (f x) (f y) := by
  rcases h with rfl | ⟨hx, hy⟩
  · exact Alike.refl _
  · exact alike_of_hasValue (hf x hx) (hf y hy)

/-- A choice that is made the same way. -/
theorem Alike.ite {a b : Bool} {x' y' : Float} (hab : a = b) (h : Alike x y) (h' : Alike x' y') :
    Alike (if a then x else x') (if b then y else y') := by
  subst hab
  split
  · exact h
  · exact h'

theorem Alike.isFinite (h : Alike x y) : isFinite x = isFinite y :=
  h.map_eq Binary64.isFinite fun z hz => by rw [hz.isFinite, hasValue_zero.isFinite]

theorem Alike.truncate (h : Alike x y) : truncate x = truncate y :=
  h.map_eq Binary64.truncate fun z hz => by rw [hz.truncate, hasValue_zero.truncate]

theorem Alike.beq_zero (h : Alike x y) : (x == 0) = (y == 0) :=
  h.map_eq (· == 0) fun z hz => by
    rw [(hz.beq_iff hasValue_zero).mpr rfl, (hasValue_zero.beq_iff hasValue_zero).mpr rfl]

theorem Alike.lt (h : Alike x y) (hz : HasValue z r) : decide (x < z) = decide (y < z) :=
  h.map_eq (fun w => decide (w < z)) fun w hw => by
    simp only [hw.lt_iff hz, hasValue_zero.lt_iff hz]

theorem Alike.gt (h : Alike x y) (hz : HasValue z r) : decide (z < x) = decide (z < y) :=
  h.map_eq (fun w => decide (z < w)) fun w hw => by
    simp only [hz.lt_iff hw, hz.lt_iff hasValue_zero]

theorem Alike.le (h : Alike x y) (hz : HasValue z r) : decide (x ≤ z) = decide (y ≤ z) :=
  h.map_eq (fun w => decide (w ≤ z)) fun w hw => by
    simp only [hw.le_iff hz, hasValue_zero.le_iff hz]

theorem Alike.ge (h : Alike x y) (hz : HasValue z r) : decide (z ≤ x) = decide (z ≤ y) :=
  h.map_eq (fun w => decide (z ≤ w)) fun w hw => by
    simp only [hz.le_iff hw, hz.le_iff hasValue_zero]

theorem Alike.floor (h : Alike x y) : Alike (floor x) (floor y) :=
  h.map Binary64.floor fun _ hz => hz.floor

theorem Alike.fraction (h : Alike x y) : Alike (fraction x) (fraction y) :=
  h.map Binary64.fraction fun _ hz => hz.fraction

theorem Alike.add_right (h : Alike x y) (hz : HasValue z r) : Alike (x + z) (y + z) :=
  h.map (· + z) (q := r) fun w hw => by
    have hround : rounded (0 + r) = r := by rw [zero_add, rounded_of_representable hz.representable]
    have hsum := hw.add hz (by rw [hround]; exact hz.abs_lt)
    rwa [hround] at hsum

theorem Alike.add_left (h : Alike x y) (hz : HasValue z r) : Alike (z + x) (z + y) :=
  h.map (z + ·) (q := r) fun w hw => by
    have hround : rounded (r + 0) = r := by rw [add_zero, rounded_of_representable hz.representable]
    have hsum := hz.add hw (by rw [hround]; exact hz.abs_lt)
    rwa [hround] at hsum

theorem Alike.sub_right (h : Alike x y) (hz : HasValue z r) : Alike (x - z) (y - z) :=
  h.map (· - z) (q := -r) fun w hw => by
    have hround : rounded (0 - r) = -r := by
      rw [zero_sub, rounded_of_representable hz.representable.neg]
    have hdiff := hw.sub hz (by rw [hround, abs_neg]; exact hz.abs_lt)
    rwa [hround] at hdiff

theorem Alike.sub_left (h : Alike x y) (hz : HasValue z r) : Alike (z - x) (z - y) :=
  h.map (z - ·) (q := r) fun w hw => by
    have hround : rounded (r - 0) = r := by rw [sub_zero, rounded_of_representable hz.representable]
    have hdiff := hz.sub hw (by rw [hround]; exact hz.abs_lt)
    rwa [hround] at hdiff

theorem Alike.mul_right (h : Alike x y) (hz : HasValue z r) : Alike (x * z) (y * z) :=
  h.map (· * z) (q := 0) fun w hw => by
    have hround : rounded (0 * r) = 0 := by rw [zero_mul, rounded_zero]
    have hprod := hw.mul hz (by rw [hround]; exact hasValue_zero.abs_lt)
    rwa [hround] at hprod

theorem Alike.div_right (h : Alike x y) (hz : HasValue z r) (hr : r ≠ 0) : Alike (x / z) (y / z) :=
  h.map (· / z) (q := 0) fun w hw => by
    have hround : rounded (0 / r) = 0 := by rw [zero_div, rounded_zero]
    have hquot := hw.div hz hr (by rw [hround]; exact hasValue_zero.abs_lt)
    rwa [hround] at hquot

/-! ### Numerical equality -/

/-- Only what is no number differs from itself. -/
theorem beq_self (hx : x.isNaN = false) : (x == x) = true := by
  change x.toModel.unpack.isNaN = false at hx
  show UnpackedFloat.beq x.toModel.unpack x.toModel.unpack = true
  cases hu : x.toModel.unpack with
  | notANumber =>
    rw [hu] at hx
    exact absurd hx (by decide)
  | infinity s => cases s <;> rfl
  | zero s => rfl
  | finite s m e hm =>
    rw [← hu]
    exact ((hasValue_of_unpack hu).beq_iff (hasValue_of_unpack hu)).mpr rfl

/-- Alike numbers are numerically equal. -/
theorem Alike.beq (h : Alike x y) (hx : x.isNaN = false) : (x == y) = true := by
  rcases h with rfl | ⟨hx, hy⟩
  · exact beq_self hx
  · exact (hx.beq_iff hy).mpr rfl

/-- Numerically equal numbers are alike, where they are not negative infinities. -/
theorem alike_of_beq (hx : (∃ q, HasValue x q) ∨ IsInfinite x)
    (hy : (∃ q, HasValue y q) ∨ IsInfinite y) (h : (x == y) = true) : Alike x y := by
  rcases hx with ⟨p, hp⟩ | hx
  · rcases hy with ⟨q, hq⟩ | hy
    · obtain rfl := (hp.beq_iff hq).mp h
      exact alike_of_hasValue hp hq
    · rw [hp.beq_infinite hy] at h
      cases h
  · rcases hy with ⟨q, hq⟩ | hy
    · rw [hx.beq hq] at h
      cases h
    · exact Or.inl (hx.eq hy)

end EffectTiming.Binary64
