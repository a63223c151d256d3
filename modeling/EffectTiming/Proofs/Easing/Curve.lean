import Mathlib
import EffectTiming.Easing.Bezier
import EffectTiming.Proofs.Binary64.Near

/-!
# Coordinates of a curve

A coordinate of a curve is a cubic polynomial in the parameter, and the slope is its derivative.
Both are computed with a bounded error, which grows with the cube and the square of the parameter.
-/

namespace EffectTiming.Bezier

open Binary64

/-- The exact coordinate. -/
def cubic (a b u : ℚ) : ℚ := 3 * (1 - u) * (1 - u) * u * a + 3 * (1 - u) * u * u * b + u * u * u

/-- The exact slope. -/
def cubicSlope (a b u : ℚ) : ℚ :=
  3 * (1 - u) * (1 - u) * a + 6 * (1 - u) * u * (b - a) + 3 * u * u * (1 - b)

theorem hasValue_three : HasValue 3 3 := by
  exact_mod_cast hasValue_ofNat_of_le (n := 3) (by norm_num)

theorem hasValue_six : HasValue 6 6 := by
  exact_mod_cast hasValue_ofNat_of_le (n := 6) (by norm_num)

variable {x y t : Float} {a b u s : ℚ}

/-- The parameter's complement. -/
theorem near_complement (ht : HasValue t u) (hs : 1 ≤ s) (hu : |u| ≤ s)
    (hroom : 100 * s ^ 3 ≤ limit / 4) :
    Near (1 - t) (1 - u) (2 * s) 2 := by
  have h1 : s ≤ s ^ 3 := by nlinarith [sq_nonneg s]
  have hone : Near 1 1 s 0 := hasValue_one.near hs (by rwa [abs_one])
  exact (hone.sub (ht.near hs hu)).mono (by linarith) le_rfl

/-- The weight of the first control value. -/
theorem near_firstWeight (ht : HasValue t u) (hs : 1 ≤ s) (hu : |u| ≤ s)
    (hroom : 100 * s ^ 3 ≤ limit / 4) :
    Near (3 * (1 - t) * (1 - t) * t) (3 * (1 - u) * (1 - u) * u) (12 * s ^ 3) 10 := by
  have h1 : s ≤ s ^ 3 := by nlinarith [sq_nonneg s]
  have h2 : s ^ 2 ≤ s ^ 3 := by nlinarith [sq_nonneg s]
  have h3 : Near 3 3 3 0 := hasValue_three.near (by norm_num) (by norm_num)
  have hinv := near_complement ht hs hu hroom
  exact (((h3.mul hinv).mul hinv).mul (ht.near hs hu)).mono (by linarith) le_rfl

/-- The weight of the second control value. -/
theorem near_secondWeight (ht : HasValue t u) (hs : 1 ≤ s) (hu : |u| ≤ s)
    (hroom : 100 * s ^ 3 ≤ limit / 4) :
    Near (3 * (1 - t) * t * t) (3 * (1 - u) * u * u) (6 * s ^ 3) 8 := by
  have h1 : s ≤ s ^ 3 := by nlinarith [sq_nonneg s]
  have h2 : s ^ 2 ≤ s ^ 3 := by nlinarith [sq_nonneg s]
  have h3 : Near 3 3 3 0 := hasValue_three.near (by norm_num) (by norm_num)
  have ht' : Near t u s 0 := ht.near hs hu
  exact (((h3.mul (near_complement ht hs hu hroom)).mul ht').mul ht').mono (by linarith) le_rfl

/-- The weight of the end point. -/
theorem near_lastWeight (ht : HasValue t u) (hs : 1 ≤ s) (hu : |u| ≤ s)
    (hroom : 100 * s ^ 3 ≤ limit / 4) : Near (t * t * t) (u * u * u) (s ^ 3) 4 := by
  have h0 : 1 ≤ s ^ 3 := one_le_pow₀ hs
  have h2 : s ^ 2 ≤ s ^ 3 := by nlinarith [sq_nonneg s]
  have ht' : Near t u s 0 := ht.near hs hu
  exact ((ht'.mul ht').mul ht').mono (by linarith) le_rfl

theorem near_coordinate (hx : HasValue x a) (ha : |a| ≤ 1) (hy : HasValue y b) (hb : |b| ≤ 1)
    (ht : HasValue t u) (hs : 1 ≤ s) (hu : |u| ≤ s) (hroom : 100 * s ^ 3 ≤ limit / 4) :
    Near (coordinate x y t) (cubic a b u) (19 * s ^ 3) 16 := by
  have h0 : 1 ≤ s ^ 3 := one_le_pow₀ hs
  have hfirst := (near_firstWeight ht hs hu hroom).mul (hx.near le_rfl ha)
  have hsecond := (near_secondWeight ht hs hu hroom).mul (hy.near le_rfl hb)
  exact ((hfirst.add hsecond).add (near_lastWeight ht hs hu hroom)).mono (by linarith) (by norm_num)

theorem near_slope (hx : HasValue x a) (ha : |a| ≤ 1) (hy : HasValue y b) (hb : |b| ≤ 1)
    (ht : HasValue t u) (hs : 1 ≤ s) (hu : |u| ≤ s) (hroom : 100 * s ^ 3 ≤ limit / 4) :
    Near (slope x y t) (cubicSlope a b u) (42 * s ^ 2) 14 := by
  have h1 : s ≤ s ^ 3 := by nlinarith [sq_nonneg s]
  have h2 : s ^ 2 ≤ s ^ 3 := by nlinarith [sq_nonneg s]
  have h3 : Near 3 3 3 0 := hasValue_three.near (by norm_num) (by norm_num)
  have h6 : Near 6 6 6 0 := hasValue_six.near (by norm_num) (by norm_num)
  have hinv := near_complement ht hs hu hroom
  have ht' : Near t u s 0 := ht.near hs hu
  have hx' : Near x a 1 0 := hx.near le_rfl ha
  have hy' : Near y b 1 0 := hy.near le_rfl hb
  have hone : Near 1 1 1 0 := hasValue_one.near le_rfl (by norm_num)
  have hfirst := ((h3.mul hinv).mul hinv).mul hx'
  have hsecond := ((h6.mul hinv).mul ht').mul (hy'.sub hx')
  have hthird := ((h3.mul ht').mul ht').mul (hone.sub hy')
  exact ((hfirst.add hsecond).add hthird).mono (by linarith) (by norm_num)

end EffectTiming.Bezier
