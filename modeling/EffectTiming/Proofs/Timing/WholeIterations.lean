import Mathlib
import EffectTiming.Proofs.Binary64.Neighbours
import EffectTiming.Proofs.Timing.Merge

/-!
# Whole iteration counts

Repeating a duration a whole number of times should take exactly that many times as long. The
product is formed of the rounded duration, is rounded itself, and drops its fraction. None of this
loses anything exactly if the product is a number of the format: its factors then are such numbers
too (`Representable.of_dvd`), and what is left of a number of the format without its fraction is one
again (`representable_floor`). Up to `2 ^ 53` nanoseconds, some hundred days, every product is such
a number. Beyond that even a single iteration can be shorter or longer than its duration.
-/

namespace EffectTiming

open Binary64

namespace Span

variable {k : ℤ} {n : ℕ}

/-- A whole multiple that fits is exact exactly if it is a number of the format. -/
theorem scaledCount_natCast_eq_iff (hk : 0 ≤ k) (hn : 0 < n) (hfits : n * k < 9223372036854775807) :
    scaledCount k n = n * k ↔ Representable ((n * k : ℤ) : ℚ) := by
  have hends : k < 9223372036854775807 := lt_of_le_of_lt (le_mul_of_one_le_left hk (by omega)) hfits
  constructor
  · intro hexact
    rw [scaledCount, if_neg (fun hc => hends.ne hc.1)] at hexact
    have hfloor : ⌊rounded (rounded k * n)⌋ = n * k := by omega
    rw [← hfloor]
    apply representable_floor
    exact representable_rounded _
  · intro hproduct
    rcases hk.eq_or_lt with rfl | hpos
    · simp
    -- rounding the factor first does no harm, since it is a number of the format itself
    have hfactor : Representable k := by
      apply hproduct.of_dvd (Dvd.intro_left _ rfl)
      exact (mul_pos (by exact_mod_cast hn) hpos).ne'
    apply scaledCount_of_exact hfactor hproduct _ hends hfits.le
    push_cast
    ring

end Span

namespace TimingParams

variable {o : TimingOptions} {p : TimingParams} {d : Span} {n : ℕ}

theorem activeDuration_of_iterations_zero (h : (p.iterations == 0) = true) :
    p.activeDuration = .zero := by
  rw [activeDuration]
  cases p.duration <;> simp [h]

/-- A whole number of iterations that takes less than the greatest span takes exactly that many
times the duration exactly if this time is a number of the format, as every time up to `2 ^ 53`
nanoseconds is. -/
theorem activeDuration_eq_product_iff (h : ofOptions o = .ok p) (hd : o.duration = some d)
    (hn : HasValue o.iterations n) (hfits : n * d.ns < 2 ^ 63 - 1) :
    (p.activeDuration.ns = n * d.ns ↔ Representable ((n * d.ns : ℤ) : ℚ)) ∧
      (n * d.ns ≤ 2 ^ 53 → p.activeDuration.ns = n * d.ns) := by
  obtain ⟨hvalid, rfl⟩ := ofOptions_eq_ok_iff.mp h
  have hnonneg : 0 ≤ d.ns := hvalid.nonneg_of_duration hd
  have hiff : p.activeDuration.ns = n * d.ns ↔ Representable ((n * d.ns : ℤ) : ℚ) := by
    rcases Nat.eq_zero_or_pos n with rfl | hpos
    · rw [activeDuration_of_iterations_zero ((hn.beq_iff hasValue_zero).mpr (by simp))]
      simp
    · rw [activeDuration_ns hd hnonneg hn (by exact_mod_cast hpos)]
      exact Span.scaledCount_natCast_eq_iff hnonneg hpos (by omega)
  refine ⟨hiff, ?_⟩
  intro hsmall
  apply hiff.mpr
  apply representable_intCast
  rw [abs_of_nonneg (mul_nonneg (Int.natCast_nonneg n) hnonneg)]
  omega

/-- Some iterations of a duration, with nothing else specified. -/
def repeating (duration : Span) (iterations : Float) : TimingOptions :=
  { duration := some duration, iterations }

/-- Four times an even duration beyond `2 ^ 53` is exact. -/
theorem activeDuration_eq_product_fourTimes :
    ∃ p, ofOptions (repeating (.clamp 9007199254740994) 4) = .ok p ∧
      p.activeDuration.ns = 36028797018963976 := by
  have hfour : HasValue 4 (4 : ℕ) := hasValue_ofNat_of_le (n := 4) (by norm_num)
  refine ⟨_, rfl, ?_⟩
  have hexact :=
    (activeDuration_eq_product_iff (o := repeating (.clamp 9007199254740994) 4) rfl rfl hfour
    (by decide)).1
  apply hexact.mpr
  refine ⟨4503599627370497, 3, by norm_num, by norm_num, ?_⟩
  show (((4 : ℕ) * (9007199254740994 : ℤ) : ℤ) : ℚ) = _
  norm_num

/-- One iteration of the least duration that is no number of the format is a nanosecond short. -/
theorem activeDuration_ne_duration :
    ∃ p, ofOptions (repeating (.clamp 9007199254740993) 1) = .ok p ∧
      p.duration.map Span.ns = some 9007199254740993 ∧ p.activeDuration.ns = 9007199254740992 :=
  ⟨_, rfl, rfl, by decide +kernel⟩

end TimingParams

end EffectTiming
