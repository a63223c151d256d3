import Mathlib
import EffectTiming.Time.Span
import EffectTiming.Proofs.Binary64.Whole

/-!
# Arithmetic of spans

What the operations of a span do to its count of nanoseconds. Scaling and ratios go through binary64
numbers: the count is rounded to one, the product or quotient is rounded once more, and a scaled
span drops the fraction of a nanosecond.

## Main statements

* `Span.checked_wrap_add`: a sum of words whose sign is tested is the exact sum, cut off at the
  extremes.
* `Span.add_ns`, `Span.sub_ns`: sums and differences of all spans, the extremes among them.
* `Span.add_comm`, `Span.add_le_add_right`: sums do not depend on the order of the summands, and are
  monotone.
* `Span.scale_ns`: scaling a span that is not negative by a number that is not negative.
* `Span.scale_eq_clamp`: scaling a span of either sign that ends.
* `Span.hasValue_ratio`: the ratio of two spans that end.
* `Span.ofFloat_eq_wrap`: the whole part of a number as a span.
-/

namespace EffectTiming.Span

open Binary64

variable {d o : Span} {f : Float} {q : ℚ}

/-! ### Counts -/

@[simp]
theorem zero_ns : zero.ns = 0 := rfl

@[simp]
theorem forever_ns : forever.ns = 9223372036854775807 := rfl

@[simp]
theorem negForever_ns : negForever.ns = -9223372036854775808 := rfl

theorem lt_iff (d o : Span) : d < o ↔ d.ns < o.ns := Iff.rfl

theorem le_iff (d o : Span) : d ≤ o ↔ d.ns ≤ o.ns := Iff.rfl

theorem eq_iff (d o : Span) : d = o ↔ d.ns = o.ns := Span.ext_iff

theorem neg_le_ns (d : Span) : -9223372036854775808 ≤ d.ns := d.least_le

theorem ns_le (d : Span) : d.ns ≤ 9223372036854775807 := d.le_greatest

theorem clamp_ns (n : ℤ) :
    (clamp n).ns = Max.max (-9223372036854775808) (Min.min n 9223372036854775807) := by
  rw [clamp]
  split
  · rename_i h
    change n < -9223372036854775808 at h
    rw [negForever_ns]
    omega
  · rename_i h
    change ¬ n < -9223372036854775808 at h
    split
    · rename_i h'
      change 9223372036854775807 < n at h'
      rw [forever_ns]
      omega
    · rename_i h'
      change ¬ 9223372036854775807 < n at h'
      show n = _
      omega

theorem max_ns (d o : Span) : (d.max o).ns = Max.max d.ns o.ns := by
  rw [max]
  split <;> omega

theorem min_ns (d o : Span) : (d.min o).ns = Min.min d.ns o.ns := by
  rw [min]
  split <;> omega

/-! ### Words -/

theorem wrap_ns (d : Span) : wrap d.ns = d := Span.ext (Word.signed_of_le d.least_le d.le_greatest)

theorem wrap_add (m n : ℤ) : wrap ((wrap m).ns + n) = wrap (m + n) := Span.ext Int.bmod_add_bmod

theorem wrap_add_congr {m n : ℤ} (h : wrap m = wrap n) (k : ℤ) : wrap (m + k) = wrap (n + k) := by
  rw [← wrap_add, h, wrap_add]

theorem wrap_emod (n : ℤ) :
    (wrap n).ns % 18446744073709551616 = n % 18446744073709551616 := Int.bmod_emod

theorem wrap_of_le {n : ℤ} (hlow : least ≤ n) (hhigh : n ≤ greatest) : wrap n = ⟨n, hlow, hhigh⟩ :=
  Span.ext (Word.signed_of_le hlow hhigh)

/-! ### Sums and differences -/

theorem eq_forever_iff : d = forever ↔ d.ns = 9223372036854775807 := eq_iff d forever

theorem ne_forever_of_lt (h : d.ns < 9223372036854775807) : d ≠ forever :=
  fun heq => h.ne (eq_forever_iff.mp heq)

theorem eq_negForever_iff : d = negForever ↔ d.ns = -9223372036854775808 := eq_iff d negForever

/-- A word that two positive counts overflow turns negative. -/
theorem wrap_add_neg_iff (hd : 0 < d.ns) (ho : 0 < o.ns) :
    (wrap (d.ns + o.ns)).ns < 0 ↔ 9223372036854775807 < d.ns + o.ns := by
  have hword := wrap_emod (d.ns + o.ns)
  have hlow := (wrap (d.ns + o.ns)).neg_le_ns
  have hhigh := (wrap (d.ns + o.ns)).ns_le
  have hdle := d.ns_le
  have hole := o.ns_le
  omega

/-- A word that two negative counts overflow loses its sign. -/
theorem wrap_add_nonneg_iff (hd : d.ns < 0) (ho : o.ns < 0) :
    0 ≤ (wrap (d.ns + o.ns)).ns ↔ d.ns + o.ns < -9223372036854775808 := by
  have hword := wrap_emod (d.ns + o.ns)
  have hlow := (wrap (d.ns + o.ns)).neg_le_ns
  have hhigh := (wrap (d.ns + o.ns)).ns_le
  have hdge := d.neg_le_ns
  have hoge := o.neg_le_ns
  omega

/-- The test of the sign finds every sum of words that left the range. -/
theorem checked_wrap_add (d o : Span) :
    (if zero < d ∧ zero < o ∧ wrap (d.ns + o.ns) < zero then forever
      else if d < zero ∧ o < zero ∧ zero ≤ wrap (d.ns + o.ns) then negForever
      else wrap (d.ns + o.ns)) = clamp (d.ns + o.ns) := by
  have hdge := d.neg_le_ns
  have hdle := d.ns_le
  have hoge := o.neg_le_ns
  have hole := o.ns_le
  simp only [lt_iff, le_iff, zero_ns]
  apply Span.ext
  rw [clamp_ns]
  split_ifs with hover hunder
  · have hsum := (wrap_add_neg_iff hover.1 hover.2.1).mp hover.2.2
    rw [forever_ns]
    omega
  · have hsum := (wrap_add_nonneg_iff hunder.1 hunder.2.1).mp hunder.2.2
    rw [negForever_ns]
    omega
  · -- two counts of different signs always stay within the range
    have hhigh : d.ns + o.ns ≤ 9223372036854775807 := by
      by_contra hsum
      have hpos : 0 < d.ns ∧ 0 < o.ns := by omega
      exact hover ⟨hpos.1, hpos.2, (wrap_add_neg_iff hpos.1 hpos.2).mpr (not_le.mp hsum)⟩
    have hlow : -9223372036854775808 ≤ d.ns + o.ns := by
      by_contra hsum
      have hneg : d.ns < 0 ∧ o.ns < 0 := by omega
      exact hunder ⟨hneg.1, hneg.2, (wrap_add_nonneg_iff hneg.1 hneg.2).mpr (not_le.mp hsum)⟩
    rw [wrap_of_le hlow hhigh]
    show d.ns + o.ns = _
    omega

/-- The exact sum, cut off at the extremes; a summand at an extreme stays there. -/
theorem add_eq_ite (d o : Span) : d.add o =
    if d = forever ∨ o = forever then forever
    else if d = negForever ∨ o = negForever then negForever
    else clamp (d.ns + o.ns) := by
  rw [add, checked_wrap_add]

theorem add_ns (d o : Span) : (d.add o).ns =
    if d.ns = 9223372036854775807 ∨ o.ns = 9223372036854775807 then 9223372036854775807
    else if d.ns = -9223372036854775808 ∨ o.ns = -9223372036854775808 then -9223372036854775808
    else Max.max (-9223372036854775808) (Min.min (d.ns + o.ns) 9223372036854775807) := by
  simp only [add_eq_ite, eq_forever_iff, eq_negForever_iff]
  split_ifs
  · rfl
  · rfl
  · exact clamp_ns _

@[simp]
theorem zero_add (d : Span) : zero.add d = d := by
  have hge := d.neg_le_ns
  have hle := d.ns_le
  apply Span.ext
  rw [add_ns, zero_ns]
  grind

@[simp]
theorem add_zero (d : Span) : d.add zero = d := by
  have hge := d.neg_le_ns
  have hle := d.ns_le
  apply Span.ext
  rw [add_ns, zero_ns]
  grind

theorem add_comm (d o : Span) : d.add o = o.add d := by
  simp only [add_eq_ite, or_comm (a := o = _), Int.add_comm o.ns]

theorem clamp_mono {m n : ℤ} (h : m ≤ n) : clamp m ≤ clamp n := by
  rw [le_iff, clamp_ns, clamp_ns]
  omega

/-- The later of two spans gives the later sum, at the extremes too. -/
theorem add_le_add_right {d d' : Span} (h : d ≤ d') (o : Span) : d.add o ≤ d'.add o := by
  have hle : d.ns ≤ d'.ns := h
  have hdge := d.neg_le_ns
  have hdle := d'.ns_le
  have hend : d = forever → d' = forever := by
    rw [eq_forever_iff, eq_forever_iff]
    omega
  have hbegin : d' = negForever → d = negForever := by
    rw [eq_negForever_iff, eq_negForever_iff]
    omega
  by_cases hright : d' = forever ∨ o = forever
  · -- nothing is later than the sum on the right
    rw [add_eq_ite d' o, if_pos hright]
    exact (d.add o).ns_le
  have hright' : ¬ (d = forever ∨ o = forever) := mt (Or.imp_left hend) hright
  by_cases hleft : d = negForever ∨ o = negForever
  · -- nothing is earlier than the sum on the left
    rw [add_eq_ite d o, if_neg hright', if_pos hleft]
    exact (d'.add o).neg_le_ns
  have hleft' : ¬ (d' = negForever ∨ o = negForever) := mt (Or.imp_left hbegin) hleft
  rw [add_eq_ite d o, if_neg hright', if_neg hleft, add_eq_ite d' o, if_neg hright, if_neg hleft']
  apply clamp_mono
  omega

/-- A sum refines the exact one: "without end" wins over "without beginning", either wins over a
span that ends, and two spans that end have their exact sum, cut off at the extremes. So the order
of the summands does not matter, and a later summand never gives an earlier sum. -/
theorem add_refines (d o : Span) :
    (d.add o =
      if d = forever ∨ o = forever then forever
      else if d = negForever ∨ o = negForever then negForever
      else clamp (d.ns + o.ns)) ∧
    d.add o = o.add d ∧
    (∀ d', d ≤ d' → d.add o ≤ d'.add o) ∧
    ∀ o', o ≤ o' → d.add o ≤ d.add o' := by
  refine ⟨add_eq_ite d o, add_comm d o, ?_, ?_⟩
  · intro d' h
    exact add_le_add_right h o
  · intro o' h
    rw [add_comm d o, add_comm d o']
    exact add_le_add_right h d

theorem neg_ns (o : Span) : o.neg.ns =
    if o.ns = 9223372036854775807 then -9223372036854775808
    else Min.min (-o.ns) 9223372036854775807 := by
  have hge := o.neg_le_ns
  have hle := o.ns_le
  simp only [neg, eq_forever_iff, eq_negForever_iff]
  split_ifs with hforever hneg
  · rfl
  · rw [forever_ns]
    omega
  · rw [wrap_of_le (by show -9223372036854775808 ≤ _; omega)
      (by show _ ≤ 9223372036854775807; omega)]
    show -o.ns = _
    omega

/-- The exact difference, cut off at the extremes. The negated count of a span one nanosecond short
of the least one is the greatest count, which stays where it is. -/
theorem sub_ns (d o : Span) : (d.sub o).ns =
    if d.ns = 9223372036854775807 ∨ o.ns ≤ -9223372036854775807 then 9223372036854775807
    else if d.ns = -9223372036854775808 ∨ o.ns = 9223372036854775807 then -9223372036854775808
    else Max.max (-9223372036854775808) (Min.min (d.ns - o.ns) 9223372036854775807) := by
  have hle := o.ns_le
  have hge := o.neg_le_ns
  rw [sub, add_ns, neg_ns]
  grind

theorem isForever_eq_false_iff :
    d.isForever = false ↔ -9223372036854775808 < d.ns ∧ d.ns < 9223372036854775807 := by
  have hge := d.neg_le_ns
  have hle := d.ns_le
  simp only [isForever, Bool.or_eq_false_iff, beq_eq_false_iff_ne, ne_eq,
    eq_forever_iff, eq_negForever_iff]
  omega

/-- The difference of two spans that end is the exact one, cut off at the extremes, with one
exception. The span a nanosecond short of the least one has the greatest count as its negation; that
stands for "without end", so nothing negative is added to it any more. -/
theorem sub_eq_clamp_iff (hd : d.isForever = false) (ho : o.isForever = false) :
    d.sub o = clamp (d.ns - o.ns) ↔ (o.ns = -9223372036854775807 → 0 ≤ d.ns) := by
  obtain ⟨hdge, hdle⟩ := isForever_eq_false_iff.mp hd
  obtain ⟨hoge, hole⟩ := isForever_eq_false_iff.mp ho
  rw [eq_iff, sub_ns, clamp_ns]
  by_cases hshort : o.ns = -9223372036854775807
  · -- the difference is without end, and the exact one reaches the extreme from zero on
    rw [if_pos (Or.inr hshort.le), hshort]
    simp only [forall_const]
    omega
  · rw [if_neg (by omega), if_neg (by omega)]
    simp [hshort]

theorem sub_eq_clamp_farApart :
    (clamp (-2)).sub (clamp (-9223372036854775806)) = clamp 9223372036854775804 ∧
      (clamp 9223372036854775806).sub (clamp (-9223372036854775807)) = forever :=
  ⟨(sub_eq_clamp_iff (by decide) (by decide)).mpr (by decide),
    (sub_eq_clamp_iff (by decide) (by decide)).mpr (by decide)⟩

/-- A nanosecond short of the least span, nothing is left if a span is taken away from itself, but
the difference is without end. -/
theorem sub_self_forever :
    (clamp (-9223372036854775807)).isForever = false ∧
      (clamp (-9223372036854775807)).sub (clamp (-9223372036854775807)) = forever ∧
      clamp ((clamp (-9223372036854775807)).ns - (clamp (-9223372036854775807)).ns) = zero := by
  decide

/-! ### Numbers -/

theorem abs_ns_le (d : Span) : |d.ns| ≤ 2 ^ 63 := by
  have h1 := d.neg_le_ns
  have h2 := d.ns_le
  exact abs_le.mpr ⟨by omega, by omega⟩

theorem hasValue_toFloat (d : Span) : HasValue d.toFloat (rounded d.ns) := by
  refine hasValue_ofInt d.ns (lt_of_le_of_lt ?_ (pow_lt_limit (k := 63) (by norm_num)))
  exact abs_rounded_le_pow (by exact_mod_cast d.abs_ns_le)

theorem abs_rounded_ns_le (d : Span) : |rounded d.ns| ≤ 2 ^ 63 :=
  abs_rounded_le_pow (by exact_mod_cast d.abs_ns_le)

theorem one_le_rounded_ns (h : 0 < d.ns) : 1 ≤ rounded d.ns :=
  le_rounded representable_one (by exact_mod_cast h)

theorem rounded_ns_nonneg (h : 0 ≤ d.ns) : 0 ≤ rounded d.ns := rounded_nonneg (by exact_mod_cast h)

/-- The bound of the signed words as a number. -/
theorem hasValue_wordBound : HasValue 9223372036854775808 9223372036854775808 := by
  have h := hasValue_two_pow (k := 63) (by norm_num)
  norm_num at h
  exact h

/-! ### Whole parts -/

/-- A number of the size of a count keeps its whole part, the first one beyond the greatest count as
a word. -/
theorem ofFloat_eq_wrap {x : Float} {z : ℚ} (hx : HasValue x z) (hsize : |z| ≤ 2 ^ 63) :
    ofFloat x = wrap (towardZero z) := by
  obtain ⟨hlow, hhigh⟩ := abs_le.mp hsize
  norm_num at hlow hhigh
  have hnan : x.isNaN = false := hx.isNaN
  have hnot : ¬ x < -9223372036854775808 := by
    rw [hx.lt_iff hasValue_wordBound.neg]
    linarith
  rw [ofFloat, hnan, Bool.or_false, decide_eq_false hnot, Bool.or_false]
  simp only [ge_iff_le, hasValue_wordBound.le_iff hx, decide_eq_true_eq]
  split
  · rename_i hle
    obtain rfl : z = (9223372036854775808 : ℤ) := by push_cast; linarith
    rw [towardZero_intCast]
    rfl
  · rename_i hlt
    have hge : -9223372036854775808 ≤ towardZero z :=
      le_towardZero (by norm_num) (by exact_mod_cast hlow)
    have hle : towardZero z ≤ 9223372036854775807 := by
      have : towardZero z < 9223372036854775808 :=
        towardZero_lt (by norm_num) (by exact_mod_cast not_le.mp hlt)
      omega
    rw [hx.truncate, wrap_of_le hge hle]
    apply Span.ext
    rw [clamp_ns]
    show _ = towardZero z
    omega

/-! ### Scaling -/

theorem isForever_iff (h : 0 ≤ d.ns) : d.isForever = true ↔ d = forever := by
  rw [isForever, Bool.or_eq_true, beq_iff_eq, beq_iff_eq, or_iff_left]
  rintro rfl
  exact absurd h (by decide)

theorem isForever_eq_false (h : 0 ≤ d.ns) (hne : d ≠ forever) : d.isForever = false := by
  rw [Bool.eq_false_iff, ne_eq, isForever_iff h]
  exact hne

@[simp]
theorem zero_scale (f : Float) : zero.scale f = zero := by
  rw [scale, if_pos]
  simp

/-- The case in which a product is formed. -/
theorem scale_of_ne (hd : d ≠ zero) (hf : (f == 0) = false) (hnan : f.isNaN = false) :
    d.scale f =
      if d.isForever then
        if decide (d = forever) == decide (0 < f) then forever else negForever
      else if d.toFloat * f ≥ 9223372036854775808 then forever
      else if d.toFloat * f ≤ -9223372036854775808 then negForever
      else clamp (Binary64.truncate (d.toFloat * f)) := by
  rw [scale, if_neg]
  simp [-Float.isNaN_eq_decide_eq_nan, hd, hf, hnan]

/-- A number without its fraction, cut off at the extremes. -/
theorem cut_eq_clamp {x : Float} {z : ℚ} (hx : HasValue x z) :
    (if x ≥ 9223372036854775808 then forever
      else if x ≤ -9223372036854775808 then negForever
      else clamp (Binary64.truncate x)) = clamp (towardZero z) := by
  split_ifs with hhigh hlow
  · have hhigh : 9223372036854775808 ≤ z := (hasValue_wordBound.le_iff hx).mp hhigh
    have : (9223372036854775808 : ℤ) ≤ ⌊z⌋ := Int.le_floor.mpr (by exact_mod_cast hhigh)
    apply Span.ext
    rw [towardZero_of_nonneg (by linarith), forever_ns, clamp_ns]
    omega
  · have hlow : z ≤ -9223372036854775808 := (hx.le_iff hasValue_wordBound.neg).mp hlow
    have : ⌈z⌉ ≤ (-9223372036854775808 : ℤ) := Int.ceil_le.mpr (by exact_mod_cast hlow)
    apply Span.ext
    rw [towardZero_of_nonpos (by linarith), negForever_ns, clamp_ns]
    omega
  · rw [hx.truncate]

/-- The product of a count and a number that is not negative, cut off at the greatest count. -/
theorem product_ns {x : Float} {z : ℚ} (hz : 0 ≤ z)
    (hx : (z < limit ∧ HasValue x z) ∨ (limit ≤ z ∧ IsInfinite x)) :
    (if x ≥ 9223372036854775808 then forever
      else if x ≤ -9223372036854775808 then negForever
      else clamp (Binary64.truncate x)).ns = Min.min 9223372036854775807 ⌊z⌋ := by
  rcases hx with ⟨-, hx⟩ | ⟨hle, hx⟩
  · have hfloor : 0 ≤ ⌊z⌋ := Int.floor_nonneg.mpr hz
    rw [cut_eq_clamp hx, clamp_ns, towardZero_of_nonneg hz]
    omega
  · have hlimit := pow_lt_limit (k := 63) (by norm_num)
    have hfloor : (9223372036854775808 : ℤ) ≤ ⌊z⌋ :=
      Int.le_floor.mpr (by norm_num at hlimit ⊢; linarith)
    rw [if_pos (hx.le hasValue_wordBound), forever_ns]
    omega

/-- The count of a span of `k` nanoseconds that is scaled by `q`: the floor of the product of the
rounded count, itself rounded, as long as that fits. A span without end stays one. -/
def scaledCount (k : ℤ) (q : ℚ) : ℤ :=
  if k = 9223372036854775807 ∧ 0 < q then 9223372036854775807
  else Min.min 9223372036854775807 ⌊rounded (rounded k * q)⌋

theorem scaledCount_nonneg {k : ℤ} (hk : 0 ≤ k) (hq : 0 ≤ q) : 0 ≤ scaledCount k q := by
  rw [scaledCount]
  split
  · norm_num
  · have : 0 ≤ ⌊rounded (rounded k * q)⌋ := Int.floor_nonneg.mpr
      (rounded_nonneg (mul_nonneg (rounded_nonneg (by exact_mod_cast hk)) hq))
    omega

theorem scaledCount_mono {k : ℤ} {q q' : ℚ} (hk : 0 ≤ k) (h : q ≤ q') :
    scaledCount k q ≤ scaledCount k q' := by
  have hproduct : ⌊rounded (rounded k * q)⌋ ≤ ⌊rounded (rounded k * q')⌋ := by
    apply Int.floor_mono
    apply rounded_mono
    exact mul_le_mul_of_nonneg_left h (rounded_nonneg (by exact_mod_cast hk))
  rw [scaledCount, scaledCount]
  by_cases hforever : k = 9223372036854775807 ∧ 0 < q'
  · rw [if_pos hforever]
    split_ifs
    · exact le_rfl
    · exact min_le_left _ _
  · have hforever' : ¬ (k = 9223372036854775807 ∧ 0 < q) :=
      fun hc => hforever ⟨hc.1, hc.2.trans_le h⟩
    rw [if_neg hforever, if_neg hforever']
    exact min_le_min_left _ hproduct

@[simp]
theorem scaledCount_zero_right (k : ℤ) : scaledCount k 0 = 0 := by
  rw [scaledCount, if_neg (fun hc => lt_irrefl 0 hc.2), mul_zero, rounded_zero, Int.floor_zero]
  rfl

@[simp]
theorem scaledCount_zero_left (q : ℚ) : scaledCount 0 q = 0 := by
  rw [scaledCount, if_neg (fun hc => absurd hc.1 (by decide)), Int.cast_zero,
    rounded_zero, zero_mul, rounded_zero, Int.floor_zero]
  rfl

/-- A product of exact numbers is itself the scaled count. -/
theorem scaledCount_of_exact {k m : ℤ} (hk : Representable k) (hm : Representable m)
    (h : k * q = m) (hk' : k < 9223372036854775807) (hm' : m ≤ 9223372036854775807) :
    scaledCount k q = m := by
  rw [scaledCount, if_neg (fun hc => hk'.ne hc.1), rounded_of_representable hk, h,
    rounded_of_representable hm, Int.floor_intCast]
  exact min_eq_right hm'

/-- Scaling a span that is not negative by a number that is not negative. -/
theorem scale_ns (hd : 0 ≤ d.ns) (hf : HasValue f q) (hq : 0 ≤ q) :
    (d.scale f).ns = scaledCount d.ns q := by
  have hforever : d = forever ↔ d.ns = 9223372036854775807 := eq_iff d forever
  simp only [scaledCount, ← hforever]
  have hnan : f.isNaN = false := hf.isNaN
  by_cases hd0 : d = zero
  · have hne : d ≠ forever := by
      rw [hd0]
      decide
    rw [scale, if_pos (by simp [hd0]), if_neg (fun h => hne h.1), hd0]
    simp
  by_cases hq0 : q = 0
  · have hf0 : (f == 0) = true := (hf.beq_iff hasValue_zero).mpr hq0
    rw [scale, if_pos (by simp [hf0]), if_neg (fun h => h.2.ne' hq0), hq0]
    simp
  have hpos : 0 < q := lt_of_le_of_ne hq (Ne.symm hq0)
  have hf0 : (f == 0) = false := by
    rw [Bool.eq_false_iff, ne_eq, hf.beq_iff hasValue_zero]
    exact hq0
  rw [scale_of_ne hd0 hf0 hnan]
  by_cases hforever : d = forever
  · have : (0 : Float) < f := (hasValue_zero.lt_iff hf).mpr hpos
    rw [if_pos ((isForever_iff hd).mpr hforever), if_pos (by simp [hforever, this]),
      if_pos ⟨hforever, hpos⟩, forever_ns]
  · have hz : 0 ≤ rounded (rounded d.ns * q) :=
      rounded_nonneg (mul_nonneg (rounded_ns_nonneg hd) hq)
    rw [if_neg (mt (isForever_iff hd).mp hforever)]
    refine (product_ns hz ?_).trans (if_neg fun h => hforever h.1).symm
    rcases lt_or_ge (rounded (rounded d.ns * q)) limit with hlt | hge
    · exact Or.inl ⟨hlt, d.hasValue_toFloat.mul hf (by rwa [abs_of_nonneg hz])⟩
    · exact Or.inr ⟨hge, d.hasValue_toFloat.mul_isInfinite hf hge⟩

/-- The count of a span of either sign that is scaled by `q`, before it is cut off. -/
def scaledShift (k : ℤ) (q : ℚ) : ℤ := towardZero (rounded (rounded k * q))

@[simp]
theorem scaledShift_zero (k : ℤ) : scaledShift k 0 = 0 := by
  rw [scaledShift, mul_zero, rounded_zero]
  exact towardZero_intCast 0

/-- Scaling a span by a number of the size of a count. A span without end is not scaled, only
dropped. -/
theorem scale_eq_clamp (hd : d.isForever = true → q = 0) (hf : HasValue f q)
    (hbound : |q| ≤ 2 ^ 63) :
    d.scale f = clamp (scaledShift d.ns q) := by
  by_cases hq0 : q = 0
  · have hf0 : (f == 0) = true := (hf.beq_iff hasValue_zero).mpr hq0
    rw [scale, if_pos (by simp [hf0]), hq0, scaledShift_zero]
    rfl
  by_cases hd0 : d = zero
  · rw [hd0, zero_scale, scaledShift, zero_ns, Int.cast_zero, rounded_zero, zero_mul, rounded_zero]
    exact congrArg clamp (towardZero_intCast 0).symm
  have hf0 : (f == 0) = false := by
    rw [Bool.eq_false_iff, ne_eq, hf.beq_iff hasValue_zero]
    exact hq0
  have hproduct : |rounded d.ns * q| ≤ 2 ^ 126 := by
    rw [abs_mul]
    calc |rounded d.ns| * |q| ≤ 2 ^ 63 * 2 ^ 63 :=
          mul_le_mul d.abs_rounded_ns_le hbound (abs_nonneg q) (by norm_num)
      _ = 2 ^ 126 := by norm_num
  rw [scale_of_ne hd0 hf0 hf.isNaN, if_neg (mt hd hq0)]
  exact cut_eq_clamp (d.hasValue_toFloat.mul hf
    ((abs_rounded_le_pow hproduct).trans_lt (pow_lt_limit (by norm_num))))

/-- Some time, repeated without end, is without end. -/
theorem scale_of_isInfinite (hd : 0 < d.ns) (hf : IsInfinite f) : d.scale f = forever := by
  have hd0 : d ≠ zero := by
    rintro rfl
    exact absurd hd (by decide)
  have hpos : (0 : Float) < f := hf.lt hasValue_zero
  rw [scale_of_ne hd0 (hf.beq hasValue_zero) hf.isNaN]
  split
  · rename_i hforever
    rw [if_pos (by simp [(isForever_iff hd.le).mp hforever, hpos])]
  · rw [if_pos]
    have hone := one_le_rounded_ns hd
    exact (d.hasValue_toFloat.mul_infinite (by linarith) hf).le hasValue_wordBound

/-- Dividing a span that ends by a positive number. An inverse too large to be a number makes it one
without end, as its exact value would. -/
theorem scale_inverse_ns {x : Float} {n : ℚ} (hpos : 0 < d.ns) (hends : d ≠ forever)
    (hx : HasValue x n) (hn : 0 < n) : (d.scale (1 / x)).ns =
    scaledCount d.ns (rounded (1 / n)) := by
  have hinv : 0 ≤ rounded (1 / n) := rounded_nonneg (by positivity)
  rcases lt_or_ge (rounded (1 / n)) limit with hlt | hge
  · have hvalue : HasValue (1 / x) (rounded (1 / n)) :=
      hasValue_one.div hx hn.ne' (by rwa [abs_of_nonneg hinv])
    exact scale_ns hpos.le hvalue hinv
  · -- the inverse is infinite, and its exact value already passes the greatest count
    have hone := one_le_rounded_ns hpos
    have hbound : (2 : ℚ) ^ 63 ≤ rounded d.ns * rounded (1 / n) := by
      have := pow_lt_limit (k := 63) (by norm_num)
      nlinarith
    have hrounded : (2 : ℚ) ^ 63 ≤ rounded (rounded d.ns * rounded (1 / n)) :=
      le_rounded (by simpa using representable_zpow (e := 63) (by norm_num)) hbound
    have hfloor : (9223372036854775808 : ℤ) ≤ ⌊rounded (rounded d.ns * rounded (1 / n))⌋ :=
      Int.le_floor.mpr (by norm_num at hrounded ⊢; exact hrounded)
    rw [scale_of_isInfinite hpos (hasValue_one.div_isInfinite hx hn.ne' hge),
      forever_ns, scaledCount, if_neg (fun hc => hends (Span.ext hc.1))]
    omega

/-! ### Ratios -/

/-- The ratio of two spans that end is the rounded quotient of their rounded counts. -/
theorem hasValue_ratio (hd : d.isForever = false) (ho : o.isForever = false) (hpos : 0 < o.ns) :
    HasValue (d.ratio o) (rounded (rounded d.ns / rounded o.ns)) ∧
      |rounded (rounded d.ns / rounded o.ns)| ≤ 2 ^ 63 := by
  have hone := one_le_rounded_ns hpos
  have hsize : |rounded (rounded d.ns / rounded o.ns)| ≤ 2 ^ 63 := by
    apply abs_rounded_le_pow
    rw [abs_div, abs_of_pos (by linarith : 0 < rounded (o.ns : ℚ))]
    exact (div_le_self (abs_nonneg _) hone).trans d.abs_rounded_ns_le
  refine ⟨?_, hsize⟩
  rw [ratio, if_neg (by simp [hd]), if_neg (by simp [ho])]
  exact d.hasValue_toFloat.div o.hasValue_toFloat (by linarith)
    (hsize.trans_lt (pow_lt_limit (by norm_num)))

/-- A ratio is infinite, or of the size of a count. -/
theorem ratio_cases (d : Span) (hpos : 0 < o.ns) :
    (isFinite (d.ratio o) = false ∧ (d.ratio o).isNaN = false) ∨ AtMost (d.ratio o) 63 := by
  by_cases hd : d.isForever = true
  · left
    rw [ratio, if_pos hd]
    split <;> decide
  · by_cases ho : o.isForever = true
    · right
      rw [ratio, if_neg hd, if_pos ho]
      exact atMost_zero 63
    · obtain ⟨h1, h2⟩ := hasValue_ratio (by simpa using hd) (by simpa using ho) hpos
      exact Or.inr ⟨_, h1, h2⟩

theorem isInfinite_infinity : IsInfinite infinity := rfl

/-- A quotient of positive counts is at least that of the least and the greatest one. -/
theorem le_quotient (hd : 0 < d.ns) (ho : 0 < o.ns) :
    (2 : ℚ) ^ (-63 : ℤ) ≤ rounded d.ns / rounded o.ns := by
  have hone := one_le_rounded_ns hd
  have hone' := one_le_rounded_ns ho
  have hle := (abs_le.mp o.abs_rounded_ns_le).2
  rw [le_div_iff₀ (by linarith), zpow_neg, zpow_ofNat]
  calc ((2 : ℚ) ^ 63)⁻¹ * rounded o.ns ≤ (2 ^ 63)⁻¹ * 2 ^ 63 := by gcongr
    _ = 1 := inv_mul_cancel₀ (by norm_num)
    _ ≤ rounded d.ns := hone

/-- A ratio of positive spans is positive. -/
theorem ratio_pos (hd : 0 < d.ns) (ho : 0 < o.ns) (h : o = forever → d = forever) :
    IsInfinite (d.ratio o) ∨ ∃ v, HasValue (d.ratio o) v ∧ 0 < v := by
  by_cases hforever : d = forever
  · left
    have hlt : zero < o := ho
    rw [ratio, if_pos ((isForever_iff hd.le).mpr hforever), if_pos (by simp [hforever, hlt])]
    exact isInfinite_infinity
  · right
    have hd' := isForever_eq_false hd.le hforever
    have ho' := isForever_eq_false ho.le fun heq => hforever (h heq)
    obtain ⟨hvalue, -⟩ := hasValue_ratio hd' ho' ho
    refine ⟨_, hvalue, ?_⟩
    have := le_rounded (representable_zpow (e := -63) (by norm_num)) (le_quotient hd ho)
    have hpos : (0 : ℚ) < 2 ^ (-63 : ℤ) := zpow_pos (by norm_num) _
    linarith

end EffectTiming.Span
