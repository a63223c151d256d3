/-!
# Words

Whole numbers of sixty-four bits: their number, the bound of the signed ones, and the signed word
that stands for an exact number.
-/

namespace EffectTiming.Word

/-- The number of words, `2 ^ 64`. -/
abbrev count : Nat := 18446744073709551616

/-- The first number beyond the signed words, `2 ^ 63`. -/
abbrev half : Nat := 9223372036854775808

/-- The signed word that agrees with an exact number modulo the number of words. -/
def signed (n : Int) : Int := Int.bmod n count

/-- A signed word is not below `-2 ^ 63`. -/
theorem neg_half_le_signed (n : Int) : -9223372036854775808 ≤ signed n := by
  have := Int.le_bmod (x := n) (m := count) (by decide)
  unfold signed count at *
  omega

/-- A signed word is below `2 ^ 63`. -/
theorem signed_le (n : Int) : signed n ≤ 9223372036854775807 := by
  have := Int.bmod_lt (x := n) (m := count) (by decide)
  unfold signed count at *
  omega

/-- A number within the range is its own signed word. -/
theorem signed_of_le {n : Int} (hlow : -9223372036854775808 ≤ n) (hhigh : n ≤ 9223372036854775807) :
    signed n = n := by
  unfold signed count
  exact Int.bmod_eq_of_le (by omega) (by omega)

end EffectTiming.Word
