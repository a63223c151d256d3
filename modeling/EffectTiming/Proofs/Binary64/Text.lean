import Mathlib
import EffectTiming.Binary64.Text
import EffectTiming.Proofs.Binary64.Decimal

/-!
# Written numbers are read back

`Spells cs d` is the grammar of the numerals that a layout writes: digits, perhaps a point and more
digits, perhaps an exponent. The reader takes such a numeral for the decimal that it spells, and
every layout spells the shortest decimal of a number, so the text of a finite number is read as the
number.

## Main statements

* `Spells.readDecimal`: the reader on the grammar.
* `exists_spells_decimal`: what a layout writes is in the grammar.
* `ofText?_text`, `text_injective`: reading undoes writing, so a finite number is known from its
  text.
-/

namespace EffectTiming.Binary64

/-! ### Rows of digits -/

/-- All characters are decimal digits. -/
def IsDigits (cs : List Char) : Prop := ∀ c ∈ cs, c.isDigit = true

theorem IsDigits.append {cs ds : List Char} (hc : IsDigits cs) (hd : IsDigits ds) :
    IsDigits (cs ++ ds) := by
  intro c hmem
  exact (List.mem_append.mp hmem).elim (hc c) (hd c)

theorem IsDigits.take {cs : List Char} (h : IsDigits cs) (n : ℕ) : IsDigits (cs.take n) :=
  fun c hmem => h c (List.mem_of_mem_take hmem)

theorem IsDigits.drop {cs : List Char} (h : IsDigits cs) (n : ℕ) : IsDigits (cs.drop n) :=
  fun c hmem => h c (List.mem_of_mem_drop hmem)

theorem IsDigits.filter {cs : List Char} (h : IsDigits cs) : cs.filter Char.isDigit = cs :=
  List.filter_eq_self.mpr h

theorem isDigits_toString (n : ℕ) : IsDigits (toString n).toList := by
  intro c hmem
  rw [Nat.toString_eq_repr, Nat.toList_repr] at hmem
  exact Nat.isDigit_of_mem_toDigits (by norm_num) (by norm_num) hmem

theorem toString_ne_nil (n : ℕ) : (toString n).toList ≠ [] := by
  rw [Nat.toString_eq_repr, Nat.toList_repr]
  exact Nat.toDigits_ne_nil

@[simp]
theorem toList_zeros (n : ℕ) : (zeros n).toList = List.replicate n '0' := String.toList_ofList

theorem isDigits_zeros (n : ℕ) : IsDigits (List.replicate n '0') := by
  intro c hmem
  rw [List.eq_of_mem_replicate hmem]
  rfl

theorem isDigits_padZeros {s : String} (hs : IsDigits s.toList) (n : ℕ) :
    IsDigits (padZeros n s).toList := by
  rw [padZeros, String.toList_append, toList_zeros]
  exact (isDigits_zeros _).append hs

theorem digitsValue_eq (cs : List Char) : digitsValue cs = Nat.ofDigitChars 10 cs 0 := rfl

@[simp]
theorem digitsValue_toString (n : ℕ) : digitsValue (toString n).toList = n := by
  rw [digitsValue_eq, Nat.toString_eq_repr, Nat.toList_repr, Nat.ofDigitChars_ten_toDigits]

@[simp]
theorem digitsValue_padZeros (n : ℕ) (s : String) :
    digitsValue (padZeros n s).toList = digitsValue s.toList := by
  rw [padZeros, String.toList_append, toList_zeros, digitsValue_eq, Nat.ofDigitChars_append,
    Nat.ofDigitChars_replicate_zero, Nat.mul_zero, ← digitsValue_eq]

theorem digitsValue_append_zeros (cs : List Char) (n : ℕ) :
    digitsValue (cs ++ List.replicate n '0') = digitsValue cs * 10 ^ n := by
  rw [digitsValue_eq, Nat.ofDigitChars_append, Nat.ofDigitChars_replicate_zero, ← digitsValue_eq,
    Nat.mul_comm]

theorem le_length_padZeros (n : ℕ) (s : String) : n ≤ (padZeros n s).toList.length := by
  rw [padZeros, String.toList_append, toList_zeros, List.length_append, List.length_replicate,
    String.length_toList]
  omega

/-! ### The grammar -/

/-- What may follow the digits of a numeral, with the exponent that it says. -/
inductive Ending : List Char → ℤ → Prop where
  | nothing : Ending [] 0
  | plus {ds : List Char} (digits : IsDigits ds) (nonempty : ds ≠ [])
      (small : digitsValue ds < 10000) :
    Ending ('e' :: '+' :: ds) (digitsValue ds)
  | minus {ds : List Char} (digits : IsDigits ds) (nonempty : ds ≠ [])
      (small : digitsValue ds < 10000) :
    Ending ('e' :: '-' :: ds) (-digitsValue ds)

/-- The characters spell a decimal. -/
inductive Spells : List Char → Decimal → Prop where
  | whole {ws tail : List Char} {x : ℤ} (digits : IsDigits ws) (nonempty : ws ≠ [])
      (ending : Ending tail x) :
    Spells (ws ++ tail) ⟨digitsValue ws, x⟩
  | point {ws ps tail : List Char} {x : ℤ} (digits : IsDigits ws) (nonempty : ws ≠ [])
    (places : IsDigits ps) (ending : Ending tail x) :
    Spells (ws ++ '.' :: (ps ++ tail)) ⟨digitsValue (ws ++ ps), x - ps.length⟩

/-- The characters of numerals. -/
def isNumeral (c : Char) : Bool := c.isDigit || c == '.' || c == 'e' || c == '+' || c == '-'

theorem isNumeral_of_isDigit {c : Char} (h : c.isDigit = true) : isNumeral c = true := by
  rw [isNumeral, h]
  rfl

theorem Ending.isNumeral {tail : List Char} {x : ℤ} (h : Ending tail x) :
    ∀ c ∈ tail, isNumeral c = true := by
  cases h with
  | nothing => simp
  | plus digits =>
    simp only [List.forall_mem_cons]
    exact ⟨rfl, rfl, fun c hmem => isNumeral_of_isDigit (digits c hmem)⟩
  | minus digits =>
    simp only [List.forall_mem_cons]
    exact ⟨rfl, rfl, fun c hmem => isNumeral_of_isDigit (digits c hmem)⟩

theorem Spells.isNumeral {cs : List Char} {d : Decimal} (h : Spells cs d) :
    ∀ c ∈ cs, isNumeral c = true := by
  cases h with
  | whole digits _ ending =>
    intro c hmem
    exact (List.mem_append.mp hmem).elim (fun h => isNumeral_of_isDigit (digits c h))
      (ending.isNumeral c)
  | point digits _ places ending =>
    simp only [List.forall_mem_append, List.forall_mem_cons]
    exact ⟨fun c h => isNumeral_of_isDigit (digits c h), rfl,
      fun c h => isNumeral_of_isDigit (places c h), ending.isNumeral⟩

/-- A numeral starts with a digit. -/
theorem Spells.head {cs : List Char} {d : Decimal} (h : Spells cs d) :
    ∃ c rest, cs = c :: rest ∧ c.isDigit = true := by
  have key : ∀ {ws rest : List Char}, IsDigits ws → ws ≠ [] →
      ∃ c more, ws ++ rest = c :: more ∧ c.isDigit = true := by
    intro ws rest digits nonempty
    obtain ⟨c, more, rfl⟩ := List.exists_cons_of_ne_nil nonempty
    exact ⟨c, more ++ rest, rfl, digits c List.mem_cons_self⟩
  cases h with
  | whole digits nonempty => exact key digits nonempty
  | point digits nonempty => exact key digits nonempty

/-! ### The reader on the grammar -/

/-- Below ten thousand no digit of an exponent is left out. -/
theorem exponentValue_eq {ds : List Char} (h : digitsValue ds < 10000) :
    exponentValue ds = digitsValue ds := by
  have key : ∀ n, Nat.ofDigitChars 10 ds n < 10000 →
      ds.foldl (fun n c => if n < 10000 then 10 * n + digitValue c else n) n =
        Nat.ofDigitChars 10 ds n := by
    clear h
    induction ds with
    | nil => simp
    | cons c ds ih =>
      intro n hn
      rw [Nat.ofDigitChars_cons] at hn ⊢
      have hle : 10 * n + (c.toNat - '0'.toNat) < 10000 := by
        refine lt_of_le_of_lt ?_ hn
        rw [Nat.ofDigitChars_eq_ofDigitChars_zero]
        have := Nat.one_le_pow ds.length 10 (by norm_num)
        nlinarith
      rw [List.foldl_cons, if_pos (by omega)]
      exact ih _ hn
  exact key 0 h

theorem readExponent_signed (sign : Char) (negative : Bool) {ds : List Char}
    (hsign : takeSign (sign :: ds) = (negative, ds)) (digits : IsDigits ds) (nonempty : ds ≠ [])
    (small : digitsValue ds < 10000) :
    readExponent (sign :: ds) =
    some (if negative then -(digitsValue ds : ℤ) else digitsValue ds) := by
  obtain ⟨c, more, rfl⟩ := List.exists_cons_of_ne_nil nonempty
  have hall : (c :: more).all (fun c => c.isDigit || c == '_') = true := by
    rw [List.all_eq_true]
    intro c hmem
    rw [digits c hmem]
    rfl
  rw [readExponent, hsign]
  simp only [digits c List.mem_cons_self, hall, Bool.and_self, if_true, digits.filter,
    exponentValue_eq small]

/-- An ending does not go on with digits, nor with a point. -/
theorem Ending.cut {tail : List Char} {x : ℤ} (h : Ending tail x) :
    tail.takeWhile (fun c => c.isDigit || c == '_') = [] ∧
      tail.dropWhile (fun c => c.isDigit || c == '_') = tail ∧ tail.head? ≠ some '.' := by
  cases h with
  | nothing => exact ⟨rfl, rfl, by simp⟩
  | plus => exact ⟨rfl, rfl, by simp⟩
  | minus => exact ⟨rfl, rfl, by simp⟩

theorem IsDigits.member {cs : List Char} (h : IsDigits cs) :
    ∀ c ∈ cs, (c.isDigit || c == '_') = true := by
  intro c hmem
  rw [h c hmem]
  rfl

theorem takeMantissa_whole {ws tail : List Char} {x : ℤ} (digits : IsDigits ws)
    (ending : Ending tail x) :
    takeMantissa Char.isDigit (ws ++ tail) = ⟨ws, [], tail⟩ := by
  obtain ⟨htake, hdrop, hpoint⟩ := ending.cut
  unfold takeMantissa
  simp only [List.takeWhile_append_of_pos digits.member, List.dropWhile_append_of_pos digits.member,
    htake, hdrop, List.append_nil]
  split
  · simp at hpoint
  · rfl

theorem takeMantissa_point {ws ps tail : List Char} {x : ℤ} (digits : IsDigits ws)
    (places : IsDigits ps) (ending : Ending tail x) :
    takeMantissa Char.isDigit (ws ++ '.' :: (ps ++ tail)) = ⟨ws, ps, tail⟩ := by
  obtain ⟨htake, hdrop, -⟩ := ending.cut
  have hpoint : ('.'.isDigit || '.' == '_') = false := rfl
  unfold takeMantissa
  simp only [List.takeWhile_append_of_pos digits.member, List.dropWhile_append_of_pos digits.member,
    List.takeWhile_cons, List.dropWhile_cons, hpoint, Bool.false_eq_true, if_false, List.append_nil,
    List.takeWhile_append_of_pos places.member,
    List.dropWhile_append_of_pos places.member, htake, hdrop]

/-- Without underscores there is nothing to group. -/
theorem groupsWell_of_isNumeral (before : Neighbour) {cs : List Char}
    (h : ∀ c ∈ cs, isNumeral c = true) (hbefore : before ≠ .underscore) :
    groupsWell Char.isDigit before cs = true := by
  induction cs generalizing before with
  | nil => simpa [groupsWell] using hbefore
  | cons c cs ih =>
    have hc : c ≠ '_' := by
      rintro rfl
      exact absurd (h '_' List.mem_cons_self) (by decide)
    have hcs : ∀ c ∈ cs, isNumeral c = true := fun c hmem => h c (List.mem_cons_of_mem _ hmem)
    rw [groupsWell, if_neg hc]
    split
    · exact ih .digit hcs (by decide)
    · rw [ih .other hcs (by decide), Bool.and_true, bne_iff_ne]
      exact hbefore

theorem readDecimal_of_takeMantissa {cs ws ps tail : List Char} {x : ℤ}
    (hcs : takeMantissa Char.isDigit cs = ⟨ws, ps, tail⟩)
    (hgroups : groupsWell Char.isDigit .other cs = true) (digits : IsDigits ws) (nonempty : ws ≠ [])
    (places : IsDigits ps) (ending : Ending tail x) (negative : Bool) :
    readDecimal negative cs =
      (finite? (ofDecimal (digitsValue (ws ++ ps)) (x - ps.length))).map (withSign negative) := by
  have hempty : ws.isEmpty = false := List.isEmpty_eq_false_iff.mpr nonempty
  simp only [readDecimal, hcs, digits.filter, places.filter, hempty,
    Bool.false_and, Bool.false_eq_true, if_false, hgroups, if_true]
  cases ending with
  | nothing => rfl
  | plus digits nonempty small =>
    simp only [true_or, if_true, readExponent_signed '+' false rfl digits nonempty small,
      Bool.false_eq_true, if_false]
  | minus digits nonempty small =>
    simp only [true_or, if_true, readExponent_signed '-' true rfl digits nonempty small]

/-- The reader takes a numeral for the decimal that it spells. -/
theorem Spells.readDecimal {cs : List Char} {d : Decimal} (h : Spells cs d) (negative : Bool) :
    readDecimal negative cs =
      (finite? (ofDecimal d.digits d.exponent)).map (withSign negative) := by
  have hgroups := groupsWell_of_isNumeral .other h.isNumeral (by decide)
  cases h with
  | whole digits nonempty ending =>
    simpa using readDecimal_of_takeMantissa (takeMantissa_whole digits ending)
      hgroups digits nonempty
      (by simp [IsDigits]) ending negative
  | point digits nonempty places ending =>
    exact readDecimal_of_takeMantissa (takeMantissa_point digits places ending)
      hgroups digits nonempty
      places ending negative

/-! ### The layouts write the grammar -/

theorem spells_positional_whole {d : Decimal} (hd : 0 ≤ d.exponent) :
    Spells (positional d).toList ⟨d.digits * 10 ^ d.exponent.toNat, 0⟩ := by
  have h := Spells.whole ((isDigits_toString d.digits).append (isDigits_zeros d.exponent.toNat))
    (List.append_ne_nil_of_left_ne_nil (toString_ne_nil d.digits) _) Ending.nothing
  rw [digitsValue_append_zeros, digitsValue_toString, List.append_nil] at h
  rwa [positional, if_pos hd, String.toList_append, toList_zeros]

/-- With a negative exponent the last digits stand behind the point. -/
theorem spells_positional_point {d : Decimal} (hd : d.exponent < 0) :
    Spells (positional d).toList d := by
  set places := (-d.exponent).toNat with hplaces
  set cs := (padZeros (places + 1) d.text).toList with hcs
  have hdigits : IsDigits cs := isDigits_padZeros (isDigits_toString d.digits) _
  have hlen : places + 1 ≤ cs.length := le_length_padZeros _ _
  have hvalue : digitsValue cs = d.digits := by
    rw [hcs, digitsValue_padZeros]
    exact digitsValue_toString d.digits
  have h := Spells.point (hdigits.take (cs.length - places)) (by
    rw [Ne, List.take_eq_nil_iff, ← List.length_eq_zero_iff]
    omega) (hdigits.drop (cs.length - places)) Ending.nothing
  rw [List.take_append_drop, hvalue, List.append_nil, List.length_drop] at h
  have htext : (positional d).toList =
      cs.take (cs.length - places) ++ '.' :: cs.drop (cs.length - places) := by
    rw [positional, if_neg (by omega)]
    simp only [String.toList_append, String.toList_ofList, List.append_assoc, ← hplaces, ← hcs]
    rfl
  rw [htext]
  convert h using 1
  obtain ⟨digits, exponent⟩ := d
  simp only [Decimal.mk.injEq, true_and]
  simp only at hd hplaces
  omega

theorem ending_scientific (width : ℕ) {x : ℤ} (hx : x.natAbs < 10000) :
    Ending ((if x < 0 then "e-" else "e+") ++ padZeros width (toString x.natAbs)).toList x := by
  have hdigits : IsDigits (padZeros width (toString x.natAbs)).toList :=
    isDigits_padZeros (isDigits_toString _) width
  have hvalue : digitsValue (padZeros width (toString x.natAbs)).toList = x.natAbs := by
    rw [digitsValue_padZeros, digitsValue_toString]
  have hne : (padZeros width (toString x.natAbs)).toList ≠ [] := by
    rw [padZeros, String.toList_append]
    exact List.append_ne_nil_of_right_ne_nil _ (toString_ne_nil _)
  split
  · have h := Ending.minus hdigits hne (by rwa [hvalue])
    rw [hvalue, show -(x.natAbs : ℤ) = x by omega] at h
    rwa [String.toList_append]
  · have h := Ending.plus hdigits hne (by rwa [hvalue])
    rw [hvalue, show (x.natAbs : ℤ) = x by omega] at h
    rwa [String.toList_append]

theorem spells_scientific (width : ℕ) {d : Decimal} (hd : d.scientific.natAbs < 10000) :
    Spells (scientific width d).toList d := by
  have hending := ending_scientific width hd
  have hdigits : IsDigits d.text.toList := isDigits_toString d.digits
  have hvalue : digitsValue d.text.toList = d.digits := digitsValue_toString d.digits
  have hexp : d.scientific = d.text.toList.length - 1 + d.exponent := rfl
  rw [scientific]
  simp only [String.append_assoc]
  rw [String.toList_append]
  generalize ((if d.scientific < 0 then "e-" else "e+") ++
    padZeros width (toString d.scientific.natAbs)).toList = tail at hending ⊢
  rcases ht : d.text.toList with _ | ⟨c, _ | ⟨c', rest⟩⟩
  · exact absurd ht (toString_ne_nil d.digits)
  · rw [ht] at hdigits hvalue hexp
    have h := Spells.whole hdigits (List.cons_ne_nil _ _) hending
    rw [hvalue, hexp] at h
    simpa using h
  · rw [ht] at hdigits hvalue hexp
    have h := Spells.point (hdigits.take 1) (by simp) (hdigits.drop 1) hending
    rw [List.take_append_drop, hvalue, hexp] at h
    simpa using h

/-- What a layout writes spells the decimal, perhaps with other digits. -/
theorem exists_spells_decimal (l : Layout) {d : Decimal} (hd : d.scientific.natAbs < 10000) :
    ∃ d', Spells (l.decimal d).toList d' ∧ d'.value = d.value := by
  rw [Layout.decimal]
  split
  · rcases lt_or_ge d.exponent 0 with hneg | hpos
    · exact ⟨d, spells_positional_point hneg, rfl⟩
    · refine ⟨_, spells_positional_whole hpos, ?_⟩
      rw [Decimal.value, Decimal.value, zpow_zero, mul_one]
      push_cast
      rw [← zpow_natCast, Int.toNat_of_nonneg hpos]
  · exact ⟨d, spells_scientific l.exponentWidth hd, rfl⟩

/-! ### Reading what was written -/

theorem takeSign_of_isDigit {c : Char} (hc : c.isDigit = true) (cs : List Char) :
    takeSign (c :: cs) = (false, c :: cs) := by
  rw [takeSign]
  · rintro _ ⟨rfl, rfl⟩
    exact absurd hc (by decide)
  · rintro _ ⟨rfl, rfl⟩
    exact absurd hc (by decide)

theorem toLower_of_isDigit {c : Char} (hc : c.isDigit = true) : c.toLower = c := by
  have hhigh : c.val ≤ '9'.val := of_decide_eq_true (Bool.and_eq_true_iff.mp hc).2
  unfold Char.toLower
  rw [dif_neg]
  rintro ⟨hlow, -⟩
  exact absurd (UInt32.le_trans hlow hhigh) (by decide)

/-- A numeral with or without a minus is read by its digits. -/
theorem ofText?_of_spells {s : String} {cs : List Char} {d : Decimal}
    (h : Spells cs d) (negative : Bool) (hs : s.toList = (if negative then ['-'] else []) ++ cs) :
    ofText? s = readDecimal negative cs := by
  have hchars := h.isNumeral
  obtain ⟨c, rest, rfl, hc⟩ := h.head
  have hsign : takeSign s.toList = (negative, c :: rest) := by
    rw [hs]
    cases negative with
    | false => exact takeSign_of_isDigit hc rest
    | true => rfl
  have hword : ∀ w : String, w.toList.head? = some 'i' →
      String.ofList ((c :: rest).map Char.toLower) ≠ w := by
    rintro w hw rfl
    rw [String.toList_ofList, List.map_cons, toLower_of_isDigit hc, List.head?_cons,
      Option.some.injEq] at hw
    rw [hw] at hc
    exact absurd hc (by decide)
  have hnan : s.toLower ≠ "nan" := by
    intro hlower
    have hlist := congrArg String.toList hlower
    rw [String.toLower, String.toList_map, hs] at hlist
    cases negative with
    | false =>
      have hhead : c.toLower = 'n' := (List.cons.inj hlist).1
      rw [toLower_of_isDigit hc] at hhead
      rw [hhead] at hc
      exact absurd hc (by decide)
    | true => exact absurd (List.cons.inj hlist).1 (by decide)
  rw [ofText?]
  simp only [hsign]
  rw [if_neg (not_or.mpr ⟨hword "inf" rfl, hword "infinity" rfl⟩), if_neg hnan]
  -- the marks of base sixteen are no characters of a numeral
  split
  · rename_i hx
    rw [hx] at hchars
    exact absurd (hchars 'x' (by simp)) (by decide)
  · rename_i hx
    rw [hx] at hchars
    exact absurd (hchars 'X' (by simp)) (by decide)
  · rfl

theorem toList_text (l : Layout) {x : Float} {negative : Bool} {m : ℕ} {e : ℤ}
    (hx : parts x = .finite negative m e) :
    (l.text x).toList = (if negative then ['-'] else []) ++ (l.decimal (shortest m e)).toList := by
  rw [Layout.text, hx]
  simp only [String.toList_append]
  cases negative <;> rfl

/-- The text of a number is a sign and a numeral, and the decimal that it spells is read as the
number. -/
theorem exists_spells_text (l : Layout) {x : Float} (hx : isFinite x = true) :
    ∃ (negative : Bool) (cs : List Char) (d : Decimal),
      (l.text x).toList = (if negative then ['-'] else []) ++ cs ∧ Spells cs d ∧
        (finite? (ofDecimal d.digits d.exponent)).map (withSign negative) = some x := by
  obtain ⟨q, hx⟩ := isFinite_iff.mp hx
  rcases hx.cases_parts with ⟨s, hparts, rfl⟩ | ⟨s, m, e, hparts, rfl, hstored⟩
  · obtain ⟨d, hspells, hvalue⟩ := exists_spells_decimal l (d := shortest 0 (-1074)) (by decide)
    refine ⟨s == .negative, _, d, toList_text l hparts, hspells, ?_⟩
    have hzero : d.digits = 0 := by
      rw [← Nat.le_zero, ← not_lt, ← Decimal.value_pos, hvalue, Decimal.value_pos]
      decide
    have hread : finite? (ofDecimal d.digits d.exponent) = some 0 := by
      rw [hzero, ofDecimal, if_pos rfl]
      decide +kernel
    rw [hread, Option.map_some]
    congr 1
    refine eq_of_parts ?_ hparts
    cases s <;> decide +kernel
  · obtain ⟨hlow, hhigh⟩ := shortest_bounds hstored
    have hsci := Decimal.scientific_bounds hlow hhigh
    obtain ⟨d, hspells, hvalue⟩ := exists_spells_decimal l (d := shortest m e) (by omega)
    refine ⟨s == .negative, _, d, toList_text l hparts, hspells, ?_⟩
    have hread := hasValue_of_shortest hstored hvalue
    have hfinite : finite? (ofDecimal d.digits d.exponent) =
        some (ofDecimal d.digits d.exponent) := by
      rw [finite?, hread.isInf]
      rfl
    have hm : (m : ℚ) ≠ 0 := by exact_mod_cast hstored.pos.ne'
    rw [hfinite, Option.map_some]
    congr 1
    refine (hread.withSign s).eq_of_ne_zero hx ?_
    rw [← abs_ne_zero, abs_signed_significand]
    exact mul_ne_zero hm (zpow_ne_zero _ (by norm_num))

/-- Reading undoes writing. -/
theorem ofText?_text (l : Layout) {x : Float} (hx : isFinite x = true) :
    ofText? (l.text x) = some x := by
  obtain ⟨negative, cs, d, htext, hspells, hread⟩ := exists_spells_text l hx
  rw [ofText?_of_spells hspells negative htext, hspells.readDecimal, hread]

/-- A finite number is known from its text. -/
theorem text_injective (l : Layout) {x y : Float} (hx : isFinite x = true) (hy : isFinite y = true)
    (h : l.text x = l.text y) : x = y := by
  have hread := ofText?_text l hx
  rw [h, ofText?_text l hy, Option.some.injEq] at hread
  exact hread.symm

/-- The text of a finite number has the characters of numerals only. -/
theorem isNumeral_of_mem_text (l : Layout) {x : Float} (hx : isFinite x = true) :
    ∀ c ∈ (l.text x).toList, isNumeral c = true := by
  obtain ⟨negative, cs, d, htext, hspells, -⟩ := exists_spells_text l hx
  rw [htext]
  intro c hmem
  refine (List.mem_append.mp hmem).elim (fun hsign => ?_) (hspells.isNumeral c)
  cases negative with
  | false => cases hsign
  | true =>
    obtain rfl := List.mem_singleton.mp hsign
    rfl

end EffectTiming.Binary64
