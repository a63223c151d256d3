import Mathlib
import EffectTiming.Json.Reader
import EffectTiming.Proofs.Binary64.Text
import EffectTiming.Proofs.Text.Parts

/-!
# JSON numbers and texts

The reader takes a number or a text out of the characters in front of it and leaves what follows. A
number has to be followed by something that does not go on with it; a text ends with its own quote.
Every finite number is written as a number of the grammar, and every text is read from its written
form as it is shown.
-/

namespace EffectTiming.JsonValue

open Binary64

variable {c : Char} {cs ds ws ps es xs rest : List Char}

/-! ### The grammar of numbers -/

/-- The digits in front of the point. A zero stands alone. -/
def IsWhole (ws : List Char) : Prop := ws = ['0'] ∨ IsDigits ws ∧ ws ≠ [] ∧ ws.head? ≠ some '0'

/-- The point with the digits behind it, or nothing. -/
inductive IsPlaces : List Char → Prop where
  | nothing : IsPlaces []
  | point {ds : List Char} (digits : IsDigits ds) (nonempty : ds ≠ []) : IsPlaces ('.' :: ds)

/-- The exponent, or nothing. -/
inductive IsExponent : List Char → Prop where
  | nothing : IsExponent []
  | marked {mark : Char} {sign ds : List Char} (hmark : mark = 'e' ∨ mark = 'E')
    (hsign : sign = [] ∨ sign = ['+'] ∨ sign = ['-']) (digits : IsDigits ds) (nonempty : ds ≠ []) :
    IsExponent (mark :: (sign ++ ds))

/-- A number without a sign. -/
inductive IsUnsigned : List Char → Prop where
  | mk {ws ps es : List Char} (whole : IsWhole ws) (places : IsPlaces ps)
      (exponent : IsExponent es) :
    IsUnsigned (ws ++ ps ++ es)

/-- A number. -/
def IsNumber (cs : List Char) : Prop := IsUnsigned cs ∨ ∃ ds, cs = '-' :: ds ∧ IsUnsigned ds

/-- A character that can go on with a number. -/
def goesOn (c : Char) : Bool := c.isDigit || c == '.' || c == 'e' || c == 'E'

/-- What follows a number does not go on with it. -/
def Ends (rest : List Char) : Prop := ∀ c ∈ rest.head?, goesOn c = false

theorem Ends.isDigit (h : Ends rest) : ∀ c ∈ rest.head?, c.isDigit = false := by
  intro c hc
  have := h c hc
  simp only [goesOn, Bool.or_eq_false_iff] at this
  exact this.1.1.1

theorem IsWhole.head (h : IsWhole ws) : ∃ c cs, ws = c :: cs ∧ c.isDigit = true := by
  rcases h with rfl | ⟨digits, nonempty, -⟩
  · exact ⟨'0', [], rfl, rfl⟩
  · obtain ⟨c, cs, rfl⟩ := List.exists_cons_of_ne_nil nonempty
    exact ⟨c, cs, rfl, digits c List.mem_cons_self⟩

theorem IsUnsigned.head (h : IsUnsigned cs) : ∃ c ds, cs = c :: ds ∧ c.isDigit = true := by
  obtain ⟨whole, places, exponent⟩ := h
  obtain ⟨c, ds, rfl, hc⟩ := whole.head
  exact ⟨c, _, rfl, hc⟩

/-- A number starts with a minus sign or a digit. -/
theorem IsNumber.head (h : IsNumber cs) : ∃ c ds, cs = c :: ds ∧ (c = '-' ∨ c.isDigit = true) := by
  rcases h with h | ⟨ds, rfl, -⟩
  · obtain ⟨c, ds, rfl, hc⟩ := h.head
    exact ⟨c, ds, rfl, Or.inr hc⟩
  · exact ⟨'-', ds, rfl, Or.inl rfl⟩

theorem ne_of_startsNumber {d : Char} (hc : c = '-' ∨ c.isDigit = true)
    (hd : (d == '-' || d.isDigit) = false) : c ≠ d := by
  rintro rfl
  simp only [Bool.or_eq_false_iff, beq_eq_false_iff_ne] at hd
  rcases hc with hc | hc
  · exact hd.1 hc
  · rw [hd.2] at hc
    cases hc

/-! ### Reading numbers -/

theorem readDigits_append (digits : IsDigits ds) (nonempty : ds ≠ [])
    (hrest : ∀ c ∈ rest.head?, c.isDigit = false) : readDigits (ds ++ rest) = .ok (ds, rest) := by
  have htake : (ds ++ rest).takeWhile Char.isDigit = ds := by
    rw [List.takeWhile_append_of_pos digits]
    cases rest with
    | nil => simp
    | cons c rest => simp [hrest c rfl]
  have hdrop : (ds ++ rest).dropWhile Char.isDigit = rest := by
    rw [List.dropWhile_append_of_pos digits, Text.dropWhile_of_head hrest]
  rw [readDigits, htake, hdrop]
  obtain ⟨c, cs, rfl⟩ := List.exists_cons_of_ne_nil nonempty
  rfl

theorem readWhole_append (whole : IsWhole ws) (hrest : ∀ c ∈ rest.head?, c.isDigit = false) :
    readWhole (ws ++ rest) = .ok (ws, rest) := by
  rcases whole with rfl | ⟨digits, nonempty, hzero⟩
  · rfl
  · rw [← readDigits_append digits nonempty hrest]
    obtain ⟨c, cs, rfl⟩ := List.exists_cons_of_ne_nil nonempty
    have hc : c ≠ '0' := by simpa using hzero
    rw [List.cons_append, readWhole]
    intro _ h
    exact hc (List.cons.inj h).1

theorem readPlaces_append (places : IsPlaces ps) (hdigit : ∀ c ∈ rest.head?, c.isDigit = false)
    (hpoint : '.' ∉ rest.head?) : readPlaces (ps ++ rest) = .ok (ps, rest) := by
  cases places with
  | nothing =>
    rw [List.nil_append, readPlaces]
    rintro cs rfl
    exact hpoint rfl
  | point digits nonempty =>
    rw [List.cons_append, readPlaces, readDigits_append digits nonempty hdigit]

theorem readExponent_append (exponent : IsExponent es) (hrest : Ends rest) :
    readExponent (es ++ rest) = .ok (es, rest) := by
  cases exponent with
  | nothing =>
    cases rest with
    | nil => rfl
    | cons c rest =>
      have hc := hrest c rfl
      simp only [goesOn, Bool.or_eq_false_iff, beq_eq_false_iff_ne] at hc
      unfold readExponent
      simp [hc.1.2, hc.2]
  | marked hmark hsign digits nonempty =>
    have hread := readDigits_append digits nonempty hrest.isDigit
    rcases hsign with rfl | rfl | rfl
    · -- the first digit is neither of the signs
      obtain ⟨c, cs, rfl⟩ := List.exists_cons_of_ne_nil nonempty
      have hc : c.isDigit = true := digits c List.mem_cons_self
      rw [List.nil_append, List.cons_append, readExponent, if_pos hmark, hread]
      · rfl
      · rintro _ h
        rw [(List.cons.inj h).1] at hc
        cases hc
      · rintro _ h
        rw [(List.cons.inj h).1] at hc
        cases hc
    · unfold readExponent
      simp [hmark, hread]
    · unfold readExponent
      simp [hmark, hread]

/-- What follows the places of a number is no digit and no point. -/
theorem IsExponent.head (exponent : IsExponent es) (hrest : Ends rest) :
    ∀ c ∈ (es ++ rest).head?, c.isDigit = false ∧ c ≠ '.' := by
  cases exponent with
  | nothing =>
    intro c hc
    have := hrest c hc
    simp only [goesOn, Bool.or_eq_false_iff, beq_eq_false_iff_ne] at this
    exact this.1.1
  | marked hmark =>
    intro c hc
    cases hc
    rcases hmark with rfl | rfl <;> decide

/-- What follows the whole part of a number is no digit. -/
theorem IsPlaces.head (places : IsPlaces ps) (hrest : ∀ c ∈ rest.head?, c.isDigit = false) :
    ∀ c ∈ (ps ++ rest).head?, c.isDigit = false := by
  cases places with
  | nothing => exact hrest
  | point =>
    intro c hc
    cases hc
    rfl

theorem readNumber_unsigned (sign : List Char) (h : IsUnsigned ds) (hrest : Ends rest)
    (hcs : takeMinus cs = (sign, ds ++ rest)) :
    readNumber cs = .ok (.number (String.ofList (sign ++ ds)), rest) := by
  obtain ⟨whole, places, exponent⟩ := h
  rename_i ws ps es
  have hexponent := exponent.head hrest
  have hdigit : ∀ c ∈ (es ++ rest).head?, c.isDigit = false := fun c hc => (hexponent c hc).1
  have hpoint : '.' ∉ (es ++ rest).head? := fun hc => (hexponent '.' hc).2 rfl
  rw [readNumber, hcs]
  simp only [List.append_assoc, readWhole_append whole (places.head hdigit),
    readPlaces_append places hdigit hpoint, readExponent_append exponent hrest]

/-- A number is read up to what does not go on with it. -/
theorem readNumber_append (h : IsNumber cs) (hrest : Ends rest) :
    readNumber (cs ++ rest) = .ok (.number (String.ofList cs), rest) := by
  rcases h with h | ⟨ds, rfl, h⟩
  · refine readNumber_unsigned [] h hrest ?_
    obtain ⟨c, ds, rfl, hc⟩ := h.head
    rw [List.cons_append, takeMinus]
    intro _ heq
    rw [(List.cons.inj heq).1] at hc
    cases hc
  · exact readNumber_unsigned ['-'] h hrest rfl

/-! ### Written numbers -/

/-- The digits of a positive number do not start with a zero. -/
theorem head_toString_ne_zero {n : ℕ} (hn : 0 < n) : (toString n).toList.head? ≠ some '0' := by
  rw [Nat.toString_eq_repr, Nat.toList_repr]
  induction n using Nat.strong_induction_on with
  | h n ih =>
    rw [Nat.toDigits_eq_if (by norm_num)]
    split
    · interval_cases n <;> decide
    · rw [List.head?_append_of_ne_nil _ Nat.toDigits_ne_nil]
      exact ih (n / 10) (by omega) (by omega)

/-- The digits of a number, with zeros behind them if there are any. -/
theorem isWhole_toString_append {n k : ℕ} (h : n = 0 → k = 0) :
    IsWhole ((toString n).toList ++ List.replicate k '0') := by
  rcases Nat.eq_zero_or_pos n with rfl | hn
  · rw [h rfl]
    exact Or.inl rfl
  · refine Or.inr ⟨(isDigits_toString n).append (isDigits_zeros k),
      List.append_ne_nil_of_left_ne_nil (toString_ne_nil n) _, ?_⟩
    rw [List.head?_append_of_ne_nil _ (toString_ne_nil n)]
    exact head_toString_ne_zero hn

theorem isWhole_singleton (hc : c.isDigit = true) : IsWhole [c] := by
  by_cases h : c = '0'
  · exact Or.inl (by rw [h])
  · refine Or.inr ⟨?_, List.cons_ne_nil _ _, by simpa using h⟩
    intro d hd
    rwa [List.mem_singleton.mp hd]

/-- In front of the point stands a single zero, or the first digits of the number. -/
theorem isWhole_take_padZeros (n places : ℕ) :
    IsWhole ((padZeros (places + 1) (toString n)).toList.take
      ((padZeros (places + 1) (toString n)).toList.length - places)) := by
  have hcs : (padZeros (places + 1) (toString n)).toList =
      List.replicate (places + 1 - (toString n).toList.length) '0' ++ (toString n).toList := by
    rw [padZeros, String.toList_append, toList_zeros, String.length_toList]
  rw [hcs, List.length_append, List.length_replicate]
  rcases le_or_gt (toString n).toList.length places with hshort | hlong
  · obtain ⟨k, hk⟩ : ∃ k, places + 1 - (toString n).toList.length = k + 1 :=
      ⟨places - (toString n).toList.length, by omega⟩
    rw [hk, show k + 1 + (toString n).toList.length - places = 1 by omega]
    exact Or.inl rfl
  · rw [show places + 1 - (toString n).toList.length = 0 by omega]
    simp only [List.replicate_zero, List.nil_append, Nat.zero_add]
    rcases Nat.eq_zero_or_pos n with rfl | hn
    · rw [show places = 0 by simpa using hlong]
      exact Or.inl rfl
    · refine Or.inr ⟨(isDigits_toString n).take _, ?_, ?_⟩
      · rw [Ne, List.take_eq_nil_iff]
        simp only [toString_ne_nil, or_false]
        omega
      · rw [List.head?_take, if_neg (by omega)]
        exact head_toString_ne_zero hn

theorem isPlaces_drop {places : ℕ} (digits : IsDigits cs) (hplaces : 0 < places)
    (hlength : places ≤ cs.length) :
    IsPlaces ('.' :: cs.drop (cs.length - places)) := by
  refine .point (digits.drop _) ?_
  rw [Ne, List.drop_eq_nil_iff]
  omega

theorem isUnsigned_positional {d : Decimal} (hd : d.digits = 0 → d.exponent = 0) :
    IsUnsigned (positional d).toList := by
  rcases lt_or_ge d.exponent 0 with hneg | hpos
  · set cs := (padZeros ((-d.exponent).toNat + 1) (toString d.digits)).toList with hcs
    have hlength : (-d.exponent).toNat + 1 ≤ cs.length := le_length_padZeros _ _
    have hdigits : IsDigits cs := isDigits_padZeros (isDigits_toString d.digits) _
    have htext : (positional d).toList = cs.take (cs.length - (-d.exponent).toNat) ++
        '.' :: cs.drop (cs.length - (-d.exponent).toNat) ++ [] := by
      rw [positional, if_neg (not_le.mpr hneg)]
      simp only [String.toList_append, String.toList_ofList, List.append_assoc,
        List.append_nil, hcs]
      rfl
    rw [htext]
    exact .mk (isWhole_take_padZeros _ _) (isPlaces_drop hdigits (by omega) (by omega)) .nothing
  · have h := IsUnsigned.mk (isWhole_toString_append (n := d.digits) (k := d.exponent.toNat)
      (by intro h; rw [hd h]; rfl)) .nothing .nothing
    rw [List.append_nil, List.append_nil] at h
    rw [positional, if_pos hpos, String.toList_append, toList_zeros]
    exact h

theorem isUnsigned_scientific (width : ℕ) (d : Decimal) :
    IsUnsigned (scientific width d).toList := by
  have hdigits : IsDigits d.text.toList := isDigits_toString d.digits
  have hexponent : IsExponent ((if d.scientific < 0 then "e-" else "e+") ++
      padZeros width (toString d.scientific.natAbs)).toList := by
    have hds : IsDigits (padZeros width (toString d.scientific.natAbs)).toList :=
      isDigits_padZeros (isDigits_toString _) width
    have hne : (padZeros width (toString d.scientific.natAbs)).toList ≠ [] := by
      rw [padZeros, String.toList_append]
      exact List.append_ne_nil_of_right_ne_nil _ (toString_ne_nil _)
    rw [String.toList_append]
    split
    · have h : IsExponent ('e' :: (['-'] ++ _)) :=
        .marked (Or.inl rfl) (Or.inr (Or.inr rfl)) hds hne
      exact h
    · have h : IsExponent ('e' :: (['+'] ++ _)) :=
        .marked (Or.inl rfl) (Or.inr (Or.inl rfl)) hds hne
      exact h
  rw [scientific]
  simp only [String.append_assoc]
  rw [String.toList_append]
  generalize ((if d.scientific < 0 then "e-" else "e+") ++
    padZeros width (toString d.scientific.natAbs)).toList = tail at hexponent ⊢
  rcases ht : d.text.toList with _ | ⟨c, _ | ⟨c', more⟩⟩
  · exact absurd ht (toString_ne_nil d.digits)
  · rw [ht] at hdigits
    simpa using IsUnsigned.mk (isWhole_singleton (hdigits c (by simp))) .nothing hexponent
  · rw [ht] at hdigits
    have hplaces : IsPlaces ('.' :: c' :: more) :=
      .point (fun d hd => hdigits d (List.mem_cons_of_mem c hd)) (List.cons_ne_nil _ _)
    simpa using IsUnsigned.mk (isWhole_singleton (hdigits c (by simp))) hplaces hexponent

theorem isUnsigned_decimal (l : Layout) {d : Decimal} (hd : d.digits = 0 → d.exponent = 0) :
    IsUnsigned (l.decimal d).toList := by
  rw [Layout.decimal]
  split
  · exact isUnsigned_positional hd
  · exact isUnsigned_scientific _ _

/-- Every finite number is written as a number of the grammar. -/
theorem isNumber_text (l : Layout) {x : Float} (hx : isFinite x = true) :
    IsNumber (l.text x).toList := by
  obtain ⟨negative, m, e, hparts, hd⟩ : ∃ negative m e, parts x = .finite negative m e ∧
      ((shortest m e).digits = 0 → (shortest m e).exponent = 0) := by
    obtain ⟨q, hx⟩ := isFinite_iff.mp hx
    rcases hx.cases_parts with ⟨s, hparts, -⟩ | ⟨s, m, e, hparts, -, hstored⟩
    · exact ⟨_, _, _, hparts, fun _ => by rw [shortest, if_pos rfl]⟩
    · have hpos : 0 < (shortest m e).value :=
        (zpow_pos (by norm_num) _).trans_le (shortest_bounds hstored).1
      rw [Decimal.value_pos] at hpos
      exact ⟨_, _, _, hparts, fun hzero => absurd hzero hpos.ne'⟩
  have h := isUnsigned_decimal l hd
  rw [toList_text l hparts]
  cases negative with
  | false =>
    rw [if_neg (by decide), List.nil_append]
    exact Or.inl h
  | true =>
    rw [if_pos rfl, List.singleton_append]
    exact Or.inr ⟨_, rfl, h⟩

/-! ### Texts -/

@[simp]
theorem length_hexDigits (width n : ℕ) : (Text.hexDigits width n).length = width := by
  induction width generalizing n with
  | zero => rfl
  | succ width ih => rw [Text.hexDigits, List.length_append, ih, List.length_singleton]

theorem hexValue?_hexDigit (n : ℕ) : hexValue? (Text.hexDigit n) = some (n % 16) := by
  rw [Text.hexDigit]
  have hn : n % 16 < 16 := Nat.mod_lt n (by norm_num)
  interval_cases n % 16 <;> rfl

theorem isSome_hexValue?_of_mem (width n : ℕ) :
    ∀ c ∈ Text.hexDigits width n, (hexValue? c).isSome = true := by
  induction width generalizing n with
  | zero => simp [Text.hexDigits]
  | succ width ih =>
    rw [Text.hexDigits]
    simp only [List.forall_mem_append, List.forall_mem_singleton]
    exact ⟨ih _, by rw [hexValue?_hexDigit]; rfl⟩

theorem hexDigitsValue_hexDigits (width n : ℕ) :
    hexDigitsValue (Text.hexDigits width n) = n % 16 ^ width := by
  induction width generalizing n with
  | zero => simp [Text.hexDigits, hexDigitsValue, Nat.mod_one]
  | succ width ih =>
    unfold hexDigitsValue at ih ⊢
    rw [Text.hexDigits, List.foldl_append, ih, List.foldl_cons, List.foldl_nil,
      hexValue?_hexDigit, pow_succ', Nat.mod_mul]
    ring

/-- Four digits in base sixteen are read as their value. -/
theorem readUnit_hexDigits {n : ℕ} (hn : n < 65536) :
    readUnit (Text.hexDigits 4 n ++ cs) = .ok (n, cs) := by
  have htake : (Text.hexDigits 4 n ++ cs).take 4 = Text.hexDigits 4 n :=
    List.take_left' (length_hexDigits 4 n)
  have hdrop : (Text.hexDigits 4 n ++ cs).drop 4 = cs := List.drop_left' (length_hexDigits 4 n)
  have hall : ((Text.hexDigits 4 n).all fun c => (hexValue? c).isSome) = true :=
    List.all_eq_true.mpr (isSome_hexValue?_of_mem 4 n)
  rw [readUnit]
  simp only [htake, hdrop, hall, length_hexDigits, hexDigitsValue_hexDigits, if_true]
  rw [Nat.mod_eq_of_lt (by omega)]

theorem eq_ofNat_of_toNat {n : ℕ} (h : c.toNat = n) : c = Char.ofNat n := by
  rw [← h, Char.ofNat_toNat]

/-- The three ways to write a character: by a letter, by its number, or as it is. -/
theorem escapeChar_cases (c : Char) :
    (∃ e, escapeChar c = ['\\', e] ∧ simpleEscape? e = some c) ∨
      (escapeChar c = '\\' :: 'u' :: Text.hexDigits 4 c.toNat ∧ c.toNat < 0xd800) ∨
      (escapeChar c = [c] ∧ c ≠ '"' ∧ c ≠ '\\' ∧ ¬ c.toNat < 0x20) := by
  simp only [escapeChar]
  split_ifs with hsame hbackspace hfeed hline hreturn htab hcontrol
  · left
    rcases hsame with rfl | rfl
    · exact ⟨'"', rfl, rfl⟩
    · exact ⟨'\\', rfl, rfl⟩
  · exact Or.inl ⟨'b', rfl, by rw [eq_ofNat_of_toNat hbackspace]; rfl⟩
  · exact Or.inl ⟨'f', rfl, by rw [eq_ofNat_of_toNat hfeed]; rfl⟩
  · exact Or.inl ⟨'n', rfl, by rw [hline]; rfl⟩
  · exact Or.inl ⟨'r', rfl, by rw [hreturn]; rfl⟩
  · exact Or.inl ⟨'t', rfl, by rw [htab]; rfl⟩
  · exact Or.inr (Or.inl ⟨rfl, by omega⟩)
  · rw [not_or] at hsame hcontrol
    exact Or.inr (Or.inr ⟨rfl, hsame.1, hsame.2, hcontrol.1⟩)

/-- The written form of a character is read as the character. -/
theorem readText_escapeChar (c : Char) {fuel : ℕ} (h : readText fuel cs = .ok (xs, rest)) :
    readText (fuel + 1) (escapeChar c ++ cs) = .ok (c :: xs, rest) := by
  rcases escapeChar_cases c with ⟨e, hwritten, he⟩ | ⟨hwritten, hc⟩ | ⟨hwritten, hquote, hslash, hc⟩
  · have hu : e ≠ 'u' := by
      rintro rfl
      cases he
    rw [hwritten]
    simp [readText, he, h]
  · have hchar : charOfUnit c.toNat cs = (c, cs) := by
      rw [charOfUnit, if_neg (by omega), if_neg (by omega), Char.ofNat_toNat]
    rw [hwritten]
    simp [readText, readUnit_hexDigits (show c.toNat < 65536 by omega), hchar, h]
  · rw [hwritten]
    simp [readText, hquote, hslash, hc, h]

/-- The written form of a piece is read as the character that the piece is shown as. -/
theorem readText_escapeGlyph (g : Glyph) {fuel : ℕ} (h : readText fuel cs = .ok (xs, rest)) :
    readText (fuel + 1) (escapeGlyph g ++ cs) = .ok (g.shown :: xs, rest) := by
  cases g with
  | char c => exact readText_escapeChar c h
  | stray byte =>
    have hwritten : escapeGlyph (.stray byte) = '\\' :: 'u' :: Text.hexDigits 4 0xfffd := rfl
    have hchar : charOfUnit 0xfffd cs = ('\ufffd', cs) := rfl
    rw [hwritten]
    simp [readText, readUnit_hexDigits (show 0xfffd < 65536 by decide), hchar, h, Glyph.shown]

theorem length_flatMap_escapeGlyph_le (gs : List Glyph) :
    gs.length ≤ (gs.flatMap escapeGlyph).length := by
  induction gs with
  | nil => simp
  | cons g gs ih =>
    have hg : escapeGlyph g ≠ [] := by
      cases g with
      | char c =>
        rcases escapeChar_cases c with ⟨e, hwritten, -⟩ | ⟨hwritten, -⟩ | ⟨hwritten, -⟩ <;>
          simp [escapeGlyph, hwritten]
      | stray byte => simp [escapeGlyph]
    have := List.length_pos_of_ne_nil hg
    rw [List.flatMap_cons, List.length_append, List.length_cons]
    omega

/-- A text is read up to its closing quote. -/
theorem readText_flatMap {gs : List Glyph} {fuel : ℕ} (hfuel : gs.length < fuel) :
    readText fuel (gs.flatMap escapeGlyph ++ '"' :: rest) = .ok (gs.map Glyph.shown, rest) := by
  induction gs generalizing fuel with
  | nil =>
    obtain ⟨fuel, rfl⟩ := Nat.exists_eq_succ_of_ne_zero hfuel.ne'
    rfl
  | cons g gs ih =>
    rw [List.length_cons] at hfuel
    obtain ⟨fuel, rfl⟩ := Nat.exists_eq_succ_of_ne_zero (Nat.ne_zero_of_lt hfuel)
    rw [List.flatMap_cons, List.append_assoc]
    exact readText_escapeGlyph g (ih (by omega))

/-- The text behind the opening quote is read by the fuel that the reader gives it. -/
theorem readText_quote (s : RawText) (rest : List Char) :
    let written := s.glyphs.flatMap escapeGlyph ++ '"' :: rest
    readText (written.length + 1) written = .ok (s.text.toList, rest) := by
  rw [RawText.text, String.toList_ofList]
  apply readText_flatMap
  have := length_flatMap_escapeGlyph_le s.glyphs
  rw [List.length_append]
  omega

end EffectTiming.JsonValue
