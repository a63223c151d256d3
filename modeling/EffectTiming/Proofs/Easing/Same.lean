import Mathlib
import EffectTiming.Proofs.Binary64.Alike
import EffectTiming.Proofs.Binary64.Text
import EffectTiming.Proofs.Easing.Finite

/-!
# Easings that are written the same

Easings count as the same if they are written the same. The kind shows in the first letter, the
numbers of a curve and the count of steps can be read back from the text, and only the two names of
a jump at the end share one. A name, however, says nothing of the control points beside it: two
curves under one name are the same function only if these agree. Besides, an easing does not look at
the sign of a zero.

## Main statements

* `Easing.eval_eq_of_same`: the same text means the same function, provided that curves under one
  name have the same control points.
* `Easing.eval_alike`: alike progress is eased alike.
-/

namespace EffectTiming

open Binary64

/-! ### Words and what follows them -/

/-- A word is known from a text if what follows it starts with another kind of character. -/
theorem append_inj_of_head {p : Char → Bool} {v w s t : List Char} (hv : ∀ c ∈ v, p c = true)
    (hw : ∀ c ∈ w, p c = true) (hs : ∀ c ∈ s.head?, p c = false) (ht : ∀ c ∈ t.head?, p c = false)
    (h : v ++ s = w ++ t) : v = w ∧ s = t := by
  have hstop : ∀ {r : List Char}, (∀ c ∈ r.head?, p c = false) → r.takeWhile p = [] := by
    intro r hr
    cases r with
    | nil => rfl
    | cons c r => simp [hr c rfl]
  have hvw : v = w := by
    have htake := congrArg (List.takeWhile p) h
    rwa [List.takeWhile_append_of_pos hv, List.takeWhile_append_of_pos hw, hstop hs, hstop ht,
      List.append_nil, List.append_nil] at htake
  subst hvw
  exact ⟨rfl, List.append_cancel_left h⟩

/-! ### Curves -/

namespace Bezier

theorem toList_text (c : Bezier) :
    c.text.toList = "cubic-bezier(".toList ++ ((general.text c.x1).toList ++ ',' :: ' ' ::
      ((general.text c.y1).toList ++ ',' :: ' ' :: ((general.text c.x2).toList ++ ',' :: ' ' ::
        ((general.text c.y2).toList ++ [')'])))) := by
  rw [text, values]
  simp only [List.map_cons, List.map_nil, String.toList_append,
    String.toList_intercalate, List.intercalate]
  simp

theorem isNumeral_comma (rest : List Char) : ∀ c ∈ (',' :: rest).head?, isNumeral c = false := by
  rintro c ⟨⟩
  rfl

theorem isFinite_of_fault? {c : Bezier} (h : c.fault? = none) :
    isFinite c.x1 = true ∧ isFinite c.y1 = true ∧ isFinite c.x2 = true ∧ isFinite c.y2 = true := by
  rw [fault?] at h
  split at h
  · cases h
  · rename_i hfinite
    simpa [values] using hfinite

/-- A usable curve is known from its text. -/
theorem text_injective {c d : Bezier} (hc : c.fault? = none) (hd : d.fault? = none)
    (h : c.text = d.text) : c = d := by
  have hlist := congrArg String.toList h
  rw [toList_text, toList_text] at hlist
  obtain ⟨hc1, hc2, hc3, hc4⟩ := isFinite_of_fault? hc
  obtain ⟨hd1, hd2, hd3, hd4⟩ := isFinite_of_fault? hd
  have hclose : ∀ c ∈ [')'].head?, isNumeral c = false := by
    rintro c ⟨⟩
    rfl
  -- one number after the other, each of them up to its comma
  have key : ∀ {x y : Float} {s t : List Char}, isFinite x = true → isFinite y = true →
      (∀ c ∈ s.head?, isNumeral c = false) → (∀ c ∈ t.head?, isNumeral c = false) →
      (general.text x).toList ++ s = (general.text y).toList ++ t → x = y ∧ s = t := by
    intro x y s t hx hy hs ht heq
    obtain ⟨htext, hrest⟩ := append_inj_of_head (isNumeral_of_mem_text general hx)
      (isNumeral_of_mem_text general hy) hs ht heq
    exact ⟨Binary64.text_injective general hx hy (String.toList_injective htext), hrest⟩
  obtain ⟨h1, hlist⟩ :=
    key hc1 hd1 (isNumeral_comma _) (isNumeral_comma _) (List.append_cancel_left hlist)
  simp only [List.cons.injEq, true_and] at hlist
  obtain ⟨h2, hlist⟩ := key hc2 hd2 (isNumeral_comma _) (isNumeral_comma _) hlist
  simp only [List.cons.injEq, true_and] at hlist
  obtain ⟨h3, hlist⟩ := key hc3 hd3 (isNumeral_comma _) (isNumeral_comma _) hlist
  simp only [List.cons.injEq, true_and] at hlist
  obtain ⟨h4, -⟩ := key hc4 hd4 hclose hclose hlist
  cases c
  cases d
  simp_all

/-- Over a zero of any sign a curve is at its start. -/
theorem eval_of_zero (c : Bezier) {x : Float} (hx : HasValue x 0) : c.eval x = 0 := by
  rw [eval, if_pos ((hx.le_iff hasValue_zero).mpr le_rfl)]

theorem eval_alike (c : Bezier) {x y : Float} (h : Alike x y) : Alike (c.eval x) (c.eval y) := by
  have hzero : ∀ z, HasValue z 0 → HasValue (c.eval z) 0 := by
    intro z hz
    rw [eval_of_zero c hz]
    exact hasValue_zero
  exact h.map c.eval hzero

end Bezier

/-! ### Steps -/

namespace Staircase

variable {s t : Staircase}

/-- What stands behind the count. -/
def closing : StepPosition → List Char
  | .jumpEnd | .finish => [')']
  | p => ',' :: ' ' :: ((Keyword.word p).toList ++ [')'])

theorem toList_text {p : StepPosition} (hp : s.position = .known p) :
    s.text.toList = "steps(".toList ++ ((toString s.count).toList ++ closing p) := by
  rw [text, hp]
  cases p <;> simp [closing, Coded.text]

theorem isDigit_closing (p : StepPosition) : ∀ c ∈ (closing p).head?, c.isDigit = false := by
  cases p <;> rintro c ⟨⟩ <;> rfl

/-- Only the two names of a jump at the end close alike, and they mean the same. -/
theorem jumps_of_closing {p r : StepPosition} (h : closing p = closing r)
    (hs : s.position = .known p) (ht : t.position = .known r) (hcount : s.count = t.count) :
    s.jumps = t.jumps ∧ s.jumpsFirst = t.jumpsFirst := by
  rw [jumps, jumps, jumpsFirst, jumpsFirst, hs, ht, hcount]
  cases p <;> cases r <;> first
    | exact ⟨rfl, rfl⟩
    | exact absurd h (by decide)

/-- Step functions that are written the same are the same function. -/
theorem eval_eq_of_text (hs : s.fault? = none) (ht : t.fault? = none) (h : s.text = t.text) :
    s.eval = t.eval := by
  obtain ⟨p, hp, hs0⟩ := exists_position hs
  obtain ⟨r, hr, ht0⟩ := exists_position ht
  obtain ⟨m, hm⟩ := Int.eq_ofNat_of_zero_le hs0
  obtain ⟨n, hn⟩ := Int.eq_ofNat_of_zero_le ht0
  have hlist := congrArg String.toList h
  rw [toList_text hp, toList_text hr, hm, hn] at hlist
  obtain ⟨hdigits, hclosing⟩ := append_inj_of_head (isDigits_toString m) (isDigits_toString n)
    (isDigit_closing p) (isDigit_closing r) (List.append_cancel_left hlist)
  have hmn : m = n := by
    rw [← digitsValue_toString m, ← digitsValue_toString n, hdigits]
  obtain ⟨hjumps, hfirst⟩ := jumps_of_closing hclosing hp hr (by rw [hm, hn, hmn])
  funext x before
  rw [eval, eval, hjumps, hfirst, hm, hn, hmn]

/-- Steps do not look at the sign of a zero. -/
theorem eval_alike (hs : s.fault? = none) {x y : Float} (h : Alike x y) (before : Bool) :
    Alike (s.eval x before) (s.eval y before) := by
  obtain ⟨n, hn, hn0, hnle⟩ := exists_jumps hs
  obtain ⟨q, hq, hq1⟩ := one_le_abs_ofInt hn0 hnle
  rw [← hn] at hq
  have hq0 : q ≠ 0 := abs_pos.mp (by linarith)
  obtain ⟨c, hc, -⟩ := atMost_ofInt s.abs_count_le (k := 63) (by norm_num)
  have hscaled : Alike (x * Float.ofInt s.count) (y * Float.ofInt s.count) := h.mul_right hc
  have hfirst :=
    Alike.ite (rfl : s.jumpsFirst = s.jumpsFirst) (hscaled.floor.add_right hasValue_one)
    hscaled.floor
  have hjump : (before && fraction (x * Float.ofInt s.count) == 0) =
      (before && fraction (y * Float.ofInt s.count) == 0) := by rw [hscaled.fraction.beq_zero]
  have hlower := Alike.ite hjump (hfirst.sub_right hasValue_one) hfirst
  have hfloor := Alike.ite (congrArg₂ (· && ·) (h.ge hasValue_zero) (hlower.lt hasValue_zero))
    (Alike.refl 0) hlower
  have hceiling := Alike.ite (congrArg₂ (· && ·) (h.le hasValue_one) (hfloor.gt hq))
    (Alike.refl s.jumps) hfloor
  exact hceiling.div_right hq hq0

end Staircase

/-! ### All easings -/

namespace NamedCurve

theorem text_injective {m n : NamedCurve} (h : m.text = n.text) : m = n := by
  cases m <;> cases n <;> first
    | rfl
    | exact absurd h (by decide)

end NamedCurve

namespace Easing

variable {a b c : Easing}

theorem same_refl (a : Easing) : a.same a = true := by
  cases a <;> simp [same]

theorem same_symm (h : a.same b = true) : b.same a = true := by
  cases a <;> cases b <;> simp_all [same, isLinear]

theorem same_trans (hab : a.same b = true) (hbc : b.same c = true) : a.same c = true := by
  cases a <;> cases b <;> cases c <;> simp_all [same, isLinear]

theorem text_eq_of_same (h : a.same b = true) : a.text = b.text := by
  cases a <;> cases b <;> simp_all [same, isLinear]

/-- The first letter of the text, which tells the kinds of easings apart. -/
def initial : Easing → Char
  | .linear => 'l'
  | .named _ _ => 'e'
  | .bezier _ => 'c'
  | .steps _ => 's'

theorem head?_text (a : Easing) : a.text.toList.head? = some a.initial := by
  cases a with
  | linear => rfl
  | named n c =>
    show n.text.toList.head? = some 'e'
    cases n <;> rfl
  | bezier c =>
    rw [text, Bezier.toList_text]
    rfl
  | steps s =>
    rw [text, Staircase.text]
    split
    · simp only [String.toList_append]
      rfl
    · simp only [String.toList_append]
      rfl
    · simp only [String.toList_append]
      rfl

/-- Curves under a name each have the same control points. -/
def SamePoints : Easing → Easing → Prop
  | .named _ c, .named _ d => c = d
  | _, _ => True

/-- A curve under a name has the control points that belong to the name. -/
def Genuine : Easing → Prop
  | .named n c => c = n.curve
  | _ => True

/-- Usable easings that count as the same are the same function, as far as names tell the control
points. -/
theorem eval_eq_of_same (ha : a.fault? = none) (hb : b.fault? = none) (h : a.same b = true)
    (hpoints : a.SamePoints b) : a.eval = b.eval := by
  have htext := text_eq_of_same h
  have hinitial : a.initial = b.initial := by
    rw [← Option.some.injEq, ← head?_text, ← head?_text, htext]
  cases a with
  | linear =>
    cases b with
    | linear => rfl
    | named n c | bezier c | steps s => simp [initial] at hinitial
  | named m c =>
    cases b with
    | named n d =>
      have hcd : c = d := hpoints
      rw [hcd, NamedCurve.text_injective htext]
    | linear | bezier c | steps s => simp [initial] at hinitial
  | bezier c =>
    cases b with
    | bezier d => rw [Bezier.text_injective ha hb htext]
    | linear | named n d | steps s => simp [initial] at hinitial
  | steps s =>
    cases b with
    | steps t =>
      funext x before
      exact congrFun₂ (Staircase.eval_eq_of_text ha hb htext) x before
    | linear | named n d | bezier c => simp [initial] at hinitial

/-- With the control points that belong to their names, easings that count as the same have the same
control points. -/
theorem Genuine.samePoints (ha : a.Genuine) (hb : b.Genuine) (h : a.same b = true) :
    a.SamePoints b := by
  cases a with
  | named m c =>
    cases b with
    | named n d =>
      have hname : m = n := NamedCurve.text_injective (text_eq_of_same h)
      have hc : c = m.curve := ha
      have hd : d = n.curve := hb
      rw [SamePoints, hc, hd, hname]
    | linear | bezier d | steps s => trivial
  | linear | bezier c | steps s => trivial

/-- An easing does not look at the sign of a zero. -/
theorem eval_alike (ha : a.fault? = none) {x y : Float} (h : Alike x y) (before : Bool) :
    Alike (a.eval x before) (a.eval y before) := by
  cases a with
  | linear => exact h
  | named n c => exact c.eval_alike h
  | bezier c => exact c.eval_alike h
  | steps s => exact Staircase.eval_alike ha h before

end Easing

end EffectTiming
