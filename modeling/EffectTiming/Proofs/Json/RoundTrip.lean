import Mathlib
import EffectTiming.Proofs.Json.Scalars
import EffectTiming.Proofs.Text.Raw

/-!
# JSON is read back

A value is read back from its written form, whatever follows it there, as long as its numbers are
numbers and it does not nest deeper than the reader goes. A stray byte in one of its texts comes
back as the replacement character that it is shown as. The reader's fuel is the length of the text,
and every step of it takes at least one character.
-/

namespace EffectTiming

namespace JsonValue

mutual

/-- The value with each of its texts replaced; keys stay as they are. -/
def mapText (f : RawText → RawText) : JsonValue → JsonValue
  | .null => .null
  | .bool b => .bool b
  | .number literal => .number literal
  | .string s => .string (f s)
  | .array vs => .array (mapItems f vs)
  | .object ms => .object (mapMembers f ms)

/-- The items of an array with each of their texts replaced. -/
def mapItems (f : RawText → RawText) : List JsonValue → List JsonValue
  | [] => []
  | v :: vs => mapText f v :: mapItems f vs

/-- The members of an object with each of their texts replaced. -/
def mapMembers (f : RawText → RawText) : List (String × JsonValue) → List (String × JsonValue)
  | [] => []
  | (k, v) :: ms => (k, mapText f v) :: mapMembers f ms

end

theorem mapMembers_append (f : RawText → RawText) (ms ns : List (String × JsonValue)) :
    mapMembers f (ms ++ ns) = mapMembers f ms ++ mapMembers f ns := by
  induction ms with
  | nil => rfl
  | cons m ms ih => rw [List.cons_append, mapMembers, ih, mapMembers, List.cons_append]

/-- The value with its texts as they are shown. -/
def shown (v : JsonValue) : JsonValue := v.mapText RawText.shown

variable {n level depth fuel : ℕ} {k : String} {v w : JsonValue} {vs ws : List JsonValue}
  {ms : List (String × JsonValue)} {cs ds rest : List Char}

/-- A value with at most `n` arrays and objects inside each other, whose numbers are numbers. -/
inductive Writable : ℕ → JsonValue → Prop where
  | null {n : ℕ} : Writable n .null
  | bool {n : ℕ} (b : Bool) : Writable n (.bool b)
  | number {n : ℕ} {literal : String} (number : IsNumber literal.toList) :
      Writable n (.number literal)
  | string {n : ℕ} (s : RawText) : Writable n (.string s)
  | array {n : ℕ} {vs : List JsonValue} (items : ∀ v ∈ vs, Writable n v) :
      Writable (n + 1) (.array vs)
  | object {n : ℕ} {ms : List (String × JsonValue)} (members : ∀ m ∈ ms, Writable n m.2) :
    Writable (n + 1) (.object ms)

theorem isJsonSpace_of_startsNumber {c : Char} (hc : c = '-' ∨ c.isDigit = true) :
    isJsonSpace c = false := by
  simp only [isJsonSpace, Bool.or_eq_false_iff, beq_eq_false_iff_ne]
  exact ⟨⟨⟨ne_of_startsNumber hc rfl, ne_of_startsNumber hc rfl⟩, ne_of_startsNumber hc rfl⟩,
    ne_of_startsNumber hc rfl⟩

/-- A written value starts neither with a space nor with the end of an array. -/
theorem Writable.head (h : Writable n v) (level : ℕ) :
    ∃ c cs, render level v = c :: cs ∧ isJsonSpace c = false ∧ c ≠ ']' := by
  cases h with
  | null => exact ⟨'n', ['u', 'l', 'l'], rfl, rfl, by decide⟩
  | bool b =>
    cases b with
    | false => exact ⟨'f', ['a', 'l', 's', 'e'], rfl, rfl, by decide⟩
    | true => exact ⟨'t', ['r', 'u', 'e'], rfl, rfl, by decide⟩
  | number h =>
    obtain ⟨c, cs, hcs, hc⟩ := h.head
    exact ⟨c, cs, by rw [render, hcs], isJsonSpace_of_startsNumber hc, ne_of_startsNumber hc rfl⟩
  | string s => exact ⟨'"', _, rfl, rfl, by decide⟩
  | @array _ vs _ =>
    cases vs with
    | nil => exact ⟨'[', _, rfl, rfl, by decide⟩
    | cons v vs => exact ⟨'[', _, rfl, rfl, by decide⟩
  | @object _ ms _ =>
    cases ms with
    | nil => exact ⟨'{', _, rfl, rfl, by decide⟩
    | cons m ms => exact ⟨'{', _, rfl, rfl, by decide⟩

/-- What is written is not empty, so the fuel for it is not used up. -/
theorem Writable.exists_fuel (h : Writable n v) (hfuel : (render level v).length ≤ fuel) :
    ∃ f, fuel = f + 1 := by
  obtain ⟨c, cs, hcs, -⟩ := h.head level
  rw [hcs, List.length_cons] at hfuel
  exact Nat.exists_eq_succ_of_ne_zero (by omega)

/-! ### Between values -/

@[simp]
theorem skipSpace_newLine (level : ℕ) (cs : List Char) :
    skipSpace (newLine level ++ cs) = skipSpace cs := by
  refine List.dropWhile_append_of_pos ?_
  intro c hc
  rcases List.mem_cons.mp hc with rfl | hc
  · rfl
  · rw [List.eq_of_mem_replicate hc]
    rfl

theorem skipSpace_of_head {c : Char} (hc : isJsonSpace c = false) : skipSpace (c :: cs) = c :: cs :=
  List.dropWhile_cons_of_neg (by simp [hc])

theorem ends_newLine (level : ℕ) (cs : List Char) : Ends (newLine level ++ cs) := by
  intro c hc
  cases hc
  rfl

theorem ends_comma (cs : List Char) : Ends (',' :: cs) := by
  intro c hc
  cases hc
  rfl

/-! ### Steps of the reader -/

/-- Spaces in front of a value are passed. -/
theorem readValue_of_skipSpace (h : skipSpace cs = skipSpace ds) :
    readValue fuel depth cs = readValue fuel depth ds := by
  cases fuel with
  | zero => rfl
  | succ fuel => simp only [readValue, h]

theorem readItems_newLine (fuel depth level : ℕ) (cs : List Char) :
    readItems fuel depth (newLine level ++ cs) = readItems fuel depth cs := by
  cases fuel with
  | zero => rfl
  | succ fuel => simp only [readItems, readValue_of_skipSpace (skipSpace_newLine level cs)]

theorem readMembers_newLine (fuel depth level : ℕ) (cs : List Char) :
    readMembers fuel depth (newLine level ++ cs) = readMembers fuel depth cs := by
  cases fuel with
  | zero => rfl
  | succ fuel => simp only [readMembers, skipSpace_newLine]

theorem readItems_last (hv : readValue fuel depth cs = .ok (v, ds))
    (hds : skipSpace ds = ']' :: rest) :
    readItems (fuel + 1) depth cs = .ok ([v], rest) := by
  simp only [readItems, hv, hds]

theorem readItems_more (hv : readValue fuel depth cs = .ok (v, ',' :: ds))
    (hvs : readItems fuel depth ds = .ok (vs, rest)) :
    readItems (fuel + 1) depth cs = .ok (v :: vs, rest) := by
  simp only [readItems, hv, skipSpace_of_head (c := ',') rfl, hvs]

theorem quote_append (s : RawText) (cs : List Char) :
    quote s ++ cs = '"' :: (s.glyphs.flatMap escapeGlyph ++ '"' :: cs) := by
  simp [quote]

theorem readMembers_last (hv : readValue fuel depth cs = .ok (v, ds))
    (hds : skipSpace ds = '}' :: rest) :
    readMembers (fuel + 1) depth (quote k ++ ':' :: cs) = .ok ([(k, v)], rest) := by
  rw [quote_append]
  simp only [readMembers, skipSpace_of_head (c := '"') rfl, readText_quote,
    skipSpace_of_head (c := ':') rfl, hv, hds, RawText.text_ofString, String.ofList_toList]

theorem readMembers_more (hv : readValue fuel depth cs = .ok (v, ',' :: ds))
    (hms : readMembers fuel depth ds = .ok (ms, rest)) :
    readMembers (fuel + 1) depth (quote k ++ ':' :: cs) = .ok ((k, v) :: ms, rest) := by
  rw [quote_append]
  simp only [readMembers, skipSpace_of_head (c := '"') rfl, readText_quote,
    skipSpace_of_head (c := ':') rfl, hv, skipSpace_of_head (c := ',') rfl, hms,
    RawText.text_ofString, String.ofList_toList]

theorem readValue_string (s : RawText) :
    readValue (fuel + 1) depth (quote s ++ rest) = .ok (.string s.shown, rest) := by
  rw [quote_append]
  simp only [readValue, skipSpace_of_head (c := '"') rfl, readText_quote, String.ofList_toList]
  rfl

theorem readValue_number (h : IsNumber cs) (hrest : Ends rest) :
    readValue (fuel + 1) depth (cs ++ rest) = .ok (.number (String.ofList cs), rest) := by
  rw [← readNumber_append h hrest]
  obtain ⟨c, cs, rfl, hc⟩ := h.head
  rw [List.cons_append]
  simp only [readValue, skipSpace_of_head (isJsonSpace_of_startsNumber hc)]
  rw [if_neg (ne_of_startsNumber hc rfl), if_neg (ne_of_startsNumber hc rfl),
    if_neg (ne_of_startsNumber hc rfl), if_neg (ne_of_startsNumber hc rfl), if_pos hc]

theorem readValue_array (hdepth : depth < depthLimit) {c : Char} (hcs : skipSpace cs = c :: ds)
    (hc : c ≠ ']') (hvs : readItems fuel (depth + 1) (c :: ds) = .ok (vs, rest)) :
    readValue (fuel + 1) depth ('[' :: cs) = .ok (.array vs, rest) := by
  simp [readValue, skipSpace_of_head (c := '[') rfl, hdepth, hcs, hc, hvs]

theorem readValue_object (hdepth : depth < depthLimit) (hcs : skipSpace cs = '"' :: ds)
    (hms : readMembers fuel (depth + 1) ('"' :: ds) = .ok (ms, rest)) :
    readValue (fuel + 1) depth ('{' :: cs) = .ok (.object ms, rest) := by
  simp [readValue, skipSpace_of_head (c := '{') rfl, hdepth, hcs, hms]

/-! ### Whole values -/

/-- A value is read back inside `depth` others from its written form at a level. -/
def ReadsBack (level depth : ℕ) (v : JsonValue) : Prop :=
  ∀ fuel rest, (render level v).length ≤ fuel → Ends rest →
    readValue fuel depth (render level v ++ rest) = .ok (v.shown, rest)

theorem readItems_render (outer : ℕ) (h : ∀ w ∈ v :: vs, ReadsBack level depth w)
    (hfuel : (render level v).length + (renderItems level vs).length < fuel) :
    readItems fuel depth (render level v ++ renderItems level vs ++ newLine outer ++ ']' :: rest) =
      .ok (mapItems RawText.shown (v :: vs), rest) := by
  obtain ⟨fuel, rfl⟩ := Nat.exists_eq_succ_of_ne_zero (Nat.ne_zero_of_lt hfuel)
  have hv := h v List.mem_cons_self
  induction vs generalizing v fuel with
  | nil =>
    simp only [renderItems, List.append_nil, List.append_assoc]
    apply readItems_last (hv fuel _ (by omega) (ends_newLine _ _))
    rw [skipSpace_newLine, skipSpace_of_head rfl]
  | cons w vs ih =>
    simp only [renderItems, List.length_append, List.length_cons] at hfuel
    obtain ⟨fuel, rfl⟩ := Nat.exists_eq_succ_of_ne_zero (show fuel ≠ 0 by omega)
    simp only [renderItems, List.cons_append, List.append_assoc]
    apply readItems_more (hv _ _ (by omega) (ends_comma _))
    rw [readItems_newLine]
    simpa using ih (fun w hw => h w (List.mem_cons_of_mem v hw)) fuel (by omega)
      (h w (by simp))

theorem readMembers_render (outer : ℕ) (h : ∀ m ∈ (k, v) :: ms, ReadsBack level depth m.2)
    (hfuel : (render level v).length + (renderMembers level ms).length < fuel) :
    readMembers fuel depth (quote k ++ [':', ' '] ++ render level v ++ renderMembers level ms ++
      newLine outer ++ '}' :: rest) = .ok (mapMembers RawText.shown ((k, v) :: ms), rest) := by
  obtain ⟨fuel, rfl⟩ := Nat.exists_eq_succ_of_ne_zero (Nat.ne_zero_of_lt hfuel)
  have hspace : ∀ fuel cs, readValue fuel depth (' ' :: cs) =
      readValue fuel depth cs := fun fuel cs =>
    readValue_of_skipSpace rfl
  have hv : ReadsBack level depth v := h (k, v) List.mem_cons_self
  induction ms generalizing k v fuel with
  | nil =>
    simp only [renderMembers, List.append_nil, List.append_assoc, List.cons_append, List.nil_append]
    apply readMembers_last ((hspace _ _).trans (hv fuel _ (by omega) (ends_newLine _ _)))
    rw [skipSpace_newLine, skipSpace_of_head rfl]
  | cons m ms ih =>
    obtain ⟨k', v'⟩ := m
    simp only [renderMembers, List.length_append, List.length_cons] at hfuel
    obtain ⟨fuel, rfl⟩ := Nat.exists_eq_succ_of_ne_zero (show fuel ≠ 0 by omega)
    simp only [renderMembers, List.cons_append, List.append_assoc, List.nil_append]
    apply readMembers_more ((hspace _ _).trans (hv _ _ (by omega) (ends_comma _)))
    rw [readMembers_newLine]
    simpa using ih (fun m hm => h m (List.mem_cons_of_mem (k, v) hm)) fuel (by omega)
      (h (k', v') (by simp))

/-- A value that can be written is read back. -/
theorem Writable.readsBack (h : Writable n v) :
    ∀ level depth, depth + n ≤ depthLimit → ReadsBack level depth v := by
  induction h with
  | null =>
    intro level depth _ fuel rest hfuel _
    obtain ⟨fuel, rfl⟩ := Writable.exists_fuel (n := 0) .null hfuel
    rfl
  | bool b =>
    intro level depth _ fuel rest hfuel _
    obtain ⟨fuel, rfl⟩ := Writable.exists_fuel (n := 0) (.bool b) hfuel
    cases b <;> rfl
  | number h =>
    intro level depth _ fuel rest hfuel hrest
    obtain ⟨fuel, rfl⟩ := Writable.exists_fuel (n := 0) (.number h) hfuel
    rw [render, readValue_number h hrest, String.ofList_toList]
    rfl
  | string s =>
    intro level depth _ fuel rest hfuel _
    obtain ⟨fuel, rfl⟩ := Writable.exists_fuel (n := 0) (.string s) hfuel
    rw [render, readValue_string]
    rfl
  | @array n vs items ih =>
    intro level depth hdepth fuel rest hfuel _
    obtain ⟨fuel, rfl⟩ := Writable.exists_fuel (.array items) hfuel
    have hlimit : depth < depthLimit := by omega
    cases vs with
    | nil =>
      simp [render, readValue, skipSpace_of_head (c := '[') rfl, skipSpace_of_head (c := ']') rfl,
        not_le.mpr hlimit, shown, mapText, mapItems]
    | cons v vs =>
      simp only [render, List.length_append, List.length_cons] at hfuel
      have hitems :
        readItems fuel (depth + 1) (render (level + 1) v ++ renderItems (level + 1) vs ++
          newLine level ++ ']' :: rest) = .ok (mapItems RawText.shown (v :: vs), rest) :=
        readItems_render level (fun w hw => ih w hw (level + 1) (depth + 1) (by omega)) (by omega)
      obtain ⟨c, cs, hcs, hc, hend⟩ := (items v List.mem_cons_self).head (level + 1)
      simp only [render, hcs, List.cons_append, List.append_assoc, List.nil_append] at hitems ⊢
      exact readValue_array hlimit (by rw [skipSpace_newLine, skipSpace_of_head hc]) hend hitems
  | @object n ms members ih =>
    intro level depth hdepth fuel rest hfuel _
    obtain ⟨fuel, rfl⟩ := Writable.exists_fuel (.object members) hfuel
    have hlimit : depth < depthLimit := by omega
    cases ms with
    | nil =>
      simp [render, readValue, skipSpace_of_head (c := '{') rfl, skipSpace_of_head (c := '}') rfl,
        not_le.mpr hlimit, shown, mapText, mapMembers]
    | cons m ms =>
      obtain ⟨k, v⟩ := m
      simp only [render, List.length_append, List.length_cons] at hfuel
      have hmembers : readMembers fuel (depth + 1) (quote k ++ [':', ' '] ++ render (level + 1) v ++
          renderMembers (level + 1) ms ++ newLine level ++ '}' :: rest) =
            .ok (mapMembers RawText.shown ((k, v) :: ms), rest) :=
        readMembers_render level (fun m hm => ih m hm (level + 1) (depth + 1) (by omega)) (by omega)
      simp only [render, quote_append, List.cons_append, List.append_assoc, List.nil_append]
        at hmembers ⊢
      exact readValue_object hlimit (by rw [skipSpace_newLine, skipSpace_of_head rfl]) hmembers

/-- The text of a value is read as the value that it shows. -/
theorem read_pretty (h : Writable depthLimit v) : read v.pretty = .ok v.shown := by
  have hread :=
    h.readsBack 0 0 (by omega) ((render 0 v ++ ['\n']).length + 1) ['\n'] (by simp; omega)
    (ends_newLine 0 [])
  simp only [read, pretty, String.toList_ofList, hread]
  rfl

end JsonValue

end EffectTiming
