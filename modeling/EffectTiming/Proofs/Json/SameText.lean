import Mathlib
import EffectTiming.Proofs.Json.RoundTrip

/-!
# Values with one text

A stray byte is written as an escape of the replacement character, whatever byte it is, while a
replacement character is written as it is. So a text tells where stray bytes stand, but not which
ones, and that is all it leaves open: values have one text exactly if they are the same once all
stray bytes are taken for one (`pretty_eq_iff`).

One text is read as one value, so the two values are shown alike. Their written forms can then be
compared from the front, piece by piece (`render_cancel`).
-/

namespace EffectTiming.JsonValue

variable {xs ys : List Char}

theorem quote_blurred (r : RawText) : quote r.blurred = quote r := by
  have hescape : escapeGlyph ∘ Glyph.blurred = escapeGlyph := by
    funext g
    cases g <;> rfl
  rw [quote, RawText.blurred, List.flatMap_map, ← Function.comp_def, hescape, quote]

/-- Of two pieces that are shown alike, the written forms tell a stray byte from a character. -/
theorem escapeGlyph_cancel {g g' : Glyph} (hshown : g.shown = g'.shown)
    (h : escapeGlyph g ++ xs = escapeGlyph g' ++ ys) : g.blurred = g'.blurred ∧ xs = ys := by
  cases g with
  | char c =>
    cases g' with
    | char c' =>
      obtain rfl : c = c' := hshown
      exact ⟨rfl, List.append_cancel_left h⟩
    | stray byte =>
      obtain rfl : c = '\ufffd' := hshown
      cases h
  | stray byte =>
    cases g' with
    | char c' =>
      obtain rfl : '\ufffd' = c' := hshown
      cases h
    | stray byte' => exact ⟨rfl, List.append_cancel_left h⟩

theorem flatMap_escapeGlyph_cancel {gs gs' : List Glyph}
    (hshown : gs.map Glyph.shown = gs'.map Glyph.shown)
    (h : gs.flatMap escapeGlyph ++ xs = gs'.flatMap escapeGlyph ++ ys) :
    gs.map Glyph.blurred = gs'.map Glyph.blurred ∧ xs = ys := by
  induction gs generalizing gs' with
  | nil =>
    obtain rfl := List.map_eq_nil_iff.mp hshown.symm
    exact ⟨rfl, h⟩
  | cons g gs ih =>
    cases gs' with
    | nil => cases hshown
    | cons g' gs' =>
      obtain ⟨hfirst, hrest⟩ := List.cons.inj hshown
      rw [List.flatMap_cons, List.flatMap_cons, List.append_assoc, List.append_assoc] at h
      obtain ⟨hg, h⟩ := escapeGlyph_cancel hfirst h
      obtain ⟨hgs, hxs⟩ := ih hrest h
      exact ⟨by rw [List.map_cons, List.map_cons, hg, hgs], hxs⟩

theorem quote_cancel {r r' : RawText} (hshown : r.shown = r'.shown)
    (h : quote r ++ xs = quote r' ++ ys) : r.blurred = r'.blurred ∧ xs = ys := by
  have htext : r.text = r'.text := RawText.ofString_inj.mp hshown
  rw [quote_append, quote_append, List.cons.injEq] at h
  obtain ⟨hglyphs, hxs⟩ := flatMap_escapeGlyph_cancel (String.ofList_inj.mp htext) h.2
  exact ⟨congrArg RawText.mk hglyphs, List.tail_eq_of_cons_eq hxs⟩

/-- The value, with all stray bytes taken for one. -/
def blurred (v : JsonValue) : JsonValue := v.mapText RawText.blurred

mutual

theorem render_mapText {f : RawText → RawText} (hf : ∀ r, quote (f r) = quote r) (level : ℕ) :
    ∀ v : JsonValue, render level (v.mapText f) = render level v
  | .null | .bool _ | .number _ => rfl
  | .string s => hf s
  | .array [] | .object [] => rfl
  | .array (v :: vs) => by
    simp only [mapText, mapItems, render, render_mapText hf (level + 1) v,
      renderItems_mapItems hf (level + 1) vs]
  | .object ((k, v) :: ms) => by
    simp only [mapText, mapMembers, render, render_mapText hf (level + 1) v,
      renderMembers_mapMembers hf (level + 1) ms]

theorem renderItems_mapItems {f : RawText → RawText} (hf : ∀ r, quote (f r) = quote r) (level : ℕ) :
    ∀ vs : List JsonValue, renderItems level (mapItems f vs) = renderItems level vs
  | [] => rfl
  | v :: vs => by
    simp only [mapItems, renderItems, render_mapText hf level v, renderItems_mapItems hf level vs]

theorem renderMembers_mapMembers {f : RawText → RawText}
    (hf : ∀ r, quote (f r) = quote r) (level : ℕ) :
    ∀ ms : List (String × JsonValue), renderMembers level (mapMembers f ms) = renderMembers level ms
  | [] => rfl
  | (k, v) :: ms => by
    simp only [mapMembers, renderMembers, render_mapText hf level v,
      renderMembers_mapMembers hf level ms]

end

mutual

/-- Values that are shown alike have one written form only if they are the same up to stray
bytes. -/
theorem render_cancel (level : ℕ) {xs ys : List Char} : ∀ {v w : JsonValue}, v.shown = w.shown →
    render level v ++ xs = render level w ++ ys → v.blurred = w.blurred ∧ xs = ys
  | .null, .null, _, h => ⟨rfl, List.append_cancel_left h⟩
  | .bool _, .bool _, .refl _, h => ⟨rfl, List.append_cancel_left h⟩
  | .number _, .number _, .refl _, h => ⟨rfl, List.append_cancel_left h⟩
  | .string s, .string s', hshown, h => by
    obtain ⟨hs, hxs⟩ := quote_cancel (string.inj hshown) h
    exact ⟨congrArg string hs, hxs⟩
  | .array [], .array [], _, h => ⟨rfl, List.append_cancel_left h⟩
  | .array (v :: vs), .array (w :: ws), hshown, h => by
    obtain ⟨hv, hvs⟩ := List.cons.inj (array.inj hshown)
    simp only [render, List.append_assoc, List.append_cancel_left_eq, List.cons_append,
      List.cons.injEq, true_and] at h
    obtain ⟨hv, h⟩ := render_cancel (level + 1) hv h
    obtain ⟨hvs, h⟩ := renderItems_cancel (level + 1) hvs h
    exact ⟨congrArg array (congrArg₂ List.cons hv hvs), by simpa using h⟩
  | .object [], .object [], _, h => ⟨rfl, List.append_cancel_left h⟩
  | .object ((k, v) :: ms), .object ((k', w) :: ns), hshown, h => by
    obtain ⟨hm, hms⟩ := List.cons.inj (object.inj hshown)
    obtain ⟨rfl, hv⟩ := Prod.mk.inj hm
    simp only [render, List.append_assoc, List.append_cancel_left_eq, List.cons_append,
      List.cons.injEq, true_and] at h
    obtain ⟨hv, h⟩ := render_cancel (level + 1) hv h
    obtain ⟨hms, h⟩ := renderMembers_cancel (level + 1) hms h
    exact ⟨congrArg object (congrArg₂ List.cons (congrArg (Prod.mk k) hv) hms), by simpa using h⟩

theorem renderItems_cancel (level : ℕ) {xs ys : List Char} : ∀ {vs ws : List JsonValue},
    mapItems RawText.shown vs = mapItems RawText.shown ws →
      renderItems level vs ++ xs = renderItems level ws ++ ys →
        mapItems RawText.blurred vs = mapItems RawText.blurred ws ∧ xs = ys
  | [], [], _, h => ⟨rfl, h⟩
  | v :: vs, w :: ws, hshown, h => by
    obtain ⟨hv, hvs⟩ := List.cons.inj hshown
    simp only [renderItems, List.append_assoc, List.append_cancel_left_eq, List.cons_append,
      List.cons.injEq, true_and] at h
    obtain ⟨hv, h⟩ := render_cancel level hv h
    obtain ⟨hvs, h⟩ := renderItems_cancel level hvs h
    exact ⟨congrArg₂ List.cons hv hvs, h⟩

theorem renderMembers_cancel (level : ℕ) {xs ys : List Char} :
    ∀ {ms ns : List (String × JsonValue)},
    mapMembers RawText.shown ms = mapMembers RawText.shown ns →
      renderMembers level ms ++ xs = renderMembers level ns ++ ys →
        mapMembers RawText.blurred ms = mapMembers RawText.blurred ns ∧ xs = ys
  | [], [], _, h => ⟨rfl, h⟩
  | (k, v) :: ms, (k', w) :: ns, hshown, h => by
    obtain ⟨hm, hms⟩ := List.cons.inj hshown
    obtain ⟨rfl, hv⟩ := Prod.mk.inj hm
    simp only [renderMembers, List.append_assoc, List.append_cancel_left_eq, List.cons_append,
      List.cons.injEq, true_and] at h
    obtain ⟨hv, h⟩ := render_cancel level hv h
    obtain ⟨hms, h⟩ := renderMembers_cancel level hms h
    exact ⟨congrArg₂ List.cons (congrArg (Prod.mk k) hv) hms, h⟩

end

/-- Values have one text exactly if they differ in nothing but which bytes are stray in their
texts. -/
theorem pretty_eq_iff {v w : JsonValue} (hv : Writable depthLimit v) (hw : Writable depthLimit w) :
    v.pretty = w.pretty ↔ v.blurred = w.blurred := by
  constructor
  · intro h
    have hread : Except.ok v.shown = Except.ok (ε := SyntaxFault) w.shown := by
      rw [← read_pretty hv, ← read_pretty hw, h]
    exact (render_cancel 0 (Except.ok.inj hread) (String.ofList_inj.mp h)).1
  · intro h
    have hrender : ∀ u : JsonValue, render 0 u.blurred = render 0 u :=
      render_mapText quote_blurred 0
    rw [pretty, pretty, ← hrender v, ← hrender w, h]

end EffectTiming.JsonValue
