import Mathlib
import EffectTiming.Text.Raw

/-!
# Raw texts as they are shown

Two views of a raw text that forget something: as it is shown, a stray byte is a replacement
character, and blurred, it is a stray byte but no longer tells which one. A raw text without stray
bytes is its own view.
-/

namespace EffectTiming

/-- The piece, with all stray bytes taken for one. -/
def Glyph.blurred : Glyph → Glyph
  | .char c => .char c
  | .stray _ => .stray 0xff

namespace RawText

variable {r : RawText}

/-- The text as it is shown, with a replacement character for every stray byte. -/
def shown (r : RawText) : RawText := .ofString r.text

/-- The text, with all stray bytes taken for one. -/
def blurred (r : RawText) : RawText := ⟨r.glyphs.map Glyph.blurred⟩

@[simp]
theorem text_ofString (s : String) : (ofString s).text = s := by
  have hshown : Glyph.shown ∘ Glyph.char = id := rfl
  rw [text, ofString, List.map_map, hshown, List.map_id, String.ofList_toList]

@[simp]
theorem ofString_inj {s s' : String} : ofString s = ofString s' ↔ s = s' := by
  refine ⟨fun h => ?_, congrArg ofString⟩
  rw [← text_ofString s, h, text_ofString]

theorem isEmpty_iff : r.isEmpty = true ↔ r = "" := by
  obtain ⟨glyphs⟩ := r
  cases glyphs <;> simp [isEmpty, ofString]

theorem isEmpty_shown (r : RawText) : r.shown.isEmpty = r.isEmpty := by
  obtain ⟨glyphs⟩ := r
  cases glyphs <;> simp [isEmpty, shown, ofString, text]

theorem isEmpty_blurred (r : RawText) : r.blurred.isEmpty = r.isEmpty := by
  obtain ⟨glyphs⟩ := r
  cases glyphs <;> rfl

@[simp]
theorem isText_ofString (s : String) : (ofString s).isText = true := by
  simp [isText, ofString, Glyph.isChar]

/-- A raw text without stray bytes is a text. -/
theorem eq_ofString_of_isText (h : r.isText = true) : ∃ s, r = ofString s := by
  refine ⟨r.text, ?_⟩
  obtain ⟨glyphs⟩ := r
  rw [isText, List.all_eq_true] at h
  have hglyph : ∀ g ∈ glyphs, (Glyph.char ∘ Glyph.shown) g = g := by
    intro g hg
    cases g with
    | char c => rfl
    | stray byte => exact absurd (h _ hg) Bool.false_ne_true
  rw [ofString, text, String.toList_ofList, List.map_map, List.map_congr_left hglyph, List.map_id']

theorem shown_of_isText (h : r.isText = true) : r.shown = r := by
  obtain ⟨s, rfl⟩ := eq_ofString_of_isText h
  rw [shown, text_ofString]

theorem blurred_of_isText (h : r.isText = true) : r.blurred = r := by
  obtain ⟨s, rfl⟩ := eq_ofString_of_isText h
  have hkept : Glyph.blurred ∘ Glyph.char = Glyph.char := rfl
  rw [blurred, ofString, List.map_map, hkept]

end RawText

end EffectTiming
