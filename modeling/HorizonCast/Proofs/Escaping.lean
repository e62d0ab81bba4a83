import HorizonCast.Spec.Upnp

/-! What `xml_escape` writes, and that a reader gets the text back. -/

namespace HorizonCast

open Text Xml

def SPECIAL : List Char := ['&', '<', '>', '"', '\'']

theorem xmlEscape_cons (c : Char) (s : Str) :
    xmlEscape (c :: s) = xmlEscape [c] ++ xmlEscape s := by
  rw [xmlEscape, xmlEscape, xmlEscape, ← List.flatMap_append, List.singleton_append]

theorem xmlEscape_plain {c : Char} (hc : c ∉ SPECIAL) : xmlEscape [c] = [c] := by
  simp only [SPECIAL, List.mem_cons, List.not_mem_nil, or_false, not_or] at hc
  obtain ⟨hamp, hlt, hgt, hquot, hapos⟩ := hc
  rw [xmlEscape, List.flatMap_singleton, if_neg hamp, if_neg hlt, if_neg hgt, if_neg hquot,
    if_neg hapos]

/-- An escaped character is read as one reference, to an entity that stands for it. -/
theorem lexContent_special {c : Char} (hc : c ∈ SPECIAL) (acc s : Str) :
    ∃ name, predefined.lookup name = some c ∧
      lexContent false acc (xmlEscape [c] ++ s) =
        flush acc ++ .generalRef name :: lexContent false [] s := by
  simp only [SPECIAL, List.mem_cons, List.not_mem_nil, or_false] at hc
  rcases hc with rfl | rfl | rfl | rfl | rfl
  · exact ⟨"amp".toList, by decide, rfl⟩
  · exact ⟨"lt".toList, by decide, rfl⟩
  · exact ⟨"gt".toList, by decide, rfl⟩
  · exact ⟨"quot".toList, by decide, rfl⟩
  · exact ⟨"apos".toList, by decide, rfl⟩

theorem lexContent_plain {c : Char} (hc : c ∉ SPECIAL) (acc s : Str) :
    lexContent false acc (xmlEscape [c] ++ s) = lexContent false (acc ++ [c]) s := by
  have hamp : c ≠ '&' := fun h => hc (by simp [SPECIAL, h])
  rw [xmlEscape_plain hc, List.singleton_append, lexContent, if_neg hamp]

/-- Escaped text has no markup and closes no quotation. -/
theorem notMem_xmlEscape {c : Char} (hc : c ∈ SPECIAL) (hamp : c ≠ '&') (s : Str) :
    c ∉ xmlEscape s := by
  induction s with
  | nil => exact List.not_mem_nil
  | cons d s ih =>
    rw [xmlEscape_cons, List.mem_append, not_or]
    refine ⟨fun hmem => ?_, ih⟩
    by_cases hd : d ∈ SPECIAL
    · simp only [SPECIAL, List.mem_cons, List.not_mem_nil, or_false] at hd hc
      rcases hd with rfl | rfl | rfl | rfl | rfl <;>
        rcases hc with rfl | rfl | rfl | rfl | rfl <;> revert hmem hamp <;> decide
    · rw [xmlEscape_plain hd, List.mem_singleton] at hmem
      exact hd (hmem ▸ hc)

theorem mapM_chars_flush (acc : Str) :
    ((flush acc).mapM Event.chars).map List.flatten = some acc := by
  unfold flush
  split_ifs with h
  · rw [h]
    rfl
  · simp [Event.chars]

/-- The events of an escaped text stand for the text. -/
theorem mapM_chars_lexContent (acc s : Str) :
    ((lexContent false acc (xmlEscape s)).mapM Event.chars).map List.flatten =
      some (acc ++ s) := by
  induction s generalizing acc with
  | nil => rw [List.append_nil]; exact mapM_chars_flush acc
  | cons c s ih =>
    rw [xmlEscape_cons]
    by_cases hc : c ∈ SPECIAL
    · obtain ⟨name, hlookup, hlex⟩ := lexContent_special hc acc (xmlEscape s)
      obtain ⟨pieces, hpieces, hflat⟩ := Option.map_eq_some_iff.mp (ih [])
      obtain ⟨front, hfront, hacc⟩ := Option.map_eq_some_iff.mp (mapM_chars_flush acc)
      rw [hlex, List.mapM_append, List.mapM_cons, hfront, hpieces]
      simp only [List.nil_append] at hflat
      simp [Event.chars, hlookup, hflat, hacc]
    · rw [lexContent_plain hc, ih, List.append_assoc, List.singleton_append]

/-- Escaping is undone exactly. -/
theorem unescape_xmlEscape (s : Str) : unescape (xmlEscape s) = some s := by
  unfold unescape contentEvents
  rw [if_neg (notMem_xmlEscape (by decide) (by decide) s)]
  exact mapM_chars_lexContent [] s

end HorizonCast
