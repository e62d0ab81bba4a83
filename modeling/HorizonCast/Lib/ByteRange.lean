import HorizonCast.Lib.Text

/-! Byte-range specifications of HTTP range requests: the texts that are well
formed, and the bytes of a representation that they select. -/

namespace ByteRange

open Text

/-- What a byte-range specification asks for. -/
inductive Spec where
  | openEnded (first : ℕ)
  | closed (first last : ℕ)
  | suffix (length : ℕ)
  deriving DecidableEq, Repr

/-- The well-formed texts, with digit strings of any length. -/
inductive Spells : Str → Spec → Prop
  | openEnded {s : Str} (hs : IsDigits s) : Spells (s ++ ['-']) (.openEnded (numeral s))
  | closed {s e : Str} (hs : IsDigits s) (he : IsDigits e) (hle : numeral s ≤ numeral e) :
      Spells (s ++ '-' :: e) (.closed (numeral s) (numeral e))
  | suffix {e : Str} (he : IsDigits e) : Spells ('-' :: e) (.suffix (numeral e))

/-- The first and the last byte that a specification selects of `total` bytes, if
it can be satisfied. -/
def Spec.resolve (total : ℕ) : Spec → Option (ℕ × ℕ)
  | openEnded first => if first < total then some (first, total - 1) else none
  | closed first last => if first < total then some (first, min last (total - 1)) else none
  | suffix length => if length = 0 then none else some (total - length, total - 1)

theorem notMem_dash {s : Str} (h : IsDigits s) : '-' ∉ s := fun hmem =>
  absurd (List.all_eq_true.mp h.2 '-' hmem) (by decide)

theorem Spells.dash_mem {t : Str} {spec : Spec} (h : Spells t spec) : '-' ∈ t := by
  cases h <;> simp

theorem not_isDigits_nil : ¬ IsDigits [] := fun h => h.1 rfl

/-- The well-formed texts by what stands on either side of the first dash. -/
theorem spells_iff {s e : Str} (hs : '-' ∉ s) {spec : Spec} :
    Spells (s ++ '-' :: e) spec ↔
      (s = [] ∧ IsDigits e ∧ spec = .suffix (numeral e)) ∨
      (IsDigits s ∧ e = [] ∧ spec = .openEnded (numeral s)) ∨
      (IsDigits s ∧ IsDigits e ∧ numeral s ≤ numeral e ∧
        spec = .closed (numeral s) (numeral e)) := by
  constructor
  · intro h
    generalize ht : s ++ '-' :: e = t at h
    cases h with
    | openEnded hdigits =>
      obtain ⟨rfl, rfl⟩ := append_sep_inj hs (notMem_dash hdigits) ht
      exact .inr (.inl ⟨hdigits, rfl, rfl⟩)
    | closed hdigits he hle =>
      obtain ⟨rfl, rfl⟩ := append_sep_inj hs (notMem_dash hdigits) ht
      exact .inr (.inr ⟨hdigits, he, hle, rfl⟩)
    | suffix he =>
      obtain ⟨rfl, rfl⟩ := append_sep_inj (q := []) hs List.not_mem_nil ht
      exact .inl ⟨rfl, he, rfl⟩
  · rintro (⟨rfl, he, rfl⟩ | ⟨hdigits, rfl, rfl⟩ | ⟨hdigits, he, hle, rfl⟩)
    · exact .suffix he
    · exact .openEnded hdigits
    · exact .closed hdigits he hle

/-- A text spells at most one specification. -/
theorem Spells.unique {t : Str} {spec spec' : Spec} (h : Spells t spec) (h' : Spells t spec') :
    spec = spec' := by
  obtain ⟨⟨s, e⟩, hsplit⟩ := Option.ne_none_iff_exists'.mp
    fun hnone => splitOnce_eq_none.mp hnone h.dash_mem
  obtain ⟨rfl, hs⟩ := splitOnce_eq_some.mp hsplit
  rcases (spells_iff hs).mp h with ⟨rfl, he, rfl⟩ | ⟨hd, rfl, rfl⟩ | ⟨hd, he, -, rfl⟩ <;>
    rcases (spells_iff hs).mp h' with ⟨hs', he', rfl⟩ | ⟨hd', he', rfl⟩ | ⟨hd', he', -, rfl⟩
  · rfl
  · exact absurd hd' not_isDigits_nil
  · exact absurd hd' not_isDigits_nil
  · exact absurd he' not_isDigits_nil
  · rfl
  · exact absurd he' not_isDigits_nil
  · exact absurd (hs' ▸ hd) not_isDigits_nil
  · exact absurd (he' ▸ he) not_isDigits_nil
  · rfl

end ByteRange
