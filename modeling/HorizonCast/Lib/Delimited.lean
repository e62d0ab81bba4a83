import HorizonCast.Lib.Text

/-! Texts between delimiters. A delimiter is found at its first occurrence, so what
stands before it must not contain one, nor the start of one that goes on beyond. -/

namespace Text

/-- What stands before and after the first occurrence of `pat`. -/
def splitAtFirst (pat : Str) : Str → Option (Str × Str)
  | [] => if pat = [] then some ([], []) else none
  | c :: s =>
    if pat.isPrefixOf (c :: s) then some ([], (c :: s).drop pat.length)
    else (splitAtFirst pat s).map fun (a, b) => (c :: a, b)

/-- `str::find`: the position of the first occurrence of `pat`. -/
def findPat (pat s : Str) : Option ℕ := (splitAtFirst pat s).map fun (a, _) => a.length

/-- `str::find` at a character. -/
def findChar (sep : Char) (s : Str) : Option ℕ := (splitOnce sep s).map fun (a, _) => a.length

/-- The text between the first `start` and the first `stop` after it. -/
def between (start stop s : Str) : Option Str := do
  let (_, rest) ← splitAtFirst start s
  let (text, _) ← splitAtFirst stop rest
  some text

/-- No occurrence of `pat` starts in the text, whatever comes after it. -/
def Skips (pat : Str) : Str → Prop
  | [] => True
  | c :: s => ¬ pat <+: c :: s ∧ ¬ c :: s <+: pat ∧ Skips pat s

instance decidableSkips (pat : Str) : (s : Str) → Decidable (Skips pat s)
  | [] => isTrue trivial
  | c :: s =>
    haveI := decidableSkips pat s
    inferInstanceAs (Decidable (¬ pat <+: c :: s ∧ ¬ c :: s <+: pat ∧ Skips pat s))

theorem Skips.append {pat s t : Str} (hs : Skips pat s) (ht : Skips pat t) :
    Skips pat (s ++ t) := by
  induction s with
  | nil => exact ht
  | cons c s ih =>
    obtain ⟨hpat, hcs, hs⟩ := hs
    refine ⟨fun h => ?_, fun h => hcs ((List.prefix_append (c :: s) t).trans h), ih hs⟩
    rcases List.prefix_or_prefix_of_prefix h (List.prefix_append (c :: s) t) with h | h
    · exact hpat h
    · exact hcs h

/-- A text without the first character of the delimiter. -/
theorem skips_of_notMem {c : Char} (pat : Str) {s : Str} (h : c ∉ s) : Skips (c :: pat) s := by
  induction s with
  | nil => trivial
  | cons d s ih =>
    rw [List.mem_cons, not_or] at h
    refine ⟨fun hpre => ?_, fun hpre => ?_, ih h.2⟩
    · exact h.1 (List.cons_prefix_cons.mp hpre).1
    · exact h.1 (List.cons_prefix_cons.mp hpre).1.symm

theorem skips_nil (pat : Str) : Skips pat [] := trivial

theorem splitAtFirst_skips {pat s : Str} (h : Skips pat s) (t : Str) :
    splitAtFirst pat (s ++ (pat ++ t)) = some (s, t) := by
  induction s with
  | nil =>
    cases hpat : pat ++ t with
    | nil =>
      obtain ⟨rfl, rfl⟩ := List.append_eq_nil_iff.mp hpat
      rfl
    | cons c u =>
      rw [List.nil_append, splitAtFirst, ← hpat,
        if_pos (List.isPrefixOf_iff_prefix.mpr (List.prefix_append pat t)), List.drop_left]
  | cons c s ih =>
    obtain ⟨hpat, hcs, hs⟩ := h
    have hno : ¬ pat.isPrefixOf (c :: (s ++ (pat ++ t))) = true := by
      rw [List.isPrefixOf_iff_prefix, ← List.cons_append]
      intro hpre
      have hcut := List.prefix_append (c :: s) (pat ++ t)
      rcases List.prefix_or_prefix_of_prefix hpre hcut with h | h
      · exact hpat h
      · exact hcs h
    rw [List.cons_append, splitAtFirst, if_neg hno, ih hs, Option.map_some]

theorem findPat_skips {pat s : Str} (h : Skips pat s) (t : Str) :
    findPat pat (s ++ (pat ++ t)) = some s.length := by
  rw [findPat, splitAtFirst_skips h, Option.map_some]

/-- What stands before the first `sep`, if there is one. -/
theorem take_findChar (sep : Char) (s : Str) :
    s.take ((findChar sep s).getD s.length) = s.takeWhile (· ≠ sep) := by
  cases h : splitOnce sep s with
  | none =>
    rw [findChar, h, Option.map_none, Option.getD_none, List.take_length]
    refine (List.takeWhile_eq_self_iff.mpr fun c hc => ?_).symm
    have hne : c ≠ sep := fun heq => splitOnce_eq_none.mp h (heq ▸ hc)
    simpa using hne
  | some pair =>
    obtain ⟨a, b⟩ := pair
    obtain ⟨rfl, hsep⟩ := splitOnce_eq_some.mp h
    rw [findChar, h, Option.map_some, Option.getD_some, List.take_left' rfl,
      List.takeWhile_append_of_pos fun c hc => by simpa using fun heq : c = sep => hsep (heq ▸ hc),
      List.takeWhile_cons_of_neg (by simp), List.append_nil]

theorem between_skips {start stop pre text : Str} (hpre : Skips start pre) (htext : Skips stop text)
    (t : Str) : between start stop (pre ++ (start ++ (text ++ (stop ++ t)))) = some text := by
  unfold between
  simp only [Option.bind_eq_bind, splitAtFirst_skips hpre, Option.bind_some,
    splitAtFirst_skips htext]

-- Unifying two long texts must not unfold what is said of them.
attribute [irreducible] Skips

end Text
