import HorizonCast.Lib.Text

/-! Text as bytes and text as lines: UTF-8 reads back what it wrote, and lines joined
by a pair of characters are cut at that pair again. -/

namespace Text

/-! ### UTF-8 -/

theorem asBytes_append (s t : Str) : asBytes (s ++ t) = asBytes s ++ asBytes t :=
  List.flatMap_append

theorem asBytes_flatMap {α : Type*} (f : α → Str) (l : List α) :
    asBytes (l.flatMap f) = l.flatMap fun a => asBytes (f a) := List.flatMap_assoc

theorem fromUtf8_asBytes (s : Str) : fromUtf8 (asBytes s) = some s := by
  have hbytes : (⟨(asBytes s).toArray⟩ : ByteArray) = (String.ofList s).toByteArray := by
    rw [String.toByteArray_ofList, List.utf8Encode]
    exact ByteArray.ext List.data_toByteArray.symm
  have hread : String.fromUTF8? (String.ofList s).toByteArray = some (String.ofList s) :=
    dif_pos (String.ofList s).isValidUTF8
  rw [fromUtf8, hbytes, hread, Option.map_some, String.toList_ofList]

/-- A byte below 128 stands for the ASCII character. -/
theorem mem_utf8EncodeChar {b : UInt8} (hb : b.toNat < 128) {c : Char}
    (h : b ∈ String.utf8EncodeChar c) : c.toNat = b.toNat := by
  have hcode : c.toNat = c.val.toNat := rfl
  unfold String.utf8EncodeChar at h
  dsimp only at h
  split_ifs at h with h₁
  · obtain rfl := List.mem_singleton.mp h
    rw [UInt8.toNat_ofNat']
    omega
  -- In a longer encoding every byte has its high bit set.
  all_goals simp only [List.mem_cons, List.not_mem_nil, or_false] at h
  · rcases h with rfl | rfl <;> rw [UInt8.toNat_ofNat'] at hb <;> omega
  · rcases h with rfl | rfl | rfl <;> rw [UInt8.toNat_ofNat'] at hb <;> omega
  · rcases h with rfl | rfl | rfl | rfl <;> rw [UInt8.toNat_ofNat'] at hb <;> omega

theorem notMem_asBytes {c : Char} (hc : c.toNat < 128) {s : Str} (h : c ∉ s) :
    UInt8.ofNat c.toNat ∉ asBytes s := by
  intro hmem
  obtain ⟨d, hd, hb⟩ := List.mem_flatMap.mp hmem
  have hnat : (UInt8.ofNat c.toNat).toNat = c.toNat := UInt8.toNat_ofNat_of_lt' (by
    change c.toNat < 256
    omega)
  have hdc := mem_utf8EncodeChar (by omega) hb
  rw [hnat] at hdc
  exact h (Char.toNat_inj.mp hdc ▸ hd)

/-! ### Lines -/

section Lines

variable {a b : Char}

/-- Lines with the pair `a b` between them. -/
def joinLines (a b : Char) (first : Str) (rest : List Str) : Str :=
  first ++ rest.flatMap fun line => a :: b :: line

theorem joinLines_cons (first line : Str) (rest : List Str) :
    joinLines a b first (line :: rest) = first ++ a :: b :: joinLines a b line rest := by
  simp [joinLines]

theorem splitPair_cons {c : Char} (hc : c ≠ a) (s : Str) :
    splitPair a b (c :: s) =
      match splitPair a b s with
      | [] => [[c]]
      | line :: lines => (c :: line) :: lines := by
  cases s with
  | nil => rfl
  | cons d s => exact if_neg fun h => hc h.1

theorem splitPair_of_notMem {line : Str} (h : a ∉ line) : splitPair a b line = [line] := by
  induction line with
  | nil => rfl
  | cons c line ih =>
    rw [splitPair_cons (List.ne_of_not_mem_cons h).symm, ih (List.not_mem_of_not_mem_cons h)]

theorem splitPair_append {line : Str} (h : a ∉ line) (s : Str) :
    splitPair a b (line ++ a :: b :: s) = line :: splitPair a b s := by
  induction line with
  | nil => rw [List.nil_append, splitPair, if_pos ⟨rfl, rfl⟩]
  | cons c line ih =>
    rw [List.cons_append, splitPair_cons (List.ne_of_not_mem_cons h).symm,
      ih (List.not_mem_of_not_mem_cons h)]

/-- Lines without the first character of the pair are found again. -/
theorem splitPair_joinLines {first : Str} {rest : List Str} (hfirst : a ∉ first)
    (hrest : ∀ line ∈ rest, a ∉ line) :
    splitPair a b (joinLines a b first rest) = first :: rest := by
  induction rest generalizing first with
  | nil => rw [joinLines, List.flatMap_nil, List.append_nil, splitPair_of_notMem hfirst]
  | cons line rest ih =>
    rw [joinLines_cons, splitPair_append hfirst,
      ih (hrest line (by simp)) fun l hl => hrest l (by simp [hl])]

end Lines

end Text
