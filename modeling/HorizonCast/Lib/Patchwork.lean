import Mathlib.Data.List.Basic

/-! A copy of a sequence that is put together from pieces, in any order and with any
overlaps. -/

namespace Patchwork

variable {α : Type*} {known : ℕ → Option α} {whole piece : List α} {place : ℕ}

/-- What is known once a piece is laid over it, the first element at `place`. -/
def lay (known : ℕ → Option α) (place : ℕ) (piece : List α) : ℕ → Option α := fun i =>
  if place ≤ i ∧ i < place + piece.length then piece[i - place]? else known i

/-- What is known is what stands there in the whole. -/
def PartOf (known : ℕ → Option α) (whole : List α) : Prop :=
  ∀ i a, known i = some a → whole[i]? = some a

theorem partOf_none (whole : List α) : PartOf (fun _ => none) whole := fun _ _ h => nomatch h

theorem PartOf.lay (h : PartOf known whole) (hpiece : piece <+: whole.drop place) :
    PartOf (lay known place piece) whole := by
  intro i a hi
  unfold Patchwork.lay at hi
  split_ifs at hi with hin
  · have hwhole := List.prefix_iff_getElem?.mp hpiece (i - place) (by omega)
    rw [List.getElem?_drop, show place + (i - place) = i by omega] at hwhole
    rw [hwhole, ← hi]
    exact (List.getElem?_eq_getElem _).symm
  · exact h i a hi

theorem isSome_lay (i : ℕ) :
    (lay known place piece i).isSome ↔
      (known i).isSome ∨ place ≤ i ∧ i < place + piece.length := by
  unfold lay
  split_ifs with hin
  · simp [hin, show i - place < piece.length by omega]
  · simp [hin]

/-- Where everything is known, the whole can be read off. -/
theorem PartOf.filterMap_range (h : PartOf known whole)
    (hall : ∀ i < whole.length, (known i).isSome) :
    (List.range whole.length).filterMap known = whole := by
  have hmap : (List.range whole.length).map known = whole.map some := by
    apply List.ext_getElem?
    intro i
    by_cases hi : i < whole.length
    · obtain ⟨a, ha⟩ := Option.isSome_iff_exists.mp (hall i hi)
      rw [List.getElem?_map, List.getElem?_range hi, List.getElem?_map, h i a ha]
      simp [ha]
    · simp [hi]
  have hread := congrArg (List.filterMap id) hmap
  simpa [List.filterMap_map] using hread

end Patchwork
