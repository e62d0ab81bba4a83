import HorizonCast.Spec.Encode

/-! The conversion from AVCC to Annex-B: which units of a buffer it emits, and that a
receiver finds them again. -/

namespace HorizonCast

open Text NalUnits

/-! ### One unit -/

theorem readU32_append (pre : Bytes) (b0 b1 b2 b3 : UInt8) (tail : Bytes) :
    readU32 (pre ++ b0 :: b1 :: b2 :: b3 :: tail) pre.length = some (fromBe32 b0 b1 b2 b3) := by
  have hget : ∀ k, (pre ++ b0 :: b1 :: b2 :: b3 :: tail)[pre.length + k]? =
      (b0 :: b1 :: b2 :: b3 :: tail)[k]? := by
    intro k
    rw [List.getElem?_append_right (Nat.le_add_right _ _), Nat.add_sub_cancel_left]
  have h0 := hget 0
  rw [Nat.add_zero] at h0
  rw [readU32, h0, hget 1, hget 2, hget 3]
  rfl

/-- Whole bytes between others are a slice. -/
theorem slice_append (pre unit tail : Bytes) :
    slice (pre ++ unit ++ tail) pre.length (pre.length + unit.length) = some unit := by
  have hle : pre.length + unit.length ≤ (pre ++ unit ++ tail).length := by
    simp only [List.length_append]
    omega
  rw [slice, if_pos ⟨Nat.le_add_right _ _, hle⟩, ← List.length_append,
    List.take_left, List.drop_left]

/-- What the loop has read when it is behind a unit. -/
def behind (pre unit : Bytes) : Bytes := pre ++ be32 unit.length ++ unit

theorem length_behind (pre unit : Bytes) :
    (behind pre unit).length = pre.length + 4 + unit.length := by
  simp only [behind, List.length_append]
  rfl

theorem append_lengthPrefixed (pre u : Bytes) (units : List Bytes) (rest : Bytes) :
    pre ++ (lengthPrefixed (u :: units) ++ rest) =
      behind pre u ++ (lengthPrefixed units ++ rest) := by
  simp only [lengthPrefixed_cons, behind, List.append_assoc]

theorem readU32_unit (pre tail : Bytes) {unit : Bytes} (hunit : unit.length < 2 ^ 32) :
    readU32 (behind pre unit ++ tail) pre.length = some unit.length := by
  have hread := readU32_append pre (UInt8.ofNat (unit.length / 2 ^ 24))
    (UInt8.ofNat (unit.length / 2 ^ 16)) (UInt8.ofNat (unit.length / 2 ^ 8))
    (UInt8.ofNat unit.length) (unit ++ tail)
  rw [fromBe32_ofNat hunit] at hread
  rw [behind, List.append_assoc, List.append_assoc]
  exact hread

/-- A whole unit is emitted behind a start code. -/
theorem avccToAnnexB_unit (pre tail out : Bytes) {unit : Bytes} (hunit : unit.length < 2 ^ 32) :
    avccToAnnexB (behind pre unit ++ tail) pre.length out =
      avccToAnnexB (behind pre unit ++ tail) (behind pre unit).length
        (out ++ (startCode ++ unit)) := by
  have hlen := length_behind pre unit
  have hslice := slice_append (pre ++ be32 unit.length) unit tail
  have hfour : (pre ++ be32 unit.length).length = pre.length + 4 := by
    rw [List.length_append]
    rfl
  rw [hfour] at hslice
  rw [avccToAnnexB, dif_pos (by rw [List.length_append, hlen]; omega), readU32_unit pre tail hunit,
    Option.bind_eq_bind, Option.bind_some, if_neg (by rw [List.length_append, hlen]; omega), behind,
    hslice, Option.bind_eq_bind, Option.bind_some, ← behind, hlen, List.append_assoc]
  rfl

/-- Without a whole unit at its position, the loop stops. -/
theorem avccToAnnexB_truncated (pre out : Bytes) {rest : Bytes} (hrest : Truncated rest) :
    avccToAnnexB (pre ++ rest) pre.length out = some out := by
  rw [avccToAnnexB]
  split_ifs with hfour
  · match rest with
    | b0 :: b1 :: b2 :: b3 :: tail =>
      have hshort := hrest b0 b1 b2 b3 tail rfl
      rw [readU32_append, Option.bind_eq_bind, Option.bind_some,
        if_pos (by simp only [List.length_append, List.length_cons]; omega)]
    | [] | [_] | [_, _] | [_, _, _] =>
      simp only [List.length_append, List.length_cons, List.length_nil] at hfour
      omega
  · rfl

/-! ### Buffers -/

/-- The loop emits the whole units before the first truncated one. -/
theorem avccToAnnexB_units (pre out : Bytes) {avcc : Bytes} {units : List Bytes} {rest : Bytes}
    (h : HasUnits avcc units rest) :
    avccToAnnexB (pre ++ avcc) pre.length out = some (out ++ byteStream units) := by
  obtain ⟨hshort, hrest, rfl⟩ := h
  induction units generalizing pre out with
  | nil =>
    change avccToAnnexB (pre ++ rest) pre.length out = some (out ++ [])
    rw [avccToAnnexB_truncated pre out hrest, List.append_nil]
  | cons u units ih =>
    rw [append_lengthPrefixed, avccToAnnexB_unit pre _ out (hshort u (by simp)),
      ih (behind pre u) _ fun v hv => hshort v (by simp [hv]), List.append_assoc]
    rfl

theorem hasUnits_lengthPrefixed {units : List Bytes} (h : ∀ u ∈ units, u.length < 2 ^ 32) :
    HasUnits (lengthPrefixed units) units [] where
  short := h
  truncated := by
    intro b0 b1 b2 b3 tail h
    cases h
  eq := (List.append_nil _).symm

/-- The conversion emits each whole unit of a buffer before the first truncated one, once and
in order, and reads nothing behind the end; the units of an encoded list are all of it, and
protected ones are found again by splitting at start codes. -/
theorem conversion_preserves_units :
    (∀ (units : List Bytes) (out : Bytes), (∀ u ∈ units, u.length < 2 ^ 32) →
      avccToAnnexB (lengthPrefixed units) 0 out = some (out ++ byteStream units) ∧
        ((∀ u ∈ units, u ≠ [] ∧ Protected u) → split (byteStream units) = units)) ∧
      ∀ avcc out, ∃ units rest, HasUnits avcc units rest ∧
        avccToAnnexB avcc 0 out = some (out ++ byteStream units) := by
  refine ⟨fun units out hshort => ⟨?_, ?_⟩, ?_⟩
  · exact avccToAnnexB_units [] out (hasUnits_lengthPrefixed hshort)
  · intro hprotected
    exact split_byteStream fun u hu => (hprotected u hu).2
  · intro avcc out
    obtain ⟨units, rest, hunits⟩ := exists_units avcc
    exact ⟨units, rest, hunits, avccToAnnexB_units [] out hunits⟩

/-- An IDR slice and another one. -/
theorem conversion_preserves_units_slices :
    avccToAnnexB [0, 0, 0, 2, 0x65, 0x88, 0, 0, 0, 1, 0x41] 0 [] =
        some [0, 0, 0, 1, 0x65, 0x88, 0, 0, 0, 1, 0x41] ∧
      split [0, 0, 0, 1, 0x65, 0x88, 0, 0, 0, 1, 0x41] = [[0x65, 0x88], [0x41]] := by
  obtain ⟨hconv, hsplit⟩ := conversion_preserves_units.1 [[0x65, 0x88], [0x41]] [] (by decide)
  refine ⟨hconv, hsplit fun u hu => ?_⟩
  simp only [List.mem_cons, List.not_mem_nil, or_false] at hu
  rcases hu with rfl | rfl
  · exact ⟨by decide, ⟨by decide, by decide, by decide⟩⟩
  · exact ⟨by decide, ⟨by decide, by decide, by decide⟩⟩

end HorizonCast
