import HorizonCast.Proofs.NalFraming

/-! When the keyframe flag of an access unit describes its bytes: the loop that looks for an
IDR takes some bytes for headers that the conversion does not emit as such. -/

namespace HorizonCast

open Text NalUnits

/-- The flag is right: the bytes behind the parameter sets contain a unit of type 5 just when
it is set. -/
def FlagRight (sample : CMSampleBuffer) : Prop :=
  ∃ frame body, sampleToEncoded sample = some (some frame) ∧
    frame.data = (if frame.keyframe then parameterSetBytes sample else []) ++ body ∧
    (frame.keyframe = true ↔ ∃ u ∈ split body, HasType 5 u)

/-! ### Headers -/

/-- The bytes that `avcc_nal_types` takes for headers. -/
def headers : List Bytes → Bytes → List UInt8
  | [], rest => (rest.drop 4).head?.toList
  | u :: units, rest => (u ++ (lengthPrefixed units ++ rest)).head?.toList ++ headers units rest

/-- A byte that is no header is taken for one of type 5: the byte behind an empty unit, or the
first byte of the truncated unit. -/
def StrayHeader : List Bytes → Bytes → Prop
  | [], rest => HasType 5 (rest.drop 4)
  | u :: units, rest => u = [] ∧ HasType 5 (lengthPrefixed units ++ rest) ∨ StrayHeader units rest

theorem avccNalTypes_unit (pre tail : Bytes) {unit : Bytes} (hunit : unit.length < 2 ^ 32) :
    avccNalTypes (behind pre unit ++ tail) pre.length =
      (avccNalTypes (behind pre unit ++ tail) (behind pre unit).length).map fun rest =>
        (unit ++ tail).head?.toList.map nalType ++ rest := by
  have hlen := length_behind pre unit
  have hget : (behind pre unit ++ tail)[pre.length + 4]? = (unit ++ tail).head? := by
    have hfour : (pre ++ be32 unit.length).length = pre.length + 4 := by
      rw [List.length_append]
      rfl
    rw [behind, List.append_assoc, List.getElem?_append_right hfour.le, hfour, Nat.sub_self,
      List.head?_eq_getElem?]
  have hheader : pre.length + 4 < (behind pre unit ++ tail).length ↔ unit ++ tail ≠ [] := by
    rw [List.length_append, hlen, ← List.length_pos_iff, List.length_append]
    omega
  rw [avccNalTypes, dif_pos (by rw [List.length_append, hlen]; omega), readU32_unit pre tail hunit,
    Option.bind_eq_bind, Option.bind_some]
  simp only [hget, hheader, ← hlen]
  cases avccNalTypes (behind pre unit ++ tail) (behind pre unit).length with
  | none => rfl
  | some rest =>
    cases unit ++ tail with
    | nil => rfl
    | cons b bytes => rfl

theorem avccNalTypes_truncated (pre : Bytes) {rest : Bytes} (hrest : Truncated rest) :
    avccNalTypes (pre ++ rest) pre.length = some ((rest.drop 4).head?.toList.map nalType) := by
  rw [avccNalTypes]
  split_ifs with hfour
  · match rest with
    | b0 :: b1 :: b2 :: b3 :: tail =>
      have hshort := hrest b0 b1 b2 b3 tail rfl
      have hend : avccNalTypes (pre ++ b0 :: b1 :: b2 :: b3 :: tail)
          (pre.length + 4 + fromBe32 b0 b1 b2 b3) = some [] := by
        rw [avccNalTypes, dif_neg (by simp only [List.length_append, List.length_cons]; omega)]
      have hget : (pre ++ b0 :: b1 :: b2 :: b3 :: tail)[pre.length + 4]? = tail.head? := by
        rw [List.getElem?_append_right (Nat.le_add_right _ _), Nat.add_sub_cancel_left,
          List.head?_eq_getElem?]
        rfl
      rw [readU32_append, Option.bind_eq_bind, Option.bind_some]
      simp only [hend, hget, Option.bind_eq_bind, Option.bind_some]
      cases tail with
      | nil =>
        rw [if_neg (by simp)]
        rfl
      | cons b bytes =>
        rw [if_pos (by simp)]
        rfl
    | [] | [_] | [_, _] | [_, _, _] =>
      simp only [List.length_append, List.length_cons, List.length_nil] at hfour
      omega
  · have hdrop : rest.drop 4 = [] := by
      rw [List.length_append] at hfour
      exact List.drop_eq_nil_of_le (by omega)
    rw [hdrop]
    rfl

theorem avccNalTypes_units (pre : Bytes) {avcc : Bytes} {units : List Bytes} {rest : Bytes}
    (h : HasUnits avcc units rest) :
    avccNalTypes (pre ++ avcc) pre.length = some ((headers units rest).map nalType) := by
  obtain ⟨hshort, hrest, rfl⟩ := h
  induction units generalizing pre with
  | nil => exact avccNalTypes_truncated pre hrest
  | cons u units ih =>
    rw [append_lengthPrefixed, avccNalTypes_unit pre _ (hshort u (by simp)),
      ih (behind pre u) fun v hv => hshort v (by simp [hv]), Option.map_some, headers,
      List.map_append]

theorem hasType_iff_any {bytes : Bytes} :
    HasType 5 bytes ↔ (bytes.head?.toList.map nalType).any (· == 5) = true := by
  cases bytes with
  | nil => simp [HasType]
  | cons b bytes => simp [hasType_cons]

/-- The flag is set for a unit of type 5 that is emitted, and for a stray header. -/
theorem any_headers (units : List Bytes) (rest : Bytes) :
    ((headers units rest).map nalType).any (· == 5) = true ↔
      (∃ u ∈ units, HasType 5 u) ∨ StrayHeader units rest := by
  induction units with
  | nil => simp [headers, StrayHeader, hasType_iff_any]
  | cons u units ih =>
    rw [headers, List.map_append, List.any_append, Bool.or_eq_true, ih, ← hasType_iff_any,
      List.exists_mem_cons_iff, StrayHeader]
    cases u with
    | nil =>
      -- the byte behind the empty unit
      have hnil : ¬ HasType 5 [] := by simp [HasType]
      rw [List.nil_append, or_iff_right hnil, or_left_comm]
      simp only [true_and]
    | cons b bytes =>
      have hcons : ¬ (b :: bytes = [] ∧ HasType 5 (lengthPrefixed units ++ rest)) := by simp
      rw [List.cons_append, hasType_cons, hasType_cons, or_iff_right hcons, or_assoc]

/-! ### Flags -/

theorem sampleToEncoded_eq {sample : CMSampleBuffer} {avcc : Bytes} {units : List Bytes}
    {rest : Bytes} (hsample : sample.avcc = some avcc) (hunits : HasUnits avcc units rest) :
    let keyframe := ((headers units rest).map nalType).any (· == 5)
    sampleToEncoded sample = some (some {
      data := (if keyframe then parameterSetBytes sample else []) ++ byteStream units
      pts := cmtimeTo90k sample.presentationTimeStamp
      keyframe }) := by
  intro keyframe
  have htypes := avccNalTypes_units [] hunits
  have hconv := avccToAnnexB_units [] (if keyframe then parameterSetBytes sample else []) hunits
  rw [List.nil_append, List.length_nil] at htypes hconv
  simp only [sampleToEncoded, hsample, htypes, Option.bind_eq_bind, Option.bind_some]
  rw [hconv]
  rfl

/-- The units of a buffer decide whether the flag is right. -/
theorem flagRight_iff {sample : CMSampleBuffer} {avcc : Bytes} {units : List Bytes} {rest : Bytes}
    (hsample : sample.avcc = some avcc) (hunits : HasUnits avcc units rest) :
    FlagRight sample ↔ (∃ u ∈ units, HasType 5 u) ∨
      (StrayHeader units rest ↔ ∃ u ∈ units, StartsUnit 5 u) := by
  have hframe := sampleToEncoded_eq hsample hunits
  have hflag := any_headers units rest
  have hbody := exists_hasType_split (by decide : (5 : UInt8) ≠ 0) (byteStream units)
  rw [startsUnit_byteStream (by decide)] at hbody
  have hright : FlagRight sample ↔
      (((headers units rest).map nalType).any (· == 5) = true ↔
        ∃ u ∈ split (byteStream units), HasType 5 u) := by
    constructor
    · rintro ⟨frame, body, hsome, hdata, hiff⟩
      rw [hframe] at hsome
      cases hsome
      have hsame := List.append_cancel_left hdata
      rwa [← hsame] at hiff
    · intro hiff
      exact ⟨_, _, hframe, rfl, hiff⟩
  rw [hright, hflag, hbody]
  by_cases hidr : ∃ u ∈ units, HasType 5 u
  · simp only [hidr, true_or]
  · simp only [hidr, false_or]

/-- The flag is right just when a whole unit that is not empty is of type 5, or a stray header
stands where a start code within a unit makes it right. -/
theorem keyframe_right_iff (sample : CMSampleBuffer) (avcc : Bytes)
    (hsample : sample.avcc = some avcc) :
    (∃ units rest, HasUnits avcc units rest) ∧
      ∀ units rest, HasUnits avcc units rest →
        (FlagRight sample ↔ (∃ u ∈ units, HasType 5 u) ∨
          (StrayHeader units rest ↔ ∃ u ∈ units, StartsUnit 5 u)) :=
  ⟨exists_units avcc, fun _ _ hunits => flagRight_iff hsample hunits⟩

/-- A sample of the given bytes, at time zero and with no format description. -/
def sampleOf (avcc : Bytes) : CMSampleBuffer where
  presentationTimeStamp := ⟨0, 90000⟩
  avcc := some avcc
  parameterSets := none

theorem keyframe_right_idr : FlagRight (sampleOf (lengthPrefixed [[0x65, 0x88], [0x41]])) := by
  have hunits : HasUnits (lengthPrefixed [[0x65, 0x88], [0x41]]) [[0x65, 0x88], [0x41]] [] :=
    hasUnits_lengthPrefixed (by decide)
  exact ((keyframe_right_iff (sampleOf _) _ rfl).2 _ _ hunits).mpr (.inl (by decide))

/-- An IDR slice that is cut short: it is announced, and no byte of it is sent. -/
theorem truncated_idr_announced :
    let sample := sampleOf [0, 0, 0, 9, 0x65]
    (∃ frame, sampleToEncoded sample = some (some frame) ∧ frame.keyframe = true ∧
      frame.data = []) ∧ ¬ FlagRight sample := by
  have hunits : HasUnits [0, 0, 0, 9, 0x65] [] [0, 0, 0, 9, 0x65] := by
    refine ⟨by simp, ?_, rfl⟩
    intro b0 b1 b2 b3 tail h
    cases h
    decide
  have hsample : (sampleOf [0, 0, 0, 9, 0x65]).avcc = some [0, 0, 0, 9, 0x65] := rfl
  refine ⟨⟨_, sampleToEncoded_eq hsample hunits, by decide, by decide⟩, ?_⟩
  rw [flagRight_iff hsample hunits]
  rintro (⟨u, hu, -⟩ | hiff)
  · cases hu
  · have hstray : StrayHeader [] [0, 0, 0, 9, 0x65] := rfl
    obtain ⟨u, hu, -⟩ := hiff.mp hstray
    cases hu

end HorizonCast
