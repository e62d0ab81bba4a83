import HorizonCast.Proofs.RoundTrip

/-! The length field of a PES packet. A receiver may end a PES packet where its length
says or at the next PUSI; the two agree on every access unit but an audio unit whose
length does not fit the field. -/

namespace HorizonCast

open Reassembly

/-! ### One PES packet -/

theorem pesLength_buildPes (streamId : UInt8) (pts : UInt64) (payload : Bytes) :
    pesLength (buildPes streamId pts payload) =
      if 8 + payload.length ≤ 0xFFFF then 8 + payload.length else 0 := by
  have hfield : ∀ n : UInt16, (n >>> 8).toUInt8.toNat * 256 + n.toUInt8.toNat = n.toNat := by
    intro n
    have hn := n.toNat_lt
    rw [UInt16.toNat_toUInt8, UInt16.toNat_toUInt8, UInt16.toNat_shiftRight]
    simp only [Nat.shiftRight_eq_div_pow]
    change n.toNat / 256 % 256 * 256 + n.toNat % 256 = n.toNat
    omega
  change (u16TryFrom (8 + payload.length) >>> 8).toUInt8.toNat * 256 +
    (u16TryFrom (8 + payload.length)).toUInt8.toNat = _
  rw [hfield, u16TryFrom]
  split_ifs with hle
  · exact UInt16.toNat_ofNat_of_lt' (by change _ < 65536; omega)
  · rfl

theorem buildPes_length (streamId : UInt8) (pts : UInt64) (payload : Bytes) :
    (buildPes streamId pts payload).length = 14 + payload.length := by
  simp [buildPes, u16ToBeBytes, encodeTimestamp]
  omega

theorem byteAt_append {a : Bytes} {i : ℕ} (hi : i < a.length) (b : Bytes) :
    byteAt (a ++ b) i = byteAt a i := by
  simp [byteAt, List.getD, List.getElem?_append_left hi]

theorem pesSize_stable (pid : UInt16) : Stable (pesSize pid) := by
  intro u n hu v
  obtain ⟨hlen, hn⟩ := Option.ite_none_right_eq_some.mp hu
  have hsame : pesLength (u ++ v) = pesLength u := by
    rw [pesLength, byteAt_append (by omega), byteAt_append (by omega)]
    rfl
  rw [pesSize, if_pos (by rw [List.length_append]; omega), hsame]
  exact hn

/-- The field counts what follows it, and a receiver that counts takes the whole packet. -/
theorem given_buildPes (pid : UInt16) (streamId : UInt8) (pts : UInt64) (payload : Bytes)
    (h : 8 + payload.length ≤ 0xFFFF ∨ pid = PID_VIDEO) :
    given (pesSize pid) (buildPes streamId pts payload) = [buildPes streamId pts payload] := by
  have hlen := buildPes_length streamId pts payload
  have hfield := pesLength_buildPes streamId pts payload
  by_cases hfits : 8 + payload.length ≤ 0xFFFF
  · rw [if_pos hfits] at hfield
    have hsize : pesSize pid (buildPes streamId pts payload) = some (14 + payload.length) := by
      rw [pesSize, hfield, hlen, if_pos (by omega), if_neg (by omega)]
      congr 1
      omega
    apply given_of_finished
    rw [finished, hsize, Option.bind_some, if_pos hlen.ge, ← hlen, List.take_length]
  · rw [if_neg hfits] at hfield
    have hvideo := h.resolve_left hfits
    have hsize : pesSize pid (buildPes streamId pts payload) = none := by
      rw [pesSize, hlen, if_pos (by omega), if_pos ⟨hfield, hvideo⟩]
    simp [given, hsize]

/-- An audio unit that does not fit is cut off behind the length field. -/
theorem given_audio_too_long (pts : UInt64) {adts : Bytes} (h : ¬ 8 + adts.length ≤ 0xFFFF) :
    given (pesSize PID_AUDIO) (buildPes STREAM_ID_AUDIO pts adts) =
      [[0x00, 0x00, 0x01, STREAM_ID_AUDIO, 0x00, 0x00]] := by
  have hlen := buildPes_length STREAM_ID_AUDIO pts adts
  have hfield := pesLength_buildPes STREAM_ID_AUDIO pts adts
  rw [if_neg h] at hfield
  have hsize : pesSize PID_AUDIO (buildPes STREAM_ID_AUDIO pts adts) = some 6 := by
    rw [pesSize, hfield, hlen, if_pos (by omega), if_neg (by decide)]
  apply given_of_finished
  rw [finished, hsize, Option.bind_some, if_pos (by omega), buildPes, u16TryFrom, if_neg h]
  rfl

/-! ### The stream -/

theorem Sends.pesPackets {us : List (Cc × Bytes)} {pss : List (List Bytes)} (h : Sends us pss)
    (which : Cc) :
    HorizonCast.pesPackets which.pid pss.flatten.flatten = carriedOn which us := by
  rw [HorizonCast.pesPackets, h.blocks, h.reassemble]

theorem Sends.demuxByLength {us : List (Cc × Bytes)} {pss : List (List Bytes)} (h : Sends us pss)
    (which : Cc) :
    HorizonCast.demuxByLength which.pid pss.flatten.flatten =
      ((carriedOn which us).flatMap (given (pesSize which.pid))).filterMap parsePes := by
  obtain ⟨fss, hcuts, hflat⟩ := h.fragments which
  rw [HorizonCast.demuxByLength, h.blocks, hflat, (collect_units (pesSize_stable _) hcuts).1]

/-! ### Honest lengths -/

/-- On one PID every PES packet counts the bytes behind its length field, or leaves its
length open and is video, and both ways to end a PES packet recover the same. -/
structure LengthsHonest (pid : UInt16) (out : Bytes) : Prop where
  counted : ∀ pes ∈ pesPackets pid out,
    pesLength pes = (pes.drop 6).length ∨ pesLength pes = 0 ∧ pid = PID_VIDEO
  audio : pid = PID_AUDIO → ∀ pes ∈ pesPackets pid out, pesLength pes ≠ 0
  demuxed : demuxByLength pid out = demux pid out

/-- The length of the unit fits the field, or may be left open. -/
def Push.LengthFits : Push → Prop
  | .video .. => True
  | .audio adts _ => 8 + adts.length ≤ 0xFFFF

theorem carried_fits {calls : List Push} (hfits : ∀ c ∈ calls, c.LengthFits) {which : Cc}
    (hw : which.isPsi = false) {pes : Bytes}
    (hpes : pes ∈ carriedOn which (calls.flatMap Push.segments)) : ∃ streamId pts payload,
      pes = buildPes streamId pts payload ∧ (8 + payload.length ≤ 0xFFFF ∨ which = .video) := by
  rw [carriedOn_calls hw, List.mem_map] at hpes
  obtain ⟨c, hc, rfl⟩ := hpes
  obtain ⟨hc, hstream⟩ := List.mem_filter.mp hc
  have hstream : c.stream = which := of_decide_eq_true hstream
  cases c with
  | video annexb pts keyframe => exact ⟨_, _, _, rfl, .inr hstream.symm⟩
  | audio adts pts => exact ⟨_, _, _, rfl, .inl (hfits _ hc)⟩

/-- Calls whose lengths fit: each packet is taken whole, by its length or as video. -/
theorem honest_of_fits {calls : List Push} {pss : List (List Bytes)}
    (h : Sends (calls.flatMap Push.segments) pss) (hfits : ∀ c ∈ calls, c.LengthFits) {which : Cc}
    (hw : which.isPsi = false) : LengthsHonest which.pid pss.flatten.flatten := by
  refine ⟨?_, ?_, ?_⟩
  · intro pes hmem
    rw [h.pesPackets] at hmem
    obtain ⟨streamId, pts, payload, rfl, hlen⟩ := carried_fits hfits hw hmem
    rw [pesLength_buildPes, List.length_drop, buildPes_length]
    split_ifs with hle
    · left
      omega
    · exact .inr ⟨rfl, congrArg Cc.pid (hlen.resolve_left hle)⟩
  · intro haudio pes hmem
    rw [h.pesPackets] at hmem
    obtain ⟨streamId, pts, payload, rfl, hlen⟩ := carried_fits hfits hw hmem
    have hwhich : which = .audio := Cc.pid_injective haudio
    rw [pesLength_buildPes, if_pos (hlen.resolve_right (by rw [hwhich]; decide))]
    omega
  · have hwhole : (carriedOn which (calls.flatMap Push.segments)).flatMap
        (given (pesSize which.pid)) = carriedOn which (calls.flatMap Push.segments) := by
      conv_rhs => rw [← List.flatMap_singleton' (carriedOn which (calls.flatMap Push.segments))]
      apply List.flatMap_congr
      intro pes hmem
      obtain ⟨streamId, pts, payload, rfl, hlen⟩ := carried_fits hfits hw hmem
      exact given_buildPes _ _ _ _ (hlen.imp_right (congrArg Cc.pid))
    rw [h.demuxByLength, hwhole, ← h.pesPackets]
    rfl

/-- The length of an audio packet is not 0, so its unit fits. -/
theorem fits_of_honest {calls : List Push} {pss : List (List Bytes)}
    (h : Sends (calls.flatMap Push.segments) pss)
    (haudio : LengthsHonest PID_AUDIO pss.flatten.flatten) : ∀ c ∈ calls, c.LengthFits := by
  intro c hc
  cases c with
  | video annexb pts keyframe => trivial
  | audio adts pts =>
    have hmem : buildPes STREAM_ID_AUDIO pts adts ∈ pesPackets PID_AUDIO pss.flatten.flatten := by
      have hcarried := h.pesPackets .audio
      rw [carriedOn_calls rfl] at hcarried
      rw [show PID_AUDIO = Cc.audio.pid by rfl, hcarried, List.mem_map]
      exact ⟨_, List.mem_filter.mpr ⟨hc, decide_eq_true rfl⟩, rfl⟩
    have hlen := haudio.audio rfl _ hmem
    rw [pesLength_buildPes] at hlen
    by_contra hfits
    exact hlen (if_neg hfits)

theorem honest_iff_fits {calls : List Push} {pss : List (List Bytes)}
    (h : Sends (calls.flatMap Push.segments) pss) :
    LengthsHonest PID_VIDEO pss.flatten.flatten ∧ LengthsHonest PID_AUDIO pss.flatten.flatten ↔
      ∀ c ∈ calls, c.LengthFits := by
  constructor
  · rintro ⟨-, haudio⟩
    exact fits_of_honest h haudio
  · intro hfits
    have hboth : ∀ which : Cc, which.isPsi = false →
        LengthsHonest which.pid pss.flatten.flatten := fun _ => honest_of_fits h hfits
    exact ⟨hboth .video rfl, hboth .audio rfl⟩

/-- In every run the lengths that a call writes are honest exactly when its unit is video
or fits, and those of the whole stream when all units are. -/
theorem pes_lengths_honest_iff (calls : List Push) :
    let outs := (MpegTsMuxer.run .new calls).1
    List.Forall₂ (fun c out =>
        LengthsHonest PID_VIDEO out ∧ LengthsHonest PID_AUDIO out ↔ c.LengthFits) calls outs ∧
      (LengthsHonest PID_VIDEO outs.flatten ∧ LengthsHonest PID_AUDIO outs.flatten ↔
        ∀ c ∈ calls, c.LengthFits) := by
  obtain ⟨pss, n, hemits, -, hout⟩ := run_emits counts_new calls
  refine ⟨(run_each counts_new calls).imp ?_, ?_⟩
  · rintro c out ⟨n, pss, n', hemits, rfl⟩
    have hsends : Sends ([c].flatMap Push.segments) pss := by
      rw [List.flatMap_singleton]
      exact hemits.sends
    rw [honest_iff_fits hsends, List.forall_mem_singleton]
  · rw [hout]
    exact honest_iff_fits hemits.sends

/-- A receiver that counts loses every audio unit that does not fit. -/
theorem audio_too_long (pts : UInt64) {adts : Bytes} (h : ¬ 8 + adts.length ≤ 0xFFFF) :
    let out := (MpegTsMuxer.new.push (.audio adts pts)).1
    pesPackets PID_AUDIO out = [buildPes STREAM_ID_AUDIO pts adts] ∧
      pesLength (buildPes STREAM_ID_AUDIO pts adts) = 0 ∧
      demuxByLength PID_AUDIO out = [] ∧ demux PID_AUDIO out = [⟨adts, clock33 pts⟩] ∧
      ¬ LengthsHonest PID_AUDIO out := by
  intro out
  obtain ⟨pss, n, hemits, -, hout⟩ := push_emits counts_new (.audio adts pts)
  have hpackets : pesPackets PID_AUDIO out = [buildPes STREAM_ID_AUDIO pts adts] := by
    have hsent := hemits.sends.pesPackets .audio
    rwa [← hout] at hsent
  have hzero : pesLength (buildPes STREAM_ID_AUDIO pts adts) = 0 := by
    rw [pesLength_buildPes, if_neg h]
  have hcounting : demuxByLength PID_AUDIO out =
      ([buildPes STREAM_ID_AUDIO pts adts].flatMap (given (pesSize PID_AUDIO))).filterMap
        parsePes := by
    have hsent := hemits.sends.demuxByLength .audio
    rwa [← hout] at hsent
  have hwaiting : demux PID_AUDIO out = [⟨adts, clock33 pts⟩] := by
    change (pesPackets PID_AUDIO out).filterMap parsePes = _
    rw [hpackets, List.filterMap_cons_some (parsePes_buildPes STREAM_ID_AUDIO pts adts)]
    rfl
  rw [List.flatMap_singleton, given_audio_too_long pts h] at hcounting
  refine ⟨hpackets, hzero, hcounting.trans (by decide), hwaiting, fun hhonest => ?_⟩
  exact hhonest.audio rfl _ (by rw [hpackets]; exact List.mem_cons_self) hzero

/-- The shortest audio unit that does not fit. -/
theorem audio_length_lost :
    let adts := List.replicate 65528 (0 : UInt8)
    let out := (MpegTsMuxer.new.push (.audio adts 0)).1
    pesPackets PID_AUDIO out = [buildPes STREAM_ID_AUDIO 0 adts] ∧
      pesLength (buildPes STREAM_ID_AUDIO 0 adts) = 0 ∧
      demuxByLength PID_AUDIO out = [] ∧ demux PID_AUDIO out = [⟨adts, clock33 0⟩] ∧
      ¬ LengthsHonest PID_AUDIO out := by
  have hlong : ¬ 8 + (List.replicate 65528 (0 : UInt8)).length ≤ 0xFFFF := by
    rw [List.length_replicate]
    decide
  exact audio_too_long 0 hlong

end HorizonCast
