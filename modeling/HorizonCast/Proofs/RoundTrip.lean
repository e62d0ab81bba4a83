import HorizonCast.Proofs.Segments

/-! Demuxing undoes muxing. The PES packets of a stream are read back from its
segments, and each of them gives the access unit it was built from. -/

namespace HorizonCast

open Reassembly

/-- A PES packet holds its payload and the low 33 bits of its time. -/
theorem parsePes_buildPes (streamId : UInt8) (pts : UInt64) (payload : Bytes) :
    parsePes (buildPes streamId pts payload) = some ⟨payload, clock33 pts⟩ := by
  have hcode : (buildPes streamId pts payload).take 3 = [0x00, 0x00, 0x01] := rfl
  have hflag : byteAt (buildPes streamId pts payload) 7 = 0x80 := rfl
  have hlen : byteAt (buildPes streamId pts payload) 8 = 0x05 := rfl
  have htime : (buildPes streamId pts payload).drop 9 = encodeTimestamp 0b0010 pts ++ payload := rfl
  have hdata : (buildPes streamId pts payload).drop (9 + 5) = payload := rfl
  rw [parsePes, hcode, hflag, if_pos ⟨rfl, by decide⟩, hlen, htime, decodeTimestamp_encode]
  exact congrArg (fun data => some (AccessUnit.mk data (clock33 pts))) hdata

theorem unitsOn_cons (which : Cc) (time : UInt64 → ℕ) (c : Push) (calls : List Push) :
    unitsOn which time (c :: calls) = unitsOn which time [c] ++ unitsOn which time calls := by
  unfold unitsOn
  rw [← List.map_append, ← List.filter_append]
  rfl

theorem carriedOn_append (which : Cc) (us vs : List (Cc × Bytes)) :
    carriedOn which (us ++ vs) = carriedOn which us ++ carriedOn which vs :=
  List.filterMap_append

/-- The PES packet of a call. -/
def Push.pes : Push → Bytes
  | .video annexb pts _ => buildPes STREAM_ID_VIDEO pts annexb
  | .audio adts pts => buildPes STREAM_ID_AUDIO pts adts

theorem parsePes_pes (c : Push) : parsePes c.pes = some (c.unit clock33) := by
  cases c <;> exact parsePes_buildPes ..

/-- On an elementary stream the calls on it carry their PES packets. -/
theorem carriedOn_calls {which : Cc} (hw : which.isPsi = false) (calls : List Push) :
    carriedOn which (calls.flatMap Push.segments) =
      (calls.filter fun c => c.stream = which).map Push.pes := by
  have hone : ∀ c : Push, carriedOn which c.segments =
      ([c].filter fun c => c.stream = which).map Push.pes := by
    intro c
    cases c with
    | audio adts pts =>
      cases which <;> simp_all [Cc.isPsi, Push.segments, carriedOn, Push.stream, Push.pes]
    | video annexb pts keyframe =>
      cases which <;> cases keyframe <;>
        simp_all [Cc.isPsi, Push.segments, carriedOn, Push.stream, Push.pes]
  induction calls with
  | nil => rfl
  | cons c calls ih =>
    rw [List.flatMap_cons, carriedOn_append, ih, hone, ← List.map_append, ← List.filter_append]
    rfl

theorem run_carried {which : Cc} (hw : which.isPsi = false) (calls : List Push) :
    (carriedOn which (calls.flatMap Push.segments)).filterMap parsePes =
      unitsOn which clock33 calls := by
  rw [carriedOn_calls hw, List.filterMap_map, unitsOn, ← List.filterMap_eq_map]
  apply List.filterMap_congr
  intro c _
  exact parsePes_pes c

/-- On an elementary stream a call carries its own access unit. -/
theorem push_carried {which : Cc} (hw : which.isPsi = false) (c : Push) :
    (carriedOn which c.segments).filterMap parsePes = unitsOn which clock33 [c] := by
  rw [← run_carried hw, List.flatMap_singleton]

theorem demuxPackets_sends {us : List (Cc × Bytes)} {pss : List (List Bytes)} (h : Sends us pss)
    (which : Cc) :
    demuxPackets which.pid pss.flatten = (carriedOn which us).filterMap parsePes := by
  rw [demuxPackets, h.reassemble]

/-- The demuxer gets back what each call pushed, on each of the two streams. -/
theorem demux_run (calls : List Push) :
    let out := (MpegTsMuxer.run .new calls).1.flatten
    TS_PACKET_LEN ∣ out.length ∧
      (∀ pkt ∈ blocks TS_PACKET_LEN out, byteAt pkt 0 = SYNC_BYTE) ∧
      demux PID_VIDEO out = unitsOn .video clock33 calls ∧
      demux PID_AUDIO out = unitsOn .audio clock33 calls := by
  obtain ⟨pss, n, hemits, -, hout⟩ := run_emits counts_new calls
  have hsends := hemits.sends
  simp only [hout]
  refine ⟨dvd_length_flatten fun pkt hpkt => (hsends.whole pkt hpkt).1, ?_, ?_, ?_⟩
  · rw [hsends.blocks]
    exact fun pkt hpkt => (hsends.whole pkt hpkt).2
  · rw [demux, hsends.blocks]
    exact (demuxPackets_sends hsends .video).trans (run_carried rfl calls)
  · rw [demux, hsends.blocks]
    exact (demuxPackets_sends hsends .audio).trans (run_carried rfl calls)

end HorizonCast
