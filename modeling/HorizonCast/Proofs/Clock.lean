import HorizonCast.Lib.Collections
import HorizonCast.Proofs.RoundTrip
import HorizonCast.Spec.Clock

/-! Capture time becomes stream time without drift: the clock floors to ticks of
90 kHz, and a receiver reads that number, less the bits above 33, both as the PTS
and as the PCR of each video access unit. -/

namespace HorizonCast

open Collections Reassembly

/-! ### The clock -/

theorem u64TryFromOrMax_toNat (n : ℕ) : (u64TryFromOrMax n).toNat = min n (2 ^ 64 - 1) :=
  UInt64.toNat_ofNat_of_lt' (by change min n (2 ^ 64 - 1) < 2 ^ 64; omega)

/-- No duration is long enough for the product to wrap. -/
theorem u128Mul_asNanos (t : Duration) : u128Mul t.asNanos 9 = t.asNanos * 9 := by
  have := t.bounded
  exact Nat.mod_eq_of_lt (by omega)

/-- Nine ticks for every 100 microseconds are 90000 for every second. -/
theorem ticks_eq (n : ℕ) : n * 9 / 100000 = 90000 * n / 10 ^ 9 := by
  omega

theorem pts_anchored (self : PtsClock) (t : Duration) {base : Duration}
    (h : self.base.getD t = base) :
    (self.pts t).1.toNat = base.ticksSince t ∧ (self.pts t).2.base = some base := by
  refine ⟨?_, congrArg some h⟩
  simp only [PtsClock.pts, h]
  rw [u64TryFromOrMax_toNat, u128Mul_asNanos, ticks_eq]
  rfl

theorem run_anchored {self : PtsClock} {base : Duration} (h : self.base = some base)
    (ts : List Duration) :
    (self.run ts).1.map UInt64.toNat = ts.map base.ticksSince := by
  induction ts generalizing self with
  | nil => rfl
  | cons t ts ih =>
    have hanchor : self.base.getD t = base := by rw [h, Option.getD_some]
    obtain ⟨hpts, hbase⟩ := pts_anchored self t hanchor
    simp only [PtsClock.run, List.map_cons, hpts, ih hbase]

/-- A fresh clock gives each sample its stream time. -/
theorem run_streamTime (times : List Duration) :
    (PtsClock.new.run times).1.map UInt64.toNat = times.map (streamTime times) := by
  cases times with
  | nil => rfl
  | cons base ts =>
    obtain ⟨hpts, hbase⟩ := pts_anchored .new base rfl
    simp only [PtsClock.run, List.map_cons, hpts, run_anchored hbase]
    rfl

theorem streamTime_mono (times : List Duration) {a b : Duration} (h : a ≤ b) :
    streamTime times a ≤ streamTime times b := by
  have hnanos : a.asNanos ≤ b.asNanos := h
  unfold streamTime
  cases times.head? with
  | none => exact le_rfl
  | some base => exact min_le_min_right _ (Nat.div_le_div_right (by omega))

/-! ### The clock reference of a packet -/

/-- The low bit under seven reserved ones. -/
theorem pcr_low (b : UInt8) : b.toNat < 2 →
    ((b <<< 7 ||| 0x7E) >>> 7).toNat = b.toNat ∧ ((b <<< 7 ||| 0x7E) &&& 0x01).toNat = 0 :=
  byte_forall (p := fun b => b.toNat < 2 →
    ((b <<< 7 ||| 0x7E) >>> 7).toNat = b.toNat ∧ ((b <<< 7 ||| 0x7E) &&& 0x01).toNat = 0)
    (by decide +kernel) b

/-- The six bytes give back the low 33 bits, with no extension. -/
theorem decodePcr_encode (base : UInt64) (b : Bytes) :
    decodePcr (encodePcr base ++ b) = (clock33 base, 0) := by
  have h25 : ((base >>> 25) &&& 0xFF).toUInt8.toNat = base.toNat / 2 ^ 25 % 2 ^ 8 :=
    (low_toNat _ 8 (by decide)).trans (by rw [← shiftRight_toNat base 25 (by decide)]; rfl)
  have h17 : ((base >>> 17) &&& 0xFF).toUInt8.toNat = base.toNat / 2 ^ 17 % 2 ^ 8 :=
    (low_toNat _ 8 (by decide)).trans (by rw [← shiftRight_toNat base 17 (by decide)]; rfl)
  have h9 : ((base >>> 9) &&& 0xFF).toUInt8.toNat = base.toNat / 2 ^ 9 % 2 ^ 8 :=
    (low_toNat _ 8 (by decide)).trans (by rw [← shiftRight_toNat base 9 (by decide)]; rfl)
  have h1 : ((base >>> 1) &&& 0xFF).toUInt8.toNat = base.toNat / 2 ^ 1 % 2 ^ 8 :=
    (low_toNat _ 8 (by decide)).trans (by rw [← shiftRight_toNat base 1 (by decide)]; rfl)
  have h0 : (base &&& 0x1).toUInt8.toNat = base.toNat % 2 ^ 1 := low_toNat base 1 (by decide)
  obtain ⟨hbit, hext⟩ := pcr_low (base &&& 0x1).toUInt8 (by omega)
  change (((base >>> 25) &&& 0xFF).toUInt8.toNat * 2 ^ 25 +
      ((base >>> 17) &&& 0xFF).toUInt8.toNat * 2 ^ 17 +
      ((base >>> 9) &&& 0xFF).toUInt8.toNat * 2 ^ 9 + ((base >>> 1) &&& 0xFF).toUInt8.toNat * 2 +
      (((base &&& 0x1).toUInt8 <<< 7 ||| 0x7E) >>> 7).toNat,
    (((base &&& 0x1).toUInt8 <<< 7 ||| 0x7E) &&& 0x01).toNat * 2 ^ 8 + 0) = _
  rw [hbit, hext, h25, h17, h9, h1, h0, clock33]
  refine Prod.ext ?_ rfl
  dsimp only
  omega

theorem packetPcr_header (pid : UInt16) (pusi : Bool) (cc : UInt8) (b : Bytes) :
    packetPcr (tsHeader pid pusi 0b01 cc ++ b) = none := by
  have hafc : packetAfc (tsHeader pid pusi 0b01 cc ++ b) = 0b01 := (afc_cc_byte (.inl rfl) cc).1
  rw [packetPcr, hafc, if_neg (fun h => h.1 (by decide))]

theorem packetPcr_adaptation (pid : UInt16) (pusi : Bool) (cc afLen flags : UInt8)
    (clock stuffing data : Bytes) :
    packetPcr (tsHeader pid pusi 0b11 cc ++ [afLen] ++ [flags] ++ clock ++ stuffing ++ data) =
      if 7 ≤ afLen.toNat ∧ flags &&& 0x10 ≠ 0 then some (decodePcr (clock ++ (stuffing ++ data)))
      else none := by
  simp only [List.append_assoc]
  have hafc : packetAfc (tsHeader pid pusi 0b11 cc ++
      ([afLen] ++ ([flags] ++ (clock ++ (stuffing ++ data))))) = 0b11 :=
    (afc_cc_byte (.inr rfl) cc).1
  rw [packetPcr, hafc]
  by_cases h : 7 ≤ afLen.toNat ∧ flags &&& 0x10 ≠ 0
  · rw [if_pos h, if_pos ⟨by decide, h⟩]
    rfl
  · rw [if_neg h]
    exact if_neg fun h' => h h'.2

/-- The first packet of a payload has the clock reference, if there is one to send. -/
theorem payloadPacket_pcr (pid : UInt16) (first : Bool) (cc : UInt8) (pcr : Option UInt64)
    (rest : Bytes) :
    packetPcr (payloadPacket pid first cc pcr rest).1 =
      if first then pcr.map fun base => (clock33 base, 0) else none := by
  unfold payloadPacket
  dsimp only
  by_cases hneed : (first && pcr.isSome) = true
  · obtain ⟨rfl, hsome⟩ := Bool.and_eq_true_iff.mp hneed
    obtain ⟨base, rfl⟩ := Option.isSome_iff_exists.mp hsome
    have hlen : (UInt8.ofNat (183 - min rest.length 176)).toNat = 183 - min rest.length 176 :=
      UInt8.toNat_ofNat_of_lt' (by change _ < 256; omega)
    rw [if_neg (by simp), packetPcr_adaptation, if_pos hneed, if_pos hneed, if_pos hneed]
    rw [if_pos ⟨by change 7 ≤ (UInt8.ofNat (183 - min rest.length 176)).toNat; omega, by decide⟩]
    exact congrArg some (decodePcr_encode base _)
  · have hnone : (if first then pcr.map fun base => (clock33 base, 0) else none) = none := by
      cases first <;> cases pcr <;> simp_all
    rw [hnone]
    split_ifs with hfull
    · exact packetPcr_header _ _ _ _
    · rw [packetPcr_adaptation, if_neg (fun h => h.2 (by decide))]

/-! ### The clock reference of an access unit -/

/-- After its first turn the loop sends no clock reference. -/
theorem writeLoop_pcr (pid : UInt16) (kind : Cc) (pcr : Option UInt64) (fuel : ℕ) :
    ∀ (m : MpegTsMuxer) (rest : Bytes),
      ∀ pkt ∈ (MpegTsMuxer.writeLoop pid kind pcr fuel m false rest).1, packetPcr pkt = none := by
  induction fuel with
  | zero => exact fun m rest pkt hpkt => absurd hpkt List.not_mem_nil
  | succ fuel ih =>
    intro m rest pkt hpkt
    by_cases hrest : rest = []
    · simp [MpegTsMuxer.writeLoop, hrest] at hpkt
    · simp only [MpegTsMuxer.writeLoop, if_neg hrest] at hpkt
      rcases List.mem_cons.mp hpkt with rfl | hpkt
      · exact payloadPacket_pcr pid false _ pcr rest
      · exact ih _ _ pkt hpkt

/-- Of the packets of a payload the first has the clock reference. -/
theorem writePackets_pcr (m : MpegTsMuxer) (pid : UInt16) (kind : Cc) {payload : Bytes}
    (hp : payload ≠ []) (pcr : Option UInt64) :
    ∃ first rest, (m.writePackets pid kind payload pcr).1 = first :: rest ∧
      packetPcr first = (pcr.map fun base => (clock33 base, 0)) ∧
      ∀ pkt ∈ rest, packetPcr pkt = none := by
  obtain ⟨fuel, hfuel⟩ : ∃ fuel, payload.length = fuel + 1 :=
    Nat.exists_eq_succ_of_ne_zero (by simpa using hp)
  simp only [MpegTsMuxer.writePackets, hfuel, MpegTsMuxer.writeLoop, if_neg hp]
  exact ⟨_, _, rfl, payloadPacket_pcr pid true _ pcr payload, writeLoop_pcr pid kind pcr fuel _ _⟩

theorem psiPacket_pcr (m : MpegTsMuxer) (pid : UInt16) (sect : Bytes) (which : Cc) :
    packetPcr (m.psiPacket pid sect which).1 = none := by
  simp only [MpegTsMuxer.psiPacket, List.append_assoc]
  exact packetPcr_header ..

/-- A packet of the program tables: on another PID, with no clock reference. -/
def IsTable (pkt : Bytes) : Prop :=
  pkt.length = TS_PACKET_LEN ∧ packetPid pkt ≠ PID_VIDEO ∧ packetPcr pkt = none

theorem psiPacket_isTable {m : MpegTsMuxer} {n : Cc → ℕ} (hm : Counts m n) (which : Cc)
    (hwhich : which.isPsi = true) (sect : Bytes) (hs : sect.length ≤ 183) :
    IsTable (m.psiPacket which.pid sect which).1 := by
  obtain ⟨hlen, -, hpid⟩ := (psiPacket_segment hm which sect hs).1.whole
    (m.psiPacket which.pid sect which).1 (by simp)
  refine ⟨hlen, ?_, psiPacket_pcr ..⟩
  rw [hpid]
  cases which <;> first | decide | cases hwhich

/-- The packets of a video call: the tables if it is a keyframe, then a segment
whose first packet has the clock reference. -/
theorem video_packets {m : MpegTsMuxer} {n : Cc → ℕ} (hm : Counts m n) (annexb : Bytes)
    (pts : UInt64) (keyframe : Bool) :
    ∃ psi first rest, (m.push (.video annexb pts keyframe)).1 = (psi ++ first :: rest).flatten ∧
      (∀ pkt ∈ psi, IsTable pkt) ∧
      (∃ cc, Segment .video cc (buildPes STREAM_ID_VIDEO pts annexb) (first :: rest)) ∧
      packetPcr first = some (clock33 pts, 0) ∧ ∀ pkt ∈ rest, packetPcr pkt = none := by
  have hdelta : ∀ (m : MpegTsMuxer) (n : Cc → ℕ), Counts m n →
      ∃ first rest, (m.push (.video annexb pts false)).1 = (first :: rest).flatten ∧
        (∃ cc, Segment .video cc (buildPes STREAM_ID_VIDEO pts annexb) (first :: rest)) ∧
        packetPcr first = some (clock33 pts, 0) ∧ ∀ pkt ∈ rest, packetPcr pkt = none := by
    intro m n hm
    have hne := buildPes_ne_nil STREAM_ID_VIDEO pts annexb
    obtain ⟨first, rest, hpkts, hfirst, hrest⟩ :=
      writePackets_pcr m Cc.video.pid .video hne (some pts)
    have hseg := (writePackets_segment hm .video rfl hne (some pts)).1
    rw [hpkts] at hseg
    refine ⟨first, rest, ?_, ⟨_, hseg⟩, hfirst, hrest⟩
    rw [push_delta, MpegTsMuxer.writePayload]
    simp only [hpkts]
  cases keyframe with
  | false =>
    obtain ⟨first, rest, hout, hpcr⟩ := hdelta m n hm
    exact ⟨[], first, rest, hout, by simp, hpcr⟩
  | true =>
    obtain ⟨-, hm₁⟩ := psiPacket_segment hm .pat patSection (by decide +kernel)
    have hpat := psiPacket_isTable hm .pat rfl patSection (by decide +kernel)
    obtain ⟨-, hm₂⟩ := psiPacket_segment hm₁ .pmt pmtSection (by decide +kernel)
    have hpmt := psiPacket_isTable hm₁ .pmt rfl pmtSection (by decide +kernel)
    obtain ⟨first, rest, hout, hpcr⟩ := hdelta _ _ hm₂
    rw [push_keyframe]
    set pat := m.psiPacket Cc.pat.pid patSection .pat
    set pmt := pat.2.psiPacket Cc.pmt.pid pmtSection .pmt
    refine ⟨[pat.1, pmt.1], first, rest, ?_, ?_, hpcr⟩
    · simp only [hout, List.cons_append, List.nil_append, List.flatten_cons, List.append_assoc]
    · intro pkt hpkt
      rcases List.mem_pair.mp hpkt with rfl | rfl
      · exact hpat
      · exact hpmt

theorem demux_push {m : MpegTsMuxer} {n : Cc → ℕ} (hm : Counts m n) (c : Push) :
    demux PID_VIDEO (m.push c).1 = unitsOn .video clock33 [c] := by
  obtain ⟨pss, n', hemits, -, hout⟩ := push_emits hm c
  rw [hout, demux, hemits.sends.blocks]
  exact (demuxPackets_sends hemits.sends .video).trans (push_carried rfl c)

theorem video_unitAt {m : MpegTsMuxer} {n : Cc → ℕ} (hm : Counts m n) (annexb : Bytes)
    (pts : UInt64) (keyframe : Bool) :
    UnitAt (clock33 pts) (m.push (.video annexb pts keyframe)).1 ∧
      OnlyVideoPcr (m.push (.video annexb pts keyframe)).1 := by
  obtain ⟨psi, first, rest, hout, hpsi, ⟨cc, hseg⟩, hfirst, hrest⟩ :=
    video_packets hm annexb pts keyframe
  have hblocks : blocks TS_PACKET_LEN (m.push (.video annexb pts keyframe)).1 =
      psi ++ first :: rest := by
    rw [hout]
    refine blocks_flatten (by decide) fun pkt hpkt => ?_
    rcases List.mem_append.mp hpkt with hpkt | hpkt
    · exact (hpsi pkt hpkt).1
    · exact (hseg.whole pkt hpkt).1
  have hvideo : packetsOn PID_VIDEO (psi ++ first :: rest) = first :: rest := by
    have htables : packetsOn PID_VIDEO psi = [] :=
      List.filter_eq_nil_iff.mpr fun pkt hpkt => by simpa using (hpsi pkt hpkt).2.1
    rw [packetsOn_append, htables, List.nil_append]
    exact (hseg.packetsOn .video).trans (if_pos rfl)
  obtain ⟨k, hstarts⟩ := hseg.starts
  rw [List.map_cons, List.cons.injEq] at hstarts
  refine ⟨⟨?_, first, rest, by rw [hblocks, hvideo], hstarts.1, hfirst, hrest⟩, ?_⟩
  · rw [demux_push hm]
    rfl
  · intro pkt hpkt hne
    rw [hblocks] at hpkt
    rcases List.mem_append.mp hpkt with hpkt | hpkt
    · exact (hpsi pkt hpkt).2.2
    · exact absurd (hseg.whole pkt hpkt).2.2 hne

theorem audio_onlyVideoPcr {m : MpegTsMuxer} {n : Cc → ℕ} (hm : Counts m n) (adts : Bytes)
    (pts : UInt64) : OnlyVideoPcr (m.push (.audio adts pts)).1 := by
  have hne := buildPes_ne_nil STREAM_ID_AUDIO pts adts
  obtain ⟨first, rest, hpkts, hfirst, hrest⟩ :=
    writePackets_pcr m Cc.audio.pid .audio hne none
  have hseg := (writePackets_segment hm .audio rfl hne none).1
  rw [hpkts] at hseg
  have hblocks : blocks TS_PACKET_LEN (m.push (.audio adts pts)).1 = first :: rest := by
    have hpush : m.push (.audio adts pts) =
        m.writePayload Cc.audio.pid .audio (buildPes STREAM_ID_AUDIO pts adts) none := rfl
    rw [hpush, MpegTsMuxer.writePayload]
    simp only [hpkts]
    exact blocks_flatten (by decide) fun pkt hpkt => (hseg.whole pkt hpkt).1
  intro pkt hpkt _
  rw [hblocks] at hpkt
  rcases List.mem_cons.mp hpkt with rfl | hpkt
  · exact hfirst
  · exact hrest pkt hpkt

/-! ### Runs -/

/-- What a call sends when its times are read by `clock33`. -/
def Timed (c : Push) (out : Bytes) : Prop :=
  OnlyVideoPcr out ∧ ∀ pts, c.videoPts = some pts → UnitAt (clock33 pts) out

theorem push_timed {m : MpegTsMuxer} {n : Cc → ℕ} (hm : Counts m n) (c : Push) :
    Timed c (m.push c).1 := by
  cases c with
  | audio adts pts => exact ⟨audio_onlyVideoPcr hm adts pts, nofun⟩
  | video annexb pts keyframe =>
    obtain ⟨hunit, honly⟩ := video_unitAt hm annexb pts keyframe
    refine ⟨honly, fun pts' h => ?_⟩
    cases h
    exact hunit

theorem run_timed {m : MpegTsMuxer} {n : Cc → ℕ} (hm : Counts m n) (calls : List Push) :
    List.Forall₂ Timed calls (m.run calls).1 := by
  induction calls generalizing m n with
  | nil => exact .nil
  | cons c calls ih =>
    obtain ⟨-, n₁, -, hm₁, -⟩ := push_emits hm c
    exact .cons (push_timed hm c) (ih hm₁)

theorem videoUnits_timed {calls : List Push} {outs : List Bytes}
    (h : List.Forall₂ Timed calls outs) :
    List.Forall₂ (fun pts unit => UnitAt (clock33 pts) unit) (calls.filterMap Push.videoPts)
      (videoUnits calls outs) := by
  induction h with
  | nil => exact .nil
  | @cons c out calls outs hc _ ih =>
    cases hpts : c.videoPts with
    | none => simpa [videoUnits, hpts] using ih
    | some pts => simpa [videoUnits, hpts] using ⟨hc.2 pts hpts, ih⟩

theorem unitsOn_video_pts (calls : List Push) :
    (unitsOn .video clock33 calls).map AccessUnit.pts =
      (calls.filterMap Push.videoPts).map clock33 := by
  induction calls with
  | nil => rfl
  | cons c calls ih =>
    rw [unitsOn_cons, List.map_append, ih]
    cases c <;> rfl

/-- For every sequence of capture times, each pushed as a video access unit with any
audio in between: a receiver reads the stream time of the i-th of them, less the bits
above 33, as the PTS and as the one PCR of the i-th access unit; no other packet has
a PCR; and the clock never goes back when the capture times do not. -/
theorem capture_time_is_stream_time (times : List Duration) (calls : List Push)
    (pushed : calls.filterMap Push.videoPts = (PtsClock.new.run times).1) :
    let outs := (MpegTsMuxer.run .new calls).1
    List.Forall₂ (fun t unit => UnitAt (streamTime times t % 2 ^ 33) unit) times
        (videoUnits calls outs) ∧
      (demux PID_VIDEO outs.flatten).map AccessUnit.pts =
        times.map (fun t => streamTime times t % 2 ^ 33) ∧
      (∀ out ∈ outs, OnlyVideoPcr out) ∧
      (times.Pairwise (· ≤ ·) → (PtsClock.new.run times).1.Pairwise (· ≤ ·)) := by
  intro outs
  have htimes := run_streamTime times
  have htimed := run_timed counts_new calls
  refine ⟨?_, ?_, fun out hout => ?_, fun hsorted => ?_⟩
  · have hunits := videoUnits_timed htimed
    rw [pushed] at hunits
    have hnat : List.Forall₂ (fun n unit => UnitAt (n % 2 ^ 33) unit)
        ((PtsClock.new.run times).1.map UInt64.toNat) (videoUnits calls outs) :=
      List.forall₂_map_left_iff.mpr hunits
    rw [htimes] at hnat
    exact (List.forall₂_map_left_iff (f := streamTime times)).mp hnat
  · obtain ⟨-, -, hvideo, -⟩ := demux_run calls
    rw [hvideo, unitsOn_video_pts, pushed]
    have hmod := congrArg (List.map fun n => n % 2 ^ 33) htimes
    rwa [List.map_map, List.map_map] at hmod
  · obtain ⟨c, -, hc⟩ := exists_left_of_forall₂ htimed hout
    exact hc.1
  · have hnat : ((PtsClock.new.run times).1.map UInt64.toNat).Pairwise (· ≤ ·) := by
      rw [htimes]
      exact List.pairwise_map.mpr (hsorted.imp fun h => streamTime_mono times h)
    exact (List.pairwise_map.mp hnat).imp fun h => UInt64.le_iff_toNat_le.mpr h

/-- Captured at five seconds and one second later, with audio in between. -/
theorem capture_time_is_stream_time_one_second :
    (demux PID_VIDEO (MpegTsMuxer.run .new
      [.video [1] 0 true, .audio [2] 7, .video [3] 90000 false]).1.flatten).map AccessUnit.pts =
      [0, 90000] :=
  (capture_time_is_stream_time
    [⟨5 * 10 ^ 9, by decide⟩, ⟨6 * 10 ^ 9, by decide⟩]
    [.video [1] 0 true, .audio [2] 7, .video [3] 90000 false] (by decide)).2.1.trans (by decide)

end HorizonCast
