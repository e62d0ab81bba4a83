import HorizonCast.Proofs.Fields
import Mathlib.Logic.Function.Basic
import Mathlib.Algebra.Order.Group.Nat

/-! The output of the muxer as a list of segments: the packets of one PSI
section or one PES packet, on one PID. Every later result about the stream is
read off `push_emits`. -/

namespace HorizonCast

open Reassembly

/-- What one packet shows a receiver. -/
structure PacketOf (which : Cc) (start : Bool) (cc : ℕ) (data pkt : Bytes) : Prop where
  length : pkt.length = TS_PACKET_LEN
  sync : byteAt pkt 0 = SYNC_BYTE
  pid : packetPid pkt = which.pid
  pusi : packetPusi pkt = start
  cc : packetCc pkt = cc % 16
  payload : packetPayload pkt = data

/-! ### Single packets -/

theorem encodePcr_length (base : UInt64) : (encodePcr base).length = 6 := rfl

theorem fullPacket_spec (which : Cc) (first : Bool) (cc : UInt8) {rest : Bytes}
    (h : 184 ≤ rest.length) :
    PacketOf which first cc.toNat (rest.take 184)
      (tsHeader which.pid first 0b01 cc ++ rest.take 184) where
  length := by simp [TS_PACKET_LEN]; omega
  sync := rfl
  pid := tsHeader_pid ..
  pusi := tsHeader_pusi ..
  cc := tsHeader_cc _ _ _ _ _ (.inl rfl)
  payload := payload_of_header ..

/-- `afLen` counts the flags, the clock and the stuffing, whatever their shares. -/
theorem adaptationPacket_spec (which : Cc) (first : Bool) (cc flags : UInt8) (clock data : Bytes)
    (h : clock.length + data.length ≤ 182) :
    let front :=
      tsHeader which.pid first 0b11 cc ++ [UInt8.ofNat (183 - data.length)] ++ [flags] ++ clock
    PacketOf which first cc.toNat data
      (front ++ List.replicate (TS_PACKET_LEN - data.length - front.length) 0xFF ++ data) := by
  intro front
  have hfront : front.length = 6 + clock.length := by
    simp only [front, List.length_append, tsHeader_length, List.length_singleton]
  have hpkt : front ++ List.replicate (TS_PACKET_LEN - data.length - front.length) 0xFF ++ data =
      tsHeader which.pid first 0b11 cc ++ [UInt8.ofNat (183 - data.length)] ++
        ([flags] ++ clock ++ List.replicate (182 - data.length - clock.length) 0xFF) ++ data := by
    have hstuff :
        TS_PACKET_LEN - data.length - front.length = 182 - data.length - clock.length := by
      rw [hfront, TS_PACKET_LEN]; omega
    rw [hstuff]
    simp only [front, List.append_assoc]
  have haf : (UInt8.ofNat (183 - data.length)).toNat = 183 - data.length :=
    UInt8.toNat_ofNat_of_lt' (by change _ < 256; omega)
  rw [hpkt]
  refine ⟨?_, rfl, ?_, ?_, ?_, ?_⟩
  · simp only [List.length_append, tsHeader_length, List.length_singleton, List.length_replicate,
      TS_PACKET_LEN]
    omega
  · simp only [List.append_assoc]; exact tsHeader_pid ..
  · simp only [List.append_assoc]; exact tsHeader_pusi ..
  · simp only [List.append_assoc]; exact tsHeader_cc _ _ _ _ _ (.inr rfl)
  · apply payload_of_adaptation
    simp only [haf, List.length_append, List.length_singleton, List.length_replicate]
    omega

/-- A turn of the loop sends the next bytes of the payload, at least one of them. -/
theorem payloadPacket_spec (which : Cc) (first : Bool) (cc : UInt8) (pcr : Option UInt64)
    {rest : Bytes} (h : rest ≠ []) :
    let next := payloadPacket which.pid first cc pcr rest
    PacketOf which first cc.toNat (rest.take next.2) next.1 ∧ 0 < next.2 ∧
      next.2 ≤ rest.length := by
  have hpos : 0 < rest.length := List.length_pos_of_ne_nil h
  unfold payloadPacket
  dsimp only
  by_cases hfull : (!(first && pcr.isSome) && decide (184 ≤ rest.length)) = true
  · rw [if_pos hfull]
    simp only [Bool.and_eq_true, decide_eq_true_eq] at hfull
    exact ⟨fullPacket_spec which first cc hfull.2, Nat.succ_pos _, hfull.2⟩
  · rw [if_neg hfull]
    set take := min rest.length
      (TS_PACKET_LEN - 4 - 1 - 1 - if (first && pcr.isSome) = true then 6 else 0) with htake
    have hdata : (rest.take take).length = take := by
      rw [List.length_take]; exact min_eq_left (min_le_left _ _)
    have hclock : (if (first && pcr.isSome) = true then encodePcr (pcr.getD 0) else []).length +
        take ≤ 182 ∧ 0 < take := by
      rw [htake]
      split_ifs
      · simp only [encodePcr_length, TS_PACKET_LEN]; omega
      · simp only [List.length_nil, TS_PACKET_LEN]; omega
    refine ⟨?_, hclock.2, min_le_left _ _⟩
    have := adaptationPacket_spec which first cc
      (if (first && pcr.isSome) = true then 0x10 else 0x00)
      (if (first && pcr.isSome) = true then encodePcr (pcr.getD 0) else []) (rest.take take)
      (by rw [hdata]; exact hclock.1)
    simpa only [hdata] using this

/-! ### Counters -/

/-- The counters of `m` after `n which` packets on each PID. -/
def Counts (m : MpegTsMuxer) (n : Cc → ℕ) : Prop := ∀ which, (m.slot which).toNat = n which % 16

theorem counts_new : Counts .new fun _ => 0 := by
  intro which; cases which <;> rfl

theorem slot_setSlot (m : MpegTsMuxer) (which other : Cc) (v : UInt8) :
    (m.setSlot which v).slot other = if other = which then v else m.slot other := by
  cases which <;> cases other <;> rfl

theorem takeCc_cc {m : MpegTsMuxer} {n : Cc → ℕ} (h : Counts m n) (which : Cc) :
    (m.takeCc which).1.toNat = n which % 16 := by
  change (m.slot which &&& 0x0F).toNat = _
  rw [nibble_toNat, h which, Nat.mod_mod]

/-- Taking a counter moves that counter and no other. -/
theorem takeCc_counts {m : MpegTsMuxer} {n : Cc → ℕ} (h : Counts m n) (which : Cc) :
    Counts (m.takeCc which).2 (Function.update n which (n which + 1)) := by
  intro other
  change ((m.setSlot which ((m.slot which + 1) &&& 0x0F)).slot other).toNat = _
  rw [slot_setSlot, Function.update_apply]
  split_ifs with hother
  · rw [nibble_toNat, UInt8.toNat_add, h which]
    change (n which % 16 + 1) % 256 % 16 = _
    omega
  · exact h other

/-! ### Segments -/

/-- Whole packets on one PID, numbered from `cc`, whose payloads are `u`. -/
structure Numbered (which : Cc) (cc : ℕ) (u : Bytes) (pkts : List Bytes) : Prop where
  whole : ∀ pkt ∈ pkts,
    pkt.length = TS_PACKET_LEN ∧ byteAt pkt 0 = SYNC_BYTE ∧ packetPid pkt = which.pid
  ccs : pkts.map packetCc = (List.range' cc pkts.length).map (· % 16)
  data : pkts.flatMap packetPayload = u

/-- The PIDs that carry program tables. -/
def Cc.isPsi : Cc → Bool
  | .pat | .pmt => true
  | .video | .audio => false

/-- A segment starts with its first packet only; a program table is one packet. -/
structure Segment (which : Cc) (cc : ℕ) (u : Bytes) (pkts : List Bytes) : Prop
    extends Numbered which cc u pkts where
  starts : ∃ k, pkts.map packetPusi = true :: List.replicate k false
  psi : which.isPsi = true → pkts.length = 1

theorem Numbered.cons {which : Cc} {start : Bool} {cc : ℕ} {u v pkt : Bytes} {pkts : List Bytes}
    (h : PacketOf which start cc u pkt) (hs : Numbered which (cc + 1) v pkts) :
    Numbered which cc (u ++ v) (pkt :: pkts) where
  whole := by
    intro p hp
    rcases List.mem_cons.mp hp with rfl | hp
    · exact ⟨h.length, h.sync, h.pid⟩
    · exact hs.whole p hp
  ccs := by
    rw [List.length_cons, List.range'_succ, List.map_cons, List.map_cons, h.cc, hs.ccs]
  data := by rw [List.flatMap_cons, h.payload, hs.data]

theorem Numbered.nil (which : Cc) (cc : ℕ) : Numbered which cc [] [] :=
  ⟨by simp, rfl, rfl⟩

theorem update_add_succ (n : Cc → ℕ) (which : Cc) (k : ℕ) :
    Function.update (Function.update n which (n which + 1)) which
      (Function.update n which (n which + 1) which + k) =
    Function.update n which (n which + (k + 1)) := by
  rw [Function.update_idem, Function.update_self]
  congr 1
  omega

/-- After its first turn the loop sends continuations until the payload is out. -/
theorem writeLoop_rest (kind : Cc) (pcr : Option UInt64) (fuel : ℕ) :
    ∀ (m : MpegTsMuxer) (n : Cc → ℕ) (rest : Bytes), Counts m n → rest.length ≤ fuel →
      let sent := MpegTsMuxer.writeLoop kind.pid kind pcr fuel m false rest
      Numbered kind (n kind) rest sent.1 ∧
        sent.1.map packetPusi = List.replicate sent.1.length false ∧
        Counts sent.2 (Function.update n kind (n kind + sent.1.length)) := by
  induction fuel with
  | zero =>
    intro m n rest hm hlen
    obtain rfl := List.length_eq_zero_iff.mp (Nat.le_zero.mp hlen)
    exact ⟨Numbered.nil _ _, rfl, by simpa [MpegTsMuxer.writeLoop] using hm⟩
  | succ fuel ih =>
    intro m n rest hm hlen
    by_cases hrest : rest = []
    · subst hrest
      exact ⟨Numbered.nil _ _, rfl, by simpa [MpegTsMuxer.writeLoop] using hm⟩
    obtain ⟨hpkt, hpos, hle⟩ := payloadPacket_spec kind false (m.takeCc kind).1 pcr hrest
    have hcc := takeCc_cc hm kind
    simp only [MpegTsMuxer.writeLoop, if_neg hrest]
    set pkt := (payloadPacket kind.pid false (m.takeCc kind).1 pcr rest).1
    set take := (payloadPacket kind.pid false (m.takeCc kind).1 pcr rest).2
    obtain ⟨hnum, hstart, hcount⟩ := ih _ _ (rest.drop take) (takeCc_counts hm kind)
      (by rw [List.length_drop]; omega)
    rw [update_add_succ] at hcount
    rw [Function.update_self] at hnum
    have hpkt' : PacketOf kind false (n kind) (rest.take take) pkt :=
      { hpkt with cc := by rw [hpkt.cc, hcc, Nat.mod_mod] }
    refine ⟨?_, ?_, hcount⟩
    · have := Numbered.cons hpkt' hnum
      rwa [List.take_append_drop] at this
    · rw [List.map_cons, hpkt'.pusi, hstart, List.length_cons, List.replicate_succ]

/-- The whole loop sends the payload as one segment. -/
theorem writePackets_segment {m : MpegTsMuxer} {n : Cc → ℕ} (hm : Counts m n) (kind : Cc)
    (hkind : kind.isPsi = false) {payload : Bytes} (hp : payload ≠ []) (pcr : Option UInt64) :
    let sent := m.writePackets kind.pid kind payload pcr
    Segment kind (n kind) payload sent.1 ∧
      Counts sent.2 (Function.update n kind (n kind + sent.1.length)) := by
  obtain ⟨fuel, hfuel⟩ : ∃ fuel, payload.length = fuel + 1 :=
    Nat.exists_eq_succ_of_ne_zero (by simpa using hp)
  obtain ⟨hpkt, hpos, hle⟩ := payloadPacket_spec kind true (m.takeCc kind).1 pcr hp
  have hcc := takeCc_cc hm kind
  simp only [MpegTsMuxer.writePackets, hfuel, MpegTsMuxer.writeLoop, if_neg hp]
  set pkt := (payloadPacket kind.pid true (m.takeCc kind).1 pcr payload).1
  set take := (payloadPacket kind.pid true (m.takeCc kind).1 pcr payload).2
  obtain ⟨hnum, hstart, hcount⟩ := writeLoop_rest kind pcr fuel _ _ (payload.drop take)
    (takeCc_counts hm kind) (by rw [List.length_drop]; omega)
  rw [update_add_succ] at hcount
  rw [Function.update_self] at hnum
  have hpkt' : PacketOf kind true (n kind) (payload.take take) pkt :=
    { hpkt with cc := by rw [hpkt.cc, hcc, Nat.mod_mod] }
  have hall := Numbered.cons hpkt' hnum
  rw [List.take_append_drop] at hall
  exact ⟨⟨hall, ⟨_, by rw [List.map_cons, hpkt'.pusi, hstart]⟩, by simp [hkind]⟩, hcount⟩

/-- The payload of a PSI packet: pointer field, section, filler. -/
def psiPayload (sect : Bytes) : Bytes :=
  [0x00] ++ sect ++ List.replicate (TS_PACKET_LEN - 5 - sect.length) 0xFF

theorem psiPacket_segment {m : MpegTsMuxer} {n : Cc → ℕ} (hm : Counts m n) (which : Cc)
    (sect : Bytes) (hs : sect.length ≤ 183) :
    let sent := m.psiPacket which.pid sect which
    Segment which (n which) (psiPayload sect) [sent.1] ∧
      Counts sent.2 (Function.update n which (n which + 1)) := by
  have hcc := takeCc_cc hm which
  have hpkt : (m.psiPacket which.pid sect which).1 =
      tsHeader which.pid true 0b01 (m.takeCc which).1 ++ psiPayload sect := by
    simp only [MpegTsMuxer.psiPacket, psiPayload, List.append_assoc, List.length_append,
      tsHeader_length, List.length_singleton]
    congr 4
    omega
  have hof :
      PacketOf which true (n which) (psiPayload sect) (m.psiPacket which.pid sect which).1 := by
    rw [hpkt]
    refine ⟨?_, rfl, tsHeader_pid .., tsHeader_pusi .., ?_, payload_of_header ..⟩
    · simp only [List.length_append, tsHeader_length, psiPayload, List.length_singleton,
        List.length_replicate, TS_PACKET_LEN]
      omega
    · rw [tsHeader_cc _ _ _ _ _ (.inl rfl), hcc, Nat.mod_mod]
  have hall := Numbered.cons hof (Numbered.nil which _)
  rw [List.append_nil] at hall
  exact ⟨⟨hall, ⟨0, congrArg (· :: []) hof.pusi⟩, fun _ => rfl⟩, takeCc_counts hm which⟩

/-! ### Calls and runs -/

/-- The segments a call sends, in order: the PID and what is carried on it. -/
def Push.segments : Push → List (Cc × Bytes)
  | .video annexb pts keyframe =>
    (if keyframe then [(.pat, psiPayload patSection), (.pmt, psiPayload pmtSection)] else []) ++
      [(.video, buildPes STREAM_ID_VIDEO pts annexb)]
  | .audio adts pts => [(.audio, buildPes STREAM_ID_AUDIO pts adts)]

/-- `pss` are the packets of the segments `us`, one list for each, and the
counters move from `n` to `n'`. -/
inductive Emits : (Cc → ℕ) → List (Cc × Bytes) → List (List Bytes) → (Cc → ℕ) → Prop
  | nil (n : Cc → ℕ) : Emits n [] [] n
  | cons {n n' : Cc → ℕ} {which : Cc} {u : Bytes} {us : List (Cc × Bytes)} {pkts : List Bytes}
      {pss : List (List Bytes)} : Segment which (n which) u pkts →
      Emits (Function.update n which (n which + pkts.length)) us pss n' →
      Emits n ((which, u) :: us) (pkts :: pss) n'

theorem Emits.append {n n' n'' : Cc → ℕ} {us vs : List (Cc × Bytes)} {pss qss : List (List Bytes)}
    (h : Emits n us pss n') (h' : Emits n' vs qss n'') : Emits n (us ++ vs) (pss ++ qss) n'' := by
  induction h with
  | nil n => exact h'
  | cons hseg _ ih => exact .cons hseg (ih h')

theorem buildPes_ne_nil (streamId : UInt8) (pts : UInt64) (payload : Bytes) :
    buildPes streamId pts payload ≠ [] := by
  simp [buildPes]

theorem pes_emits {m : MpegTsMuxer} {n : Cc → ℕ} (hm : Counts m n) (kind : Cc)
    (hkind : kind.isPsi = false) (streamId : UInt8) (pts : UInt64) (data : Bytes)
    (pcr : Option UInt64) :
    let sent := m.writePayload kind.pid kind (buildPes streamId pts data) pcr
    ∃ pss n', Emits n [(kind, buildPes streamId pts data)] pss n' ∧ Counts sent.2 n' ∧
      sent.1 = pss.flatten.flatten := by
  obtain ⟨hseg, hcount⟩ :=
    writePackets_segment hm kind hkind (buildPes_ne_nil streamId pts data) pcr
  exact ⟨_, _, .cons hseg (.nil _), hcount, by simp [MpegTsMuxer.writePayload]⟩

theorem push_delta (m : MpegTsMuxer) (annexb : Bytes) (pts : UInt64) :
    m.push (.video annexb pts false) =
      m.writePayload Cc.video.pid .video (buildPes STREAM_ID_VIDEO pts annexb) (some pts) := by
  simp [MpegTsMuxer.push, MpegTsMuxer.pushAccessUnit, Cc.pid]

/-- A keyframe is a PAT, a PMT and then what any other frame is. -/
theorem push_keyframe (m : MpegTsMuxer) (annexb : Bytes) (pts : UInt64) :
    let pat := m.psiPacket Cc.pat.pid patSection .pat
    let pmt := pat.2.psiPacket Cc.pmt.pid pmtSection .pmt
    let frame := pmt.2.push (.video annexb pts false)
    m.push (.video annexb pts true) = (pat.1 ++ pmt.1 ++ frame.1, frame.2) := by
  simp [MpegTsMuxer.push, MpegTsMuxer.pushAccessUnit, Cc.pid]

/-- What a call sends. -/
theorem push_emits {m : MpegTsMuxer} {n : Cc → ℕ} (hm : Counts m n) (c : Push) :
    ∃ pss n', Emits n c.segments pss n' ∧ Counts (m.push c).2 n' ∧
      (m.push c).1 = pss.flatten.flatten := by
  have hdelta : ∀ (m : MpegTsMuxer) (n : Cc → ℕ), Counts m n → ∀ (annexb : Bytes) (pts : UInt64),
      ∃ pss n', Emits n [(.video, buildPes STREAM_ID_VIDEO pts annexb)] pss n' ∧
        Counts (m.push (.video annexb pts false)).2 n' ∧
        (m.push (.video annexb pts false)).1 = pss.flatten.flatten := by
    intro m n hm annexb pts
    rw [push_delta]
    exact pes_emits hm .video rfl STREAM_ID_VIDEO pts annexb (some pts)
  cases c with
  | audio adts pts => exact pes_emits hm .audio rfl STREAM_ID_AUDIO pts adts none
  | video annexb pts keyframe =>
    cases keyframe with
    | false => exact hdelta m n hm annexb pts
    | true =>
      obtain ⟨hpat, hm₁⟩ := psiPacket_segment hm .pat patSection (by decide +kernel)
      obtain ⟨hpmt, hm₂⟩ := psiPacket_segment hm₁ .pmt pmtSection (by decide +kernel)
      obtain ⟨pss, n', hpes, hm₃, hout⟩ := hdelta _ _ hm₂ annexb pts
      rw [push_keyframe]
      refine ⟨_, n', .cons hpat (.cons hpmt hpes), hm₃, ?_⟩
      simp only [List.flatten_cons, List.flatten_append, List.flatten_nil, List.append_nil,
        List.append_assoc, hout]

/-- What a run sends, call after call. -/
theorem run_emits {m : MpegTsMuxer} {n : Cc → ℕ} (hm : Counts m n) (calls : List Push) :
    ∃ pss n', Emits n (calls.flatMap Push.segments) pss n' ∧ Counts (m.run calls).2 n' ∧
      (m.run calls).1.flatten = pss.flatten.flatten := by
  induction calls generalizing m n with
  | nil => exact ⟨[], n, .nil n, hm, rfl⟩
  | cons c calls ih =>
    obtain ⟨pss, n₁, hpss, hm₁, hout⟩ := push_emits hm c
    obtain ⟨qss, n₂, hqss, hm₂, houts⟩ := ih hm₁
    refine ⟨pss ++ qss, n₂, hpss.append hqss, hm₂, ?_⟩
    simp only [MpegTsMuxer.run, List.flatten_cons, hout, houts, List.flatten_append]

/-- Each call of a run sends its own segments. -/
theorem run_each {m : MpegTsMuxer} {n : Cc → ℕ} (hm : Counts m n) (calls : List Push) :
    List.Forall₂ (fun c out => ∃ n pss n', Emits n c.segments pss n' ∧ out = pss.flatten.flatten)
      calls (m.run calls).1 := by
  induction calls generalizing m n with
  | nil => exact .nil
  | cons c calls ih =>
    obtain ⟨pss, n₁, hpss, hm₁, hout⟩ := push_emits hm c
    exact .cons ⟨n, pss, n₁, hpss, hout⟩ (ih hm₁)

/-! ### Reading segments back -/

/-- What the segments carry on one PID. -/
def carriedOn (which : Cc) (us : List (Cc × Bytes)) : List Bytes :=
  us.filterMap fun s => if s.1 = which then some s.2 else none

/-- `pss` are the packets of the segments `us`, whatever their counters. -/
def Sends (us : List (Cc × Bytes)) (pss : List (List Bytes)) : Prop :=
  List.Forall₂ (fun s pkts => ∃ cc, Segment s.1 cc s.2 pkts) us pss

theorem Emits.sends {n n' : Cc → ℕ} {us : List (Cc × Bytes)} {pss : List (List Bytes)}
    (h : Emits n us pss n') : Sends us pss := by
  induction h with
  | nil => exact .nil
  | cons hseg _ ih => exact .cons ⟨_, hseg⟩ ih

theorem Sends.append {us vs : List (Cc × Bytes)} {pss qss : List (List Bytes)}
    (h : Sends us pss) (h' : Sends vs qss) : Sends (us ++ vs) (pss ++ qss) :=
  List.rel_append h h'

theorem Sends.whole {us : List (Cc × Bytes)} {pss : List (List Bytes)} (h : Sends us pss) :
    ∀ pkt ∈ pss.flatten, pkt.length = TS_PACKET_LEN ∧ byteAt pkt 0 = SYNC_BYTE := by
  induction h with
  | nil => simp
  | cons hseg _ ih =>
    obtain ⟨cc, hseg⟩ := hseg
    intro pkt hpkt
    rcases List.mem_append.mp hpkt with hpkt | hpkt
    · exact ⟨(hseg.whole pkt hpkt).1, (hseg.whole pkt hpkt).2.1⟩
    · exact ih pkt hpkt

/-- The packets are found again in the bytes. -/
theorem Sends.blocks {us : List (Cc × Bytes)} {pss : List (List Bytes)} (h : Sends us pss) :
    Reassembly.blocks TS_PACKET_LEN pss.flatten.flatten = pss.flatten :=
  blocks_flatten (by decide) fun pkt hpkt => (h.whole pkt hpkt).1

theorem Numbered.packetsOn {which : Cc} {cc : ℕ} {u : Bytes} {pkts : List Bytes}
    (h : Numbered which cc u pkts) (other : Cc) :
    packetsOn other.pid pkts = if which = other then pkts else [] := by
  unfold HorizonCast.packetsOn
  split_ifs with hw
  · apply List.filter_eq_self.mpr
    intro pkt hpkt
    rw [(h.whole pkt hpkt).2.2, Cc.pid_beq]
    exact decide_eq_true hw
  · apply List.filter_eq_nil_iff.mpr
    intro pkt hpkt
    rw [(h.whole pkt hpkt).2.2, Cc.pid_beq]
    simpa using hw

theorem packetsOn_append (pid : UInt16) (ps qs : List Bytes) :
    packetsOn pid (ps ++ qs) = packetsOn pid ps ++ packetsOn pid qs := List.filter_append ..

/-- On each PID the packets are numbered on from its own counter. -/
theorem Emits.ccs {n n' : Cc → ℕ} {us : List (Cc × Bytes)} {pss : List (List Bytes)}
    (h : Emits n us pss n') (which : Cc) :
    let pkts := packetsOn which.pid pss.flatten
    pkts.map packetCc = (List.range' (n which) pkts.length).map (· % 16) ∧
      n' which = n which + pkts.length := by
  induction h with
  | nil => exact ⟨rfl, rfl⟩
  | @cons n n' w u us pkts pss hseg _ ih =>
    simp only [List.flatten_cons, packetsOn_append, hseg.packetsOn]
    split_ifs with hw
    · subst hw
      rw [Function.update_self] at ih
      rw [List.map_append, hseg.ccs, ih.1, List.length_append, ← List.range'_append_1,
        List.map_append]
      exact ⟨rfl, by rw [ih.2, Nat.add_assoc]⟩
    · rw [Function.update_of_ne (Ne.symm hw)] at ih
      exact ih

theorem Segment.cuts {which : Cc} {cc : ℕ} {u : Bytes} {pkts : List Bytes}
    (h : Segment which cc u pkts) : Cuts u (pkts.map fragment) where
  starts := by
    obtain ⟨k, hk⟩ := h.starts
    exact ⟨k, by rw [List.map_map]; exact hk⟩
  data := by rw [List.flatMap_map]; exact h.data

theorem carriedOn_cons (which : Cc) (s : Cc × Bytes) (us : List (Cc × Bytes)) :
    carriedOn which (s :: us) = (if s.1 = which then [s.2] else []) ++ carriedOn which us := by
  by_cases hs : s.1 = which <;> simp [carriedOn, hs]

/-- The packets on one PID are the fragments of what is sent on it. -/
theorem Sends.fragments {us : List (Cc × Bytes)} {pss : List (List Bytes)} (h : Sends us pss)
    (which : Cc) : ∃ fss, List.Forall₂ Cuts (carriedOn which us) fss ∧
      (packetsOn which.pid pss.flatten).map fragment = fss.flatten := by
  induction h with
  | nil => exact ⟨[], .nil, rfl⟩
  | @cons s pkts us pss hseg _ ih =>
    obtain ⟨cc, hseg⟩ := hseg
    obtain ⟨fss, hcuts, hflat⟩ := ih
    rw [List.flatten_cons, packetsOn_append, hseg.packetsOn, carriedOn_cons]
    split_ifs with hw
    · refine ⟨pkts.map fragment :: fss, .cons hseg.cuts hcuts, ?_⟩
      rw [List.map_append, hflat, List.flatten_cons]
    · exact ⟨fss, hcuts, hflat⟩

/-- Reassembling one PID gives what was sent on it. -/
theorem Sends.reassemble {us : List (Cc × Bytes)} {pss : List (List Bytes)} (h : Sends us pss)
    (which : Cc) :
    Reassembly.reassemble ((packetsOn which.pid pss.flatten).map fragment) =
      ([], carriedOn which us) := by
  obtain ⟨fss, hcuts, hflat⟩ := h.fragments which
  rw [hflat, reassemble_units hcuts]

end HorizonCast
