import HorizonCast.Proofs.RoundTrip
import HorizonCast.Spec.LiveMirror

/-! A client that joins a live mirror at any time, and loses any chunks, reads
every access unit it is sent from the first keyframe on. It rests on two facts:
a chunk is a whole number of segments, so a lost chunk leaves no partial PES
packet behind, and the PSI tables name the PIDs the packetizer uses. -/

namespace HorizonCast

open Reassembly

/-! ### The program tables -/

theorem pat_names_pmt : (checkedSection (psiPayload patSection)).bind patPmtPid = some PID_PMT := by
  decide +kernel

def program : Program :=
  ⟨PID_VIDEO, [(STREAM_TYPE_H264, PID_VIDEO), (STREAM_TYPE_AAC, PID_AUDIO)]⟩

theorem pmt_names_streams :
    (checkedSection (psiPayload pmtSection)).bind pmtProgram = some program := by
  decide +kernel

/-- A PSI segment is one packet, and its section is read back. -/
theorem Segment.sectionIn {which : Cc} {cc : ℕ} {sect : Bytes} {pkts : List Bytes}
    (h : Segment which cc (psiPayload sect) pkts) (hw : which.isPsi = true) :
    ∃ pkt, pkts = [pkt] ∧ packetPid pkt = which.pid ∧
      sectionIn pkt = checkedSection (psiPayload sect) := by
  obtain ⟨pkt, rfl⟩ := List.length_eq_one_iff.mp (h.psi hw)
  obtain ⟨k, hk⟩ := h.starts
  rw [List.map_cons, List.cons.injEq] at hk
  have hdata : packetPayload pkt = psiPayload sect := by simpa using h.data
  exact ⟨pkt, rfl, (h.whole pkt (by simp)).2.2, by
    rw [HorizonCast.sectionIn, hk.1, if_pos rfl, hdata]⟩

/-! ### Acquiring the program -/

/-- Without a PAT nothing is acquired. -/
theorem acquire_skip (pkts rest : List Bytes) (h : ∀ pkt ∈ pkts, packetPid pkt ≠ PID_PAT) :
    acquire none (pkts ++ rest) = acquire none rest := by
  induction pkts with
  | nil => rfl
  | cons pkt pkts ih =>
    rw [List.cons_append, acquire, if_neg (h pkt (by simp)), if_neg (by simp)]
    exact ih fun p hp => h p (by simp [hp])

theorem acquire_keyframe {pat pmt : Bytes} (rest : List Bytes) (hpat : packetPid pat = PID_PAT)
    (hpmt : packetPid pmt = PID_PMT) (hs : sectionIn pat = checkedSection (psiPayload patSection))
    (ht : sectionIn pmt = checkedSection (psiPayload pmtSection)) :
    acquire none (pat :: pmt :: rest) = some (program, rest) := by
  rw [acquire, if_pos hpat, hs, pat_names_pmt]
  dsimp only
  rw [acquire, if_neg (by rw [hpmt]; decide), if_pos (by rw [hpmt]), ht, pmt_names_streams]

/-- A call that is not a keyframe sends one segment, on an elementary stream. -/
theorem segments_of_not_keyframe {c : Push} (h : c.keyframe = false) :
    ∃ which u, c.segments = [(which, u)] ∧ which.isPsi = false := by
  cases c with
  | audio adts pts => exact ⟨_, _, rfl, rfl⟩
  | video annexb pts keyframe =>
    obtain rfl : keyframe = false := h
    exact ⟨_, _, rfl, rfl⟩

/-- A receiver without a program skips what another call sends. -/
theorem acquire_other {c : Push} (hkey : c.keyframe = false) {calls : List Push}
    {pss : List (List Bytes)} (h : Sends ((c :: calls).flatMap Push.segments) pss) :
    ∃ qss, Sends (calls.flatMap Push.segments) qss ∧
      acquire none pss.flatten = acquire none qss.flatten := by
  obtain ⟨which, u, hseg, hw⟩ := segments_of_not_keyframe hkey
  rw [List.flatMap_cons, hseg] at h
  cases h with
  | @cons _ pkts _ qss hpkts hrest =>
    obtain ⟨cc, hpkts⟩ := hpkts
    refine ⟨qss, hrest, ?_⟩
    rw [List.flatten_cons]
    apply acquire_skip
    intro pkt hpkt hpid
    have hpat : which = .pat := Cc.pid_injective ((hpkts.whole pkt hpkt).2.2.symm.trans hpid)
    rw [hpat] at hw
    cases hw

/-- At a keyframe the receiver acquires the program, and the frame itself is still to come. -/
theorem acquire_at_keyframe {annexb : Bytes} {pts : UInt64} {calls : List Push}
    {pss : List (List Bytes)}
    (h : Sends ((.video annexb pts true :: calls).flatMap Push.segments) pss) :
    ∃ qss, Sends ([(.video, buildPes STREAM_ID_VIDEO pts annexb)] ++
        calls.flatMap Push.segments) qss ∧
      acquire none pss.flatten = some (program, qss.flatten) := by
  cases h with
  | cons hpat h =>
    cases h with
    | cons hpmt h =>
      obtain ⟨_, hpat⟩ := hpat
      obtain ⟨_, hpmt⟩ := hpmt
      obtain ⟨pat, rfl, hpid, hsect⟩ := hpat.sectionIn rfl
      obtain ⟨pmt, rfl, hpid', hsect'⟩ := hpmt.sectionIn rfl
      exact ⟨_, h, acquire_keyframe _ hpid hpid' hsect hsect'⟩

/-- The receiver acquires the program at the first keyframe and is left with the
packets from there on. -/
theorem acquire_calls (calls : List Push) : ∀ pss, Sends (calls.flatMap Push.segments) pss →
    match calls.dropWhile fun c => !c.keyframe with
    | [] => acquire none pss.flatten = none
    | c :: cs => ∃ us qss, Sends (us ++ cs.flatMap Push.segments) qss ∧
        (∀ which, which.isPsi = false → carriedOn which us = carriedOn which c.segments) ∧
        acquire none pss.flatten = some (program, qss.flatten) := by
  induction calls with
  | nil => intro pss h; cases h; rfl
  | cons c calls ih =>
    intro pss h
    cases hkey : c.keyframe with
    | false =>
      rw [List.dropWhile_cons_of_pos (by simp [hkey])]
      obtain ⟨qss, hrest, hskip⟩ := acquire_other hkey h
      rw [hskip]
      exact ih qss hrest
    | true =>
      rw [List.dropWhile_cons_of_neg (by simp [hkey])]
      cases c with
      | audio adts pts => cases hkey
      | video annexb pts keyframe =>
        obtain rfl : keyframe = true := hkey
        obtain ⟨qss, hframe, hacquire⟩ := acquire_at_keyframe h
        refine ⟨_, qss, hframe, ?_, hacquire⟩
        intro which hw
        cases which <;> simp_all [Cc.isPsi, carriedOn, Push.segments]

/-- The receiver's view of any calls whose packets it was sent. -/
theorem receive_sends (calls : List Push) {pss : List (List Bytes)}
    (h : Sends (calls.flatMap Push.segments) pss) :
    receive pss.flatten.flatten = fromKeyframe clock33 calls := by
  have hacquire := acquire_calls calls pss h
  rw [receive, h.blocks, fromKeyframe]
  cases hdrop : calls.dropWhile fun c => !c.keyframe with
  | nil =>
    rw [hdrop] at hacquire
    rw [hacquire]
    rfl
  | cons c cs =>
    rw [hdrop] at hacquire
    obtain ⟨us, qss, hsends, hus, hacquire⟩ := hacquire
    have hunits : ∀ which : Cc, which.isPsi = false →
        demuxPackets which.pid qss.flatten = unitsOn which clock33 (c :: cs) := by
      intro which hw
      rw [demuxPackets_sends hsends, carriedOn_append, hus which hw, ← carriedOn_append,
        ← List.flatMap_cons]
      exact run_carried hw (c :: cs)
    have hvideo := hunits .video rfl
    have haudio := hunits .audio rfl
    simp only [Cc.pid] at hvideo haudio
    rw [hacquire]
    simp [program, hvideo, haudio]

/-! ### Sessions -/

/-- A session publishes the output of its muxer, call by call. -/
theorem run_sent (calls : List Push) (s : LiveMirrorSession) :
    (s.run calls).live.sent = s.live.sent ++ (s.muxer.run calls).1 := by
  induction calls generalizing s with
  | nil => simp [LiveMirrorSession.run, MpegTsMuxer.run]
  | cons c calls ih =>
    have hpush : (s.push c).live.sent = s.live.sent ++ [(s.muxer.push c).1] ∧
        (s.push c).muxer = (s.muxer.push c).2 := by
      cases c <;> exact ⟨rfl, rfl⟩
    rw [show s.run (c :: calls) = (s.push c).run calls from rfl, ih, hpush.1, hpush.2,
      List.append_assoc]
    rfl

theorem forall_mem_zip {α β : Type*} {R : α → β → Prop} {as : List α} {bs : List β}
    (h : List.Forall₂ R as bs) : ∀ p ∈ as.zip bs, R p.1 p.2 := by
  induction h with
  | nil => simp
  | cons hab _ ih =>
    intro p hp
    rcases List.mem_cons.mp hp with rfl | hp
    · exact hab
    · exact ih p hp

/-- Any chunks of a session, in any order, are segments of their calls. -/
theorem chunks_sends {calls : List Push} (received : List (Push × Bytes))
    (h : ∀ chunk ∈ received, chunk ∈ LiveMirrorSession.chunks calls) :
    ∃ pss, Sends ((received.map Prod.fst).flatMap Push.segments) pss ∧
      (received.map Prod.snd).flatten = pss.flatten.flatten := by
  have heach := forall_mem_zip (run_each counts_new calls)
  induction received with
  | nil => exact ⟨[], .nil, rfl⟩
  | cons chunk received ih =>
    obtain ⟨qss, hqss, hrest⟩ := ih fun c hc => h c (by simp [hc])
    have hmem := h chunk (by simp)
    rw [LiveMirrorSession.chunks, run_sent, List.nil_append] at hmem
    obtain ⟨n, pss, n', hpss, hout⟩ := heach chunk hmem
    refine ⟨pss ++ qss, hpss.sends.append hqss, ?_⟩
    rw [List.map_cons, List.flatten_cons, hrest, hout, List.flatten_append, List.flatten_append]

/-- Whatever chunks of a session a client receives, in order, it reads every access unit
of them from the first keyframe on, complete and with the low 33 bits of its time,
and nothing else. -/
theorem late_join (calls : List Push) (received : List (Push × Bytes))
    (h : received.Sublist (LiveMirrorSession.chunks calls)) :
    receive (received.map Prod.snd).flatten = fromKeyframe clock33 (received.map Prod.fst) := by
  obtain ⟨pss, hsends, hout⟩ := chunks_sends received fun chunk hc => h.subset hc
  rw [hout]
  exact receive_sends _ hsends

/-- A client that misses the first chunk joins at the keyframe after it. -/
theorem late_join_second_chunk :
    let calls := [.video [0x41] 0 false, .video [0x65] 3000 true, .audio [0xFF] 3000]
    receive (((LiveMirrorSession.chunks calls).drop 1).map Prod.snd).flatten =
      some ⟨PID_VIDEO,
        [(STREAM_TYPE_H264, [⟨[0x65], 3000⟩]), (STREAM_TYPE_AAC, [⟨[0xFF], 3000⟩])]⟩ := by
  intro calls
  rw [late_join calls _ (List.drop_sublist 1 _)]
  rfl

/-- The 33-bit field does not hold every 64-bit time: a keyframe at `2 ^ 33` is read
with time 0. -/
theorem full_time_lost :
    ¬ ∀ (calls : List Push) (received : List (Push × Bytes)),
      received.Sublist (LiveMirrorSession.chunks calls) →
        receive (received.map Prod.snd).flatten =
          fromKeyframe UInt64.toNat (received.map Prod.fst) := by
  intro h
  have hfull := h [.video [] (2 ^ 33) true] _ (List.Sublist.refl _)
  obtain ⟨pss, hsends, hout⟩ :=
    chunks_sends (LiveMirrorSession.chunks [.video [] (2 ^ 33) true]) fun _ hc => hc
  rw [hout, receive_sends _ hsends] at hfull
  revert hfull
  decide +kernel

end HorizonCast
