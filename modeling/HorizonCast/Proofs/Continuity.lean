import HorizonCast.Proofs.Segments

/-! Continuity counters. On each PID the packets of a run are numbered without
gaps, and only the first packet of an access unit and the PSI packets are starts. -/

namespace HorizonCast

open Reassembly

/-- The PIDs and start flags a call must show: PAT and PMT before a keyframe,
then the access unit, started by its first packet and by no other. -/
def PusiExact (c : Push) (out : Bytes) : Prop :=
  ∃ k, (blocks TS_PACKET_LEN out).map (fun pkt => (packetPid pkt, packetPusi pkt)) =
    (if c.keyframe then [(PID_PAT, true), (PID_PMT, true)] else []) ++
      (c.stream.pid, true) :: List.replicate k (c.stream.pid, false)

theorem Segment.marks {which : Cc} {cc : ℕ} {u : Bytes} {pkts : List Bytes}
    (h : Segment which cc u pkts) :
    ∃ k, pkts.map (fun pkt => (packetPid pkt, packetPusi pkt)) =
      (which.pid, true) :: List.replicate k (which.pid, false) := by
  obtain ⟨k, hk⟩ := h.starts
  have hpid : pkts.map (fun pkt => (packetPid pkt, packetPusi pkt)) =
      (pkts.map packetPusi).map (fun start => (which.pid, start)) := by
    rw [List.map_map]
    apply List.map_congr_left
    intro pkt hpkt
    simp only [Function.comp, (h.whole pkt hpkt).2.2]
  exact ⟨k, by rw [hpid, hk, List.map_cons, List.map_replicate]⟩

/-- A segment with a program table is one packet, and a start. -/
theorem Segment.psi_marks {which : Cc} {cc : ℕ} {u : Bytes} {pkts : List Bytes}
    (h : Segment which cc u pkts) (hw : which.isPsi = true) :
    pkts.map (fun pkt => (packetPid pkt, packetPusi pkt)) = [(which.pid, true)] := by
  obtain ⟨k, hk⟩ := h.marks
  have hlen := congrArg List.length hk
  rw [List.length_map, h.psi hw, List.length_cons, List.length_replicate] at hlen
  obtain rfl : k = 0 := by omega
  exact hk

theorem emits_one {n n' : Cc → ℕ} {which : Cc} {u : Bytes} {pss : List (List Bytes)}
    (h : Emits n [(which, u)] pss n') : ∃ cc pkts, pss = [pkts] ∧ Segment which cc u pkts := by
  cases h with
  | @cons _ _ _ _ _ pkts _ hseg hrest =>
    cases hrest
    exact ⟨_, pkts, rfl, hseg⟩

/-- The marks of one call follow from its segments. -/
theorem Emits.pusiExact {n n' : Cc → ℕ} {c : Push} {pss : List (List Bytes)}
    (h : Emits n c.segments pss n') : PusiExact c pss.flatten.flatten := by
  unfold PusiExact
  rw [h.sends.blocks]
  cases c with
  | audio adts pts =>
    obtain ⟨cc, pkts, rfl, hseg⟩ := emits_one h
    simpa [Push.keyframe, Push.stream] using hseg.marks
  | video annexb pts keyframe =>
    cases keyframe with
    | false =>
      obtain ⟨cc, pkts, rfl, hseg⟩ := emits_one h
      simpa [Push.keyframe, Push.stream] using hseg.marks
    | true =>
      cases h with
      | cons hpat h =>
        cases h with
        | cons hpmt h =>
          obtain ⟨cc, pkts, rfl, hseg⟩ := emits_one h
          obtain ⟨k, hk⟩ := hseg.marks
          refine ⟨k, ?_⟩
          simp only [List.flatten_cons, List.flatten_nil, List.append_nil, List.map_append,
            hpat.psi_marks rfl, hpmt.psi_marks rfl, hk]
          rfl

/-- After any run, on each of the four PIDs the `k`-th packet carries counter
`k mod 16`, the muxer's counter stands at the number of that PID's own packets,
and the starts are exactly the first packet of each access unit and every PSI packet. -/
theorem continuity_gap_free (calls : List Push) :
    let sent := MpegTsMuxer.run .new calls
    (∀ which : Cc,
      let pkts := packetsOn which.pid (blocks TS_PACKET_LEN sent.1.flatten)
      (∀ k (h : k < pkts.length), packetCc pkts[k] = k % 16) ∧
        (sent.2.slot which).toNat = pkts.length % 16) ∧
    List.Forall₂ PusiExact calls sent.1 := by
  obtain ⟨pss, n, hemits, hcounts, hout⟩ := run_emits counts_new calls
  refine ⟨fun which => ?_, ?_⟩
  · obtain ⟨hcc, hn⟩ := hemits.ccs which
    simp only [hout, hemits.sends.blocks]
    refine ⟨fun k h => ?_, ?_⟩
    · have hk := congrArg (·[k]?) hcc
      simp only [List.getElem?_map, List.getElem?_eq_getElem h, Option.map_some] at hk
      rw [List.getElem?_range' h] at hk
      simpa using hk
    · rw [hcounts which, hn, Nat.zero_add]
  · refine List.Forall₂.imp ?_ (run_each counts_new calls)
    rintro c out ⟨n, pss, n', h, rfl⟩
    exact h.pusiExact

end HorizonCast
