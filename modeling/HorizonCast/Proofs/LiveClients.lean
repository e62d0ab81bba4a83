import HorizonCast.Proofs.LateJoin
import HorizonCast.Spec.LiveClients

/-! What the renderers of a live stream receive, each at its own pace. One that keeps up
receives everything; one that does not loses whole access units. -/

namespace HorizonCast.LiveClients

open Transition

/-! ### Steps -/

theorem setClient_spec {s s' : Live} {i : ℕ} {f : Client → Option Client}
    (h : s.setClient i f = some s') : ∃ c c', s.clients[i]? = some c ∧ f c = some c' ∧
      s' = { s with clients := s.clients.set i c' } := by
  obtain ⟨c, hc, hrest⟩ := Option.bind_eq_some_iff.mp h
  obtain ⟨-, hset⟩ := Option.ite_none_right_eq_some.mp hrest
  obtain ⟨c', hc', heq⟩ := Option.bind_eq_some_iff.mp hset
  exact ⟨c, c', hc, hc', (Option.some.inj heq).symm⟩

/-- What a step does. -/
inductive Moves (s : Live) : Action → Live → Prop where
  | pushed (p : Push) : Moves s (.push p) { s with session := s.session.push p }
  | connected : Moves s .connect
    { s with clients := s.clients ++ [{ receiver := Broadcast.subscribe s.session.live.sent }] }
  | polled {i : ℕ} {c : Client} {receiver : Broadcast.Receiver Bytes}
    (found : s.clients[i]? = some c)
    (received : Broadcast.recv CHANNEL_CAPACITY s.session.live.sent c.receiver = some receiver) :
    Moves s (.poll i) { s with clients := s.clients.set i { c with receiver } }
  | disconnected {i : ℕ} {c : Client} (found : s.clients[i]? = some c) :
    Moves s (.disconnect i) { s with clients := s.clients.set i { c with isOpen := false } }

theorem moves_of_step {s s' : Live} {a : Action} (h : s.step a = some s') : Moves s a s' := by
  cases a with
  | push p =>
    obtain rfl := Option.some.inj h
    exact .pushed p
  | connect =>
    obtain rfl := Option.some.inj h
    exact .connected
  | poll i =>
    obtain ⟨c, c', hc, hc', rfl⟩ := setClient_spec h
    obtain ⟨receiver, hreceived, rfl⟩ := Option.map_eq_some_iff.mp hc'
    exact .polled hc hreceived
  | disconnect i =>
    obtain ⟨c, c', hc, hc', rfl⟩ := setClient_spec h
    obtain rfl := Option.some.inj hc'
    exact .disconnected hc

/-! ### What is received -/

/-- The session was pushed what the actions say, and the receivers follow its stream. -/
structure Serves (as : List Action) (s : Live) : Prop where
  session : s.session = LiveMirrorSession.run {} (pushed as)
  clients : ∀ c ∈ s.clients, c.receiver.Follows s.session.live.sent

theorem sent_push (session : LiveMirrorSession) (p : Push) :
    ∃ chunk, (session.push p).live.sent = session.live.sent ++ [chunk] := by
  cases p with
  | video | audio => exact ⟨_, rfl⟩

theorem Serves.step {as : List Action} {s s' : Live} {a : Action} (h : Serves as s)
    (hmove : Moves s a s') : Serves (as ++ [a]) s' := by
  have hpushed : pushed (as ++ [a]) = pushed as ++ pushed [a] := List.filterMap_append
  cases hmove with
  | pushed p =>
    refine ⟨?_, fun c hc => ?_⟩
    · have hrun := congrArg (LiveMirrorSession.push · p) h.session
      rw [hpushed, LiveMirrorSession.run, List.foldl_append]
      exact hrun
    · obtain ⟨chunk, hsent⟩ := sent_push s.session p
      dsimp only
      rw [hsent]
      exact (h.clients c hc).send chunk
  | connected =>
    refine ⟨by rw [hpushed]; simpa [pushed] using h.session, fun c hc => ?_⟩
    rcases List.mem_append.mp hc with hold | hnew
    · exact h.clients c hold
    · obtain rfl := List.mem_singleton.mp hnew
      exact Broadcast.follows_subscribe _
  | polled hfound hreceived =>
    refine ⟨by rw [hpushed]; simpa [pushed] using h.session, fun c hc => ?_⟩
    rcases List.mem_or_eq_of_mem_set hc with hold | rfl
    · exact h.clients c hold
    · exact ((h.clients _ (List.mem_of_getElem? hfound)).recv hreceived).1
  | disconnected hfound =>
    refine ⟨by rw [hpushed]; simpa [pushed] using h.session, fun c hc => ?_⟩
    rcases List.mem_or_eq_of_mem_set hc with hold | rfl
    · exact h.clients c hold
    · have hfollows := h.clients _ (List.mem_of_getElem? hfound)
      exact hfollows

theorem serves_of_run {as : List Action} {s : Live} (h : run as = some s) : Serves as s :=
  run_invariant Serves ⟨rfl, fun _ hc => absurd hc List.not_mem_nil⟩
    (fun _ hserves hstep => hserves.step (moves_of_step hstep)) h

/-- Whenever the client is polled, it is not further behind than the channel holds. -/
def KeptUp (i : ℕ) (as : List Action) : Prop :=
  ∀ before after s c, as = before ++ .poll i :: after → run before = some s →
    s.clients[i]? = some c →
    s.session.live.sent.length ≤ c.receiver.next + CHANNEL_CAPACITY

theorem KeptUp.before {i : ℕ} {as : List Action} {a : Action} (h : KeptUp i (as ++ [a])) :
    KeptUp i as := fun before after s c heq =>
  h before (after ++ [a]) s c (by rw [heq, List.append_assoc, List.cons_append])

/-- A client that keeps up misses nothing. -/
theorem missed_of_keptUp {i : ℕ} {as : List Action} {s : Live} (h : run as = some s)
    (hkept : KeptUp i as) {c : Client} (hc : s.clients[i]? = some c) : c.receiver.missed = 0 := by
  revert hkept c
  refine run_invariant (fun as s => KeptUp i as →
    ∀ {c : Client}, s.clients[i]? = some c → c.receiver.missed = 0) ?_ ?_ h
  · intro _ c hc
    cases hc
  · intro as s a s' hrun ih hstep hkept c hc
    have hbefore : ∀ {c}, s.clients[i]? = some c → c.receiver.missed = 0 := ih hkept.before
    cases moves_of_step hstep with
    | pushed p => exact hbefore hc
    | connected =>
      rw [List.getElem?_append] at hc
      split_ifs at hc
      · exact hbefore hc
      · obtain rfl := List.mem_singleton.mp (List.mem_of_getElem? hc)
        rfl
    | @polled j c₀ receiver hfound hreceived =>
      by_cases hj : j = i
      · subst hj
        have hclose := hkept as [] s c₀ rfl hrun hfound
        rw [List.getElem?_set_self (List.getElem?_eq_some_iff.mp hfound).1] at hc
        obtain rfl := Option.some.inj hc
        exact (Broadcast.recv_missed hreceived hclose).trans (hbefore hfound)
      · rw [List.getElem?_set_ne hj] at hc
        exact hbefore hc
    | @disconnected j c₀ hfound =>
      by_cases hj : j = i
      · subst hj
        rw [List.getElem?_set_self (List.getElem?_eq_some_iff.mp hfound).1] at hc
        obtain rfl := Option.some.inj hc
        have hold := hbefore hfound
        exact hold
      · rw [List.getElem?_set_ne hj] at hc
        exact hbefore hc

/-- Each call publishes one chunk. -/
theorem chunks_spec (calls : List Push) :
    (LiveMirrorSession.chunks calls).map Prod.fst = calls ∧
      (LiveMirrorSession.chunks calls).map Prod.snd =
        (LiveMirrorSession.run {} calls).live.sent := by
  have hlength : calls.length = (LiveMirrorSession.run {} calls).live.sent.length := by
    rw [run_sent]
    exact (run_each counts_new calls).length_eq
  exact ⟨List.map_fst_zip hlength.le, List.map_snd_zip hlength.ge⟩

/-- In every run, a client receives some of the chunks published since it joined, whole and
in order, and reads from them every access unit from its first keyframe on, and nothing
else. One that keeps up receives all of them up to its position. -/
theorem clients_receive {as : List Action} {s : Live} (h : run as = some s) {i : ℕ} {c : Client}
    (hc : s.clients[i]? = some c) :
    ∃ received : List (Push × Bytes),
      received.Sublist ((LiveMirrorSession.chunks (pushed as)).drop c.receiver.joined) ∧
      c.body = (received.map Prod.snd).flatten ∧
      receive c.body = fromKeyframe clock33 (received.map Prod.fst) ∧
      (KeptUp i as → received.map Prod.fst =
        ((pushed as).take c.receiver.next).drop c.receiver.joined) := by
  obtain ⟨hsession, hclients⟩ := serves_of_run h
  have hfollows := hclients c (List.mem_of_getElem? hc)
  obtain ⟨hcalls, hsent⟩ := chunks_spec (pushed as)
  rw [hsession, ← hsent] at hfollows
  have htaken := hfollows.taken
  rw [← List.map_take, ← List.map_drop, List.sublist_map_iff] at htaken
  obtain ⟨received, hreceived, heq⟩ := htaken
  have hbody : c.body = (received.map Prod.snd).flatten := congrArg List.flatten heq
  have hsublist : received.Sublist
      ((LiveMirrorSession.chunks (pushed as)).drop c.receiver.joined) := by
    rw [List.drop_take] at hreceived
    exact hreceived.trans (List.take_sublist _ _)
  refine ⟨received, hsublist, hbody, ?_, fun hkept => ?_⟩
  · obtain ⟨pss, hsends, hout⟩ := chunks_sends received fun chunk hchunk =>
      List.mem_of_mem_drop (hsublist.subset hchunk)
    rw [hbody, hout]
    exact receive_sends _ hsends
  · have hall := hfollows.taken_eq (missed_of_keptUp h hkept hc)
    have hlength := congrArg List.length hall
    rw [heq, ← List.map_take, ← List.map_drop, List.length_map, List.length_map] at hlength
    rw [hreceived.eq_of_length hlength, List.map_drop, List.map_take, hcalls]

/-- In a short run nobody falls behind. -/
theorem keptUp_of_length {as : List Action} (hlength : as.length ≤ CHANNEL_CAPACITY) (i : ℕ) :
    KeptUp i as := by
  intro before after s c heq hrun _
  have hsession := (serves_of_run hrun).session
  have hsent : s.session.live.sent.length = (pushed before).length := by
    rw [hsession, ← (chunks_spec (pushed before)).2, List.length_map]
    exact (List.length_map Prod.fst).symm.trans
      (congrArg List.length (chunks_spec (pushed before)).1)
  have hpushed : (pushed before).length ≤ before.length := List.length_filterMap_le _ _
  have hbefore : before.length ≤ as.length := by
    rw [heq, List.length_append]
    exact Nat.le_add_right _ _
  omega

/-- A renderer that joins after the first chunk. -/
def sampleRun : List Action :=
  [.push (.video [0x41] 0 false), .connect, .push (.video [0x65] 3000 true), .connect, .poll 0]

theorem clients_receive_second :
    ∃ s c, run sampleRun = some s ∧ s.clients[0]? = some c ∧
      receive c.body = some ⟨PID_VIDEO,
        [(STREAM_TYPE_H264, [⟨[0x65], 3000⟩]), (STREAM_TYPE_AAC, [])]⟩ := by
  have hread : ((run sampleRun).bind fun s => s.clients[0]?).map
      (fun c => (c.receiver.joined, c.receiver.next)) = some (1, 2) := by decide +kernel
  obtain ⟨c, hbind, hposition⟩ := Option.map_eq_some_iff.mp hread
  obtain ⟨s, hs, hc⟩ := Option.bind_eq_some_iff.mp hbind
  obtain ⟨hjoined, hnext⟩ := Prod.mk.inj hposition
  obtain ⟨received, -, -, hreceive, hall⟩ := clients_receive hs hc
  rw [hall (keptUp_of_length (by decide) 0), hjoined, hnext] at hreceive
  exact ⟨s, c, hs, hc, hreceive⟩

end HorizonCast.LiveClients
