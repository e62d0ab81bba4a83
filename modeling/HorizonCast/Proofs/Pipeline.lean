import HorizonCast.Proofs.CaptureLoop
import HorizonCast.Proofs.LateJoin
import HorizonCast.Proofs.PipelineSteps

/-! A live mirror in any interleaving of its tasks: the stream carries a prefix
of what the encoder emitted, in order; a mirror that nobody stops carries all
that `capture_encode_loop` sends; and a teardown waits only for the renderer and
for the screen. -/

namespace HorizonCast.Pipeline

open Transition

variable {σ : Type} {p : Program} {encoder : H264Encoder σ} {fps bitrateKbps : UInt32}

/-! ### What goes through the channel -/

/-- The units are in the run's order: sent, about to be sent, then lost with the
end of the capture task. -/
structure InOrder (m : Mirror σ) : Prop where
  sent : m.channel.sent = m.run.sent
  session : m.session = LiveMirrorSession.run {} (m.channel.received.map push)
  emitted : ∃ lost, m.run.emitted = m.run.sent ++ m.capture.pending ++ lost ∧
    (m.capture.hasEnded = false → lost = [])

theorem inOrder_init : InOrder ({} : Mirror σ) where
  sent := rfl
  session := rfl
  emitted := ⟨[], rfl, fun _ => rfl⟩

namespace InOrder

variable {m m' : Mirror σ}

/-- The state after a move that leaves the channel and the session alone. -/
theorem congr (h : InOrder m) (hchannel : m'.channel = m.channel)
    (hsession : m'.session = m.session) (hsent : m'.run.sent = m.run.sent)
    (hemitted : ∃ lost, m'.run.emitted = m'.run.sent ++ m'.capture.pending ++ lost ∧
      (m'.capture.hasEnded = false → lost = [])) : InOrder m' where
  sent := by rw [hchannel, h.sent, hsent]
  session := by rw [hsession, h.session, hchannel]
  emitted := hemitted

theorem encode (h : InOrder m) (hnone : m.capture.pending = []) (hlive : m.capture.hasEnded = false)
    (state : σ) (clock : PtsClock) (f : CapturedFrame) :
    InOrder (m.encode p encoder state clock f) := by
  obtain ⟨lost, hemitted, hlost⟩ := h.emitted
  rw [hnone, hlost hlive] at hemitted
  unfold Mirror.encode
  dsimp only
  split
  case h_1 units state _ =>
    refine h.congr rfl rfl rfl ⟨[], ?_, fun _ => rfl⟩
    dsimp only
    rw [hemitted, CaptureTask.pending_ofUnits]
    simp
  case h_2 e state _ =>
    rw [finish_eq]
    refine h.congr rfl rfl rfl ⟨encoder.flushed state, ?_, nofun⟩
    dsimp only
    rw [hemitted]
    simp [CaptureTask.pending]

/-- A captured frame changes neither the channel nor the session. -/
theorem captured (h : InOrder m) (frames : List CapturedFrame) :
    InOrder ({ m with frames } : Mirror σ) := ⟨h.sent, h.session, h.emitted⟩

/-- The end of the capture task, with what `emitted` then ends on. -/
theorem ended (h : InOrder m) (hnone : m.capture.pending = []) (hlive : m.capture.hasEnded = false)
    {run : LoopRun} (hsent : run.sent = m.run.sent) {flushed : List EncodedFrame}
    (hemitted : run.emitted = m.run.emitted ++ flushed) :
    InOrder ({ m with capture := .ended, run } : Mirror σ) := by
  obtain ⟨lost, hbefore, hlost⟩ := h.emitted
  rw [hnone, hlost hlive] at hbefore
  refine h.congr rfl rfl hsent ⟨flushed, ?_, nofun⟩
  dsimp only
  rw [hemitted, hbefore, hsent]
  simp [CaptureTask.pending]

theorem capture (h : InOrder m) (hmove : Mirror.CaptureMove p encoder fps bitrateKbps m m') :
    InOrder m' := by
  cases hmove with
  | start result starting =>
    cases result with
    | ok _ =>
      obtain ⟨lost, hemitted, hlost⟩ := h.emitted
      rw [starting] at hemitted hlost
      exact h.congr rfl rfl rfl ⟨lost, hemitted, hlost⟩
    | error e =>
      exact h.ended (by rw [starting]; rfl) (by rw [starting]; rfl) rfl (List.append_nil _).symm
  | noFrame awaiting =>
    exact h.ended (by rw [awaiting]; rfl) (by rw [awaiting]; rfl) rfl (List.append_nil _).symm
  | firstFrame first awaiting =>
    unfold Mirror.firstFrame
    split
    · exact (h.captured _).ended (by rw [awaiting]; rfl) (by rw [awaiting]; rfl) rfl
        (List.append_nil _).symm
    · exact (h.captured _).encode (by rw [awaiting]; rfl) (by rw [awaiting]; rfl) _ _ _
  | captureEnds state clock awaiting =>
    rw [finish_eq]
    have hflushed : m.run.emitted ++ encoder.flushed state =
        m.run.emitted ++ encoder.flushed state := rfl
    exact h.ended (by rw [awaiting]; rfl) (by rw [awaiting]; rfl) rfl hflushed
  | frame state clock f awaiting =>
    exact (h.captured _).encode (by rw [awaiting]; rfl) (by rw [awaiting]; rfl) _ _ _

theorem locally (h : InOrder m) (hmove : Mirror.LocalMove p m m') : InOrder m' := by
  cases hmove with
  | send state clock u rest channel sending receiving room =>
    obtain ⟨hreceived, -, -⟩ := BoundedChannel.send_spec room
    obtain ⟨lost, hemitted, hlost⟩ := h.emitted
    rw [sending] at hemitted hlost
    refine ⟨?_, ?_, lost, ?_, fun _ => hlost rfl⟩
    · dsimp only
      rw [BoundedChannel.send_sent room, h.sent]
    · dsimp only
      rw [hreceived, h.session]
    · dsimp only
      rw [hemitted, CaptureTask.pending_ofUnits]
      simp [CaptureTask.pending]
  | sendFails state clock u rest sending dropped =>
    obtain ⟨lost, hemitted, -⟩ := h.emitted
    refine h.congr rfl rfl rfl ⟨m.capture.pending ++ lost, ?_, nofun⟩
    dsimp only
    rw [hemitted]
    simp [CaptureTask.pending]
  | receive u channel pumping next =>
    obtain ⟨-, hreceived, -⟩ := BoundedChannel.receive_spec next
    refine ⟨?_, ?_, h.emitted⟩
    · dsimp only
      rw [BoundedChannel.receive_sent next, h.sent]
    · dsimp only
      rw [hreceived, List.map_append, h.session, LiveMirrorSession.run, LiveMirrorSession.run,
        List.foldl_append]
      rfl
  | leaveLoop pumping cause =>
    cases p <;> exact ⟨h.sent, h.session, h.emitted⟩
  | signal | pumpJoined | captureJoined => exact ⟨h.sent, h.session, h.emitted⟩

theorem step (h : InOrder m) (hmove : Mirror.Moves p encoder fps bitrateKbps m m') :
    InOrder m' := by
  cases hmove with
  | capture _ move => exact h.capture move
  | locally _ move => exact h.locally move
  | sessionStopped stopping => exact ⟨h.sent, h.session, h.emitted⟩

end InOrder

theorem inOrder_of_reachable {m : Mirror σ} (h : Reachable p encoder fps bitrateKbps m) :
    InOrder m :=
  h.invariant (fun hs _ hstep => hs.step (Mirror.moves_of_step hstep)) inOrder_init

/-! ### The stream -/

theorem unitsOn_push (us : List EncodedFrame) :
    unitsOn .video clock33 (us.map push) = us.map accessUnit ∧
      unitsOn .audio clock33 (us.map push) = [] := by
  unfold unitsOn
  rw [List.filter_eq_self.mpr (by simp [push, Push.stream]),
    List.filter_eq_nil_iff.mpr (by simp [push, Push.stream]), List.map_map]
  exact ⟨rfl, rfl⟩

/-- The stream of a session is read back as the units pushed. -/
theorem InOrder.streamed {m : Mirror σ} (h : InOrder m) :
    demux PID_VIDEO m.session.live.sent.flatten = m.channel.received.map accessUnit ∧
      demux PID_AUDIO m.session.live.sent.flatten = [] := by
  obtain ⟨hvideo, haudio⟩ := unitsOn_push m.channel.received
  obtain ⟨pss, n, hemits, -, hout⟩ := run_emits counts_new (m.channel.received.map push)
  have hsends := hemits.sends
  have hstream : m.session.live.sent.flatten = pss.flatten.flatten := by
    rw [h.session, run_sent, ← hout]
    rfl
  rw [hstream, demux, demux, hsends.blocks]
  refine ⟨?_, ?_⟩
  · rw [← hvideo, ← run_carried rfl]
    exact demuxPackets_sends hsends .video
  · rw [← haudio, ← run_carried rfl]
    exact demuxPackets_sends hsends .audio

/-- The loop of the capture task from where it sends `units` on. -/
def resume (p : Program) (encoder : H264Encoder σ) (receiverOpen : ℕ → Bool) (state : σ)
    (clock : PtsClock) (units : List EncodedFrame) (frames : List CapturedFrame) (run : LoopRun) :
    LoopRun :=
  match sendUnits receiverOpen units run.sent with
  | (sent, true) => encodeFrames p.log encoder receiverOpen state clock frames { run with sent }
  | (sent, false) => { run with sent, ended := .receiverDropped }

/-- The receiver is there for the first `n` sends. -/
def OpenFor (n : ℕ) (receiverOpen : ℕ → Bool) : Prop := ∀ k < n, receiverOpen k = true

/-- The capture task is at this point of `capture_encode_loop`, whatever frames
are still to come. -/
def At (p : Program) (encoder : H264Encoder σ) (fps bitrateKbps : UInt32) (m : Mirror σ)
    (state : σ) (clock : PtsClock) (units : List EncodedFrame) : Prop :=
  ∀ receiverOpen, OpenFor m.run.sent.length receiverOpen → ∀ rest,
    p.captureEncodeLoop encoder receiverOpen (.ok (m.frames ++ rest)) fps bitrateKbps =
      resume p encoder receiverOpen state clock units rest m.run

/-- What the screen capture answered. -/
def Captured (m : Mirror σ) (capture : Except Text.Str (List CapturedFrame)) : Prop :=
  capture = .ok m.frames ∨ m.frames = [] ∧ ∃ e, capture = .error e

/-- The capture task has done what `capture_encode_loop` does. -/
def Follows (p : Program) (encoder : H264Encoder σ) (fps bitrateKbps : UInt32) (m : Mirror σ) :
    Prop :=
  match m.capture with
  | .starting | .awaitingFirst => m.frames = [] ∧ m.run = { ended := .noFrame }
  | .awaitingFrame state clock => At p encoder fps bitrateKbps m state clock []
  | .sending state clock unit rest => At p encoder fps bitrateKbps m state clock (unit :: rest)
  | .ended => ∃ receiverOpen capture, Captured m capture ∧
      (m.stopSent = false → receiverOpen = fun _ => true) ∧
      m.run = p.captureEncodeLoop encoder receiverOpen capture fps bitrateKbps

theorem captureEncodeLoop_eq (p : Program) (receiverOpen : ℕ → Bool)
    (capture : Except Text.Str (List CapturedFrame)) :
    p.captureEncodeLoop encoder receiverOpen capture fps bitrateKbps =
      HorizonCast.captureEncodeLoop p.log encoder receiverOpen capture fps bitrateKbps := by
  cases p <;> rfl

/-- A round of the loop, in the loop and in the task. -/
theorem follows_encode {m : Mirror σ} {state : σ} {clock : PtsClock} {f : CapturedFrame}
    (h : ∀ receiverOpen, OpenFor m.run.sent.length receiverOpen → ∀ rest,
      p.captureEncodeLoop encoder receiverOpen (.ok (m.frames ++ rest)) fps bitrateKbps =
        encodeFrames p.log encoder receiverOpen state clock (f :: rest) m.run) :
    Follows p encoder fps bitrateKbps (m.encode p encoder state clock f) := by
  unfold Mirror.encode
  dsimp only
  cases hencode : encoder.encode state f (clock.pts f.pts).1 with
  | mk result next =>
    cases result with
    | ok units =>
      have hat : At p encoder fps bitrateKbps
          { m with
            capture := .ofUnits next (clock.pts f.pts).2 units
            run := { m.run with emitted := m.run.emitted ++ units } }
          next (clock.pts f.pts).2 units := by
        intro receiverOpen hopen rest
        rw [h receiverOpen hopen rest, encodeFrames]
        simp only [hencode]
        rfl
      cases units with
      | nil => exact hat
      | cons unit rest => exact hat
    | error e =>
      refine ⟨fun _ => true, .ok m.frames, .inl rfl, fun _ => rfl, ?_⟩
      have hloop := h (fun _ => true) (fun _ _ => rfl) []
      rw [List.append_nil, encodeFrames] at hloop
      simp only [hencode] at hloop
      exact hloop.symm

theorem follows_capture {m m' : Mirror σ} (h : Follows p encoder fps bitrateKbps m)
    (hmove : Mirror.CaptureMove p encoder fps bitrateKbps m m') :
    Follows p encoder fps bitrateKbps m' := by
  unfold Follows at h
  cases hmove with
  | start result starting =>
    rw [starting] at h
    cases result with
    | ok _ => exact h
    | error e =>
      refine ⟨fun _ => true, .error e, .inr ⟨h.1, e, rfl⟩, fun _ => rfl, ?_⟩
      rw [captureEncodeLoop_eq]
      dsimp only [Mirror.started]
      rw [h.2]
      rfl
  | noFrame awaiting =>
    rw [awaiting] at h
    refine ⟨fun _ => true, .ok m.frames, .inl rfl, fun _ => rfl, ?_⟩
    rw [captureEncodeLoop_eq, h.1]
    exact h.2
  | firstFrame first awaiting =>
    rw [awaiting] at h
    unfold Mirror.firstFrame
    cases hnew : encoder.new (.ofFirst first fps bitrateKbps) with
    | error e =>
      refine ⟨fun _ => true, .ok (m.frames ++ [first]), .inl rfl, fun _ => rfl, ?_⟩
      rw [captureEncodeLoop_eq, h.1]
      dsimp only [List.nil_append, HorizonCast.captureEncodeLoop]
      rw [hnew, h.2]
      rfl
    | ok state =>
      apply follows_encode
      intro receiverOpen _ rest
      dsimp only
      rw [captureEncodeLoop_eq, h.1]
      dsimp only [List.nil_append, List.singleton_append, HorizonCast.captureEncodeLoop]
      rw [hnew, h.2]
  | captureEnds state clock awaiting =>
    rw [awaiting] at h
    refine ⟨fun _ => true, .ok m.frames, .inl rfl, fun _ => rfl, ?_⟩
    have hloop := h (fun _ => true) (fun _ _ => rfl) []
    rw [List.append_nil] at hloop
    exact hloop.symm
  | frame state clock f awaiting =>
    rw [awaiting] at h
    apply follows_encode
    intro receiverOpen hopen rest
    dsimp only
    rw [List.append_assoc]
    exact h receiverOpen hopen (f :: rest)

/-- A unit is sent: the loop is at the next one. -/
theorem At.send {m : Mirror σ} {state : σ} {clock : PtsClock} {u : EncodedFrame}
    {rest : List EncodedFrame} (h : At p encoder fps bitrateKbps m state clock (u :: rest))
    (channel : BoundedChannel EncodedFrame CHANNEL_CAPACITY) :
    At p encoder fps bitrateKbps
      { m with
        channel
        capture := .ofUnits state clock rest
        run := { m.run with sent := m.run.sent ++ [u] } } state clock rest := by
  intro receiverOpen hopen frames
  have hlt : ∀ k < m.run.sent.length + 1, receiverOpen k = true := by simpa [OpenFor] using hopen
  rw [h receiverOpen (fun k hk => hlt k (Nat.lt_succ_of_lt hk)) frames]
  unfold resume
  rw [sendUnits, if_pos (hlt _ (Nat.lt_succ_self _))]

/-- The receiver is gone: so it is for the loop. -/
theorem At.sendFails {m : Mirror σ} {state : σ} {clock : PtsClock} {u : EncodedFrame}
    {rest : List EncodedFrame} (h : At p encoder fps bitrateKbps m state clock (u :: rest)) :
    { m.run with ended := .receiverDropped } = p.captureEncodeLoop encoder
      (fun k => decide (k < m.run.sent.length)) (.ok m.frames) fps bitrateKbps := by
  have hloop := h (fun k => decide (k < m.run.sent.length)) (fun k hk => by simpa using hk) []
  rw [List.append_nil] at hloop
  rw [hloop]
  unfold resume
  rw [sendUnits, if_neg (by simp)]

/-! ### Who has left -/

/-- The receiver is dropped by a pump that has left its loop, which it does when
it is told to stop or when the capture task has ended and the channel is empty. -/
structure Leaving (m : Mirror σ) : Prop where
  dropped : m.channel.receiverOpen = false → m.pump ≠ .pumping
  pumpEnded : m.pump = .ended → m.channel.receiverOpen = false
  stopped : m.pump ≠ .pumping → m.stopSent = false →
    m.capture.hasEnded = true ∧ m.channel.queue = []
  begun : m.stopSent = true → m.teardown ≠ .notBegun

theorem leaving_init : Leaving ({} : Mirror σ) := ⟨nofun, nofun, nofun, nofun⟩

theorem captureMove_live {m m' : Mirror σ}
    (h : Mirror.CaptureMove p encoder fps bitrateKbps m m') : m.capture.hasEnded = false := by
  cases h with
  | start _ h | noFrame h | firstFrame _ h | captureEnds _ _ h | frame _ _ _ h =>
    rw [h]
    rfl

namespace Leaving

variable {m m' : Mirror σ}

/-- While the capture task lives, only a stop makes the pump leave. -/
theorem stopSent_of_live (h : Leaving m) (hlive : m.capture.hasEnded = false)
    (hpump : m.pump ≠ .pumping) : m.stopSent = true := by
  by_contra hstop
  have hended := (h.stopped hpump (Bool.eq_false_iff.mpr hstop)).1
  rw [hlive] at hended
  cases hended

theorem capture (h : Leaving m) (hmove : Mirror.CaptureMove p encoder fps bitrateKbps m m') :
    Leaving m' := by
  have hlive := captureMove_live hmove
  obtain ⟨hchannel, -, hpump, hstop, hteardown⟩ := hmove.frame_eq
  refine ⟨?_, ?_, ?_, ?_⟩
  · rw [hchannel, hpump]
    exact h.dropped
  · rw [hchannel, hpump]
    exact h.pumpEnded
  · intro hleft hno
    rw [hpump] at hleft
    rw [hstop, h.stopSent_of_live hlive hleft] at hno
    cases hno
  · rw [hstop, hteardown]
    exact h.begun

theorem leaveLoop (h : Leaving m)
    (cause : m.channel.queue = [] ∧ m.capture.hasEnded = true ∨ m.stopSent = true) :
    Leaving (m.leaveLoop p) := by
  have hstopped : m.stopSent = false → m.capture.hasEnded = true ∧ m.channel.queue = [] := by
    intro hno
    rw [hno] at cause
    exact (cause.resolve_right nofun).symm
  cases p with
  | hcApp => exact ⟨fun _ => nofun, nofun, fun _ => hstopped, h.begun⟩
  | hcCli => exact ⟨fun _ => nofun, fun _ => rfl, fun _ => hstopped, h.begun⟩

theorem locally (h : Leaving m) (hmove : Mirror.LocalMove p m m') : Leaving m' := by
  cases hmove with
  | send state clock u rest channel sending receiving room =>
    obtain ⟨-, -, hopen⟩ := BoundedChannel.send_spec room
    refine ⟨?_, ?_, ?_, h.begun⟩
    · exact fun hdropped => h.dropped (hopen.symm.trans hdropped)
    · exact fun hended => hopen.trans (h.pumpEnded hended)
    · intro hleft hno
      have hended := (h.stopped hleft hno).1
      rw [sending] at hended
      cases hended
  | sendFails state clock u rest sending dropped =>
    refine ⟨h.dropped, h.pumpEnded, ?_, h.begun⟩
    exact fun hleft hno => ⟨rfl, (h.stopped hleft hno).2⟩
  | receive u channel pumping next =>
    obtain ⟨-, -, hopen⟩ := BoundedChannel.receive_spec next
    refine ⟨?_, ?_, ?_, h.begun⟩
    · exact fun hdropped => h.dropped (hopen.symm.trans hdropped)
    · exact fun hended => hopen.trans (h.pumpEnded hended)
    · exact fun hleft => absurd pumping hleft
  | leaveLoop pumping cause => exact h.leaveLoop cause
  | signal notBegun => exact ⟨h.dropped, h.pumpEnded, fun _ => nofun, fun _ => nofun⟩
  | pumpJoined pumpEnded waiting => exact ⟨h.dropped, h.pumpEnded, h.stopped, fun _ => nofun⟩
  | captureJoined waiting ended => exact ⟨h.dropped, h.pumpEnded, h.stopped, fun _ => nofun⟩

theorem step (h : Leaving m) (hmove : Mirror.Moves p encoder fps bitrateKbps m m') :
    Leaving m' := by
  cases hmove with
  | capture _ move => exact h.capture move
  | locally _ move => exact h.locally move
  | sessionStopped stopping =>
    refine ⟨fun _ => nofun, fun _ => rfl, fun _ => ?_, h.begun⟩
    exact h.stopped (by rw [stopping]; nofun)

end Leaving

theorem leaving_of_reachable {m : Mirror σ} (h : Reachable p encoder fps bitrateKbps m) :
    Leaving m :=
  h.invariant (fun hs _ hstep => hs.step (Mirror.moves_of_step hstep)) leaving_init

/-! ### The task and the loop -/

theorem follows_init : Follows p encoder fps bitrateKbps {} := ⟨rfl, rfl⟩

/-- A move that leaves the capture task alone. -/
theorem Follows.congr {m m' : Mirror σ} (h : Follows p encoder fps bitrateKbps m)
    (hcapture : m'.capture = m.capture) (hframes : m'.frames = m.frames) (hrun : m'.run = m.run)
    (hstop : m'.stopSent = false → m.stopSent = false) : Follows p encoder fps bitrateKbps m' := by
  unfold Follows At Captured at h ⊢
  rw [hcapture, hframes, hrun]
  cases hc : m.capture with
  | ended =>
    rw [hc] at h
    obtain ⟨receiverOpen, capture, hcaptured, hopen, hloop⟩ := h
    exact ⟨receiverOpen, capture, hcaptured, fun hno => hopen (hstop hno), hloop⟩
  | _ =>
    rw [hc] at h
    exact h

theorem follows_locally {m m' : Mirror σ} (hleaving : Leaving m)
    (h : Follows p encoder fps bitrateKbps m) (hmove : Mirror.LocalMove p m m') :
    Follows p encoder fps bitrateKbps m' := by
  cases hmove with
  | send state clock u rest channel sending receiving room =>
    unfold Follows at h
    rw [sending] at h
    have hat := h.send channel
    cases rest <;> exact hat
  | sendFails state clock u rest sending dropped =>
    unfold Follows at h
    rw [sending] at h
    have hstop := hleaving.stopSent_of_live (by rw [sending]; rfl) (hleaving.dropped dropped)
    refine ⟨_, .ok m.frames, .inl rfl, fun hno => ?_, h.sendFails⟩
    dsimp only at hno
    rw [hstop] at hno
    cases hno
  | receive => exact h.congr rfl rfl rfl id
  | leaveLoop => cases p <;> exact h.congr rfl rfl rfl id
  | signal => exact h.congr rfl rfl rfl nofun
  | pumpJoined | captureJoined => exact h.congr rfl rfl rfl id

theorem follows_of_reachable {m : Mirror σ} (h : Reachable p encoder fps bitrateKbps m) :
    Leaving m ∧ Follows p encoder fps bitrateKbps m := by
  have hkeep : ∀ {m : Mirror σ} {a : Action} {m' : Mirror σ},
      Leaving m ∧ Follows p encoder fps bitrateKbps m → True →
        m.step p encoder fps bitrateKbps a = some m' →
          Leaving m' ∧ Follows p encoder fps bitrateKbps m' := by
    rintro m a m' ⟨hleaving, hfollows⟩ - hstep
    have hmove := Mirror.moves_of_step hstep
    refine ⟨hleaving.step hmove, ?_⟩
    cases hmove with
    | capture _ move => exact follows_capture hfollows move
    | locally _ move => exact follows_locally hleaving hfollows move
    | sessionStopped stopping => exact hfollows.congr rfl rfl rfl id
  exact h.invariant hkeep ⟨leaving_init, follows_init⟩

/-- Until it is stopped, a mirror whose pump has left its loop has run the whole
loop of its program over the capture's answer, with a receiver that is always
there, and has streamed every unit that this loop sends. -/
theorem unstopped_mirror_streams_loop {m : Mirror σ} (h : Reachable p encoder fps bitrateKbps m)
    (hunstopped : m.stopSent = false) (hleft : m.pump ≠ .pumping) :
    ∃ capture, Captured m capture ∧
      let run := p.captureEncodeLoop encoder (fun _ => true) capture fps bitrateKbps
      m.run = run ∧ demux PID_VIDEO m.session.live.sent.flatten = run.sent.map accessUnit := by
  obtain ⟨hleaving, hfollows⟩ := follows_of_reachable h
  have horder := inOrder_of_reachable h
  obtain ⟨hended, hqueue⟩ := hleaving.stopped hleft hunstopped
  unfold Follows at hfollows
  rw [CaptureTask.hasEnded_iff.mp hended] at hfollows
  obtain ⟨receiverOpen, capture, hcaptured, hopen, hrun⟩ := hfollows
  rw [hopen hunstopped] at hrun
  refine ⟨capture, hcaptured, hrun, ?_⟩
  rw [horder.streamed.1, ← hrun, ← horder.sent, BoundedChannel.sent, hqueue, List.append_nil]

/-- The capture ends after one frame, and the pump after its unit. -/
theorem unstopped_mirror_streams_loop_one :
    ∃ m : Mirror Unit, demux PID_VIDEO m.session.live.sent.flatten = [⟨[0, 0, 0, 1, 0x65], 0⟩] := by
  have hreach : Reachable .hcApp immediateEncoder 30 12000 _ := Reaches.of_run_met
    [.started (.ok ()), .frame (some (blankFrame 2 2)), .send, .frame none, .receive,
      .channelClosed] rfl
  obtain ⟨capture, hcaptured, hrun, hstream⟩ := unstopped_mirror_streams_loop hreach rfl nofun
  rw [← hrun] at hstream
  exact ⟨_, hstream⟩

end HorizonCast.Pipeline
