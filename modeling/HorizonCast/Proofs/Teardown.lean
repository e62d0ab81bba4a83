import HorizonCast.Proofs.Pipeline

/-! The end of a live mirror. Once it is told to stop, what it does by itself is
bounded, and when it stands still it waits for the renderer's answer or for the
screen's next frame. Once the renderer has answered, nothing more is streamed. -/

namespace HorizonCast.Pipeline

open Transition

variable {σ : Type} {p : Program} {encoder : H264Encoder σ} {fps bitrateKbps : UInt32}

/-! ### What is left to do -/

/-- The capture task awaits an answer of the screen capture. -/
def CaptureTask.awaitsScreen : CaptureTask σ → Bool
  | starting | awaitingFirst | awaitingFrame .. => true
  | _ => false

/-- The steps of the pump to its end. -/
def PumpPhase.stepsLeft : PumpPhase → ℕ
  | pumping => 2
  | stopping => 1
  | ended => 0

/-- The steps of the teardown to its end. -/
def Teardown.stepsLeft : Teardown → ℕ
  | notBegun => 3
  | awaitingPump => 2
  | awaitingCapture => 1
  | done => 0

/-- The work that waits neither for the capture nor for the renderer: each unit
is sent and received. -/
def Mirror.work (m : Mirror σ) : ℕ :=
  2 * m.capture.pending.length + m.channel.queue.length + m.pump.stepsLeft + m.teardown.stepsLeft

theorem Mirror.LocalMove.work_lt {m m' : Mirror σ} (h : LocalMove p m m') : m'.work < m.work := by
  unfold work
  cases h with
  | send state clock u rest channel sending receiving room =>
    obtain ⟨-, hqueue, -⟩ := BoundedChannel.send_spec room
    rw [hqueue, sending, CaptureTask.pending_ofUnits, List.length_append]
    dsimp only [CaptureTask.pending, List.length_cons, List.length_nil]
    omega
  | sendFails state clock u rest sending dropped =>
    rw [sending]
    dsimp only [CaptureTask.pending, List.length_cons, List.length_nil]
    omega
  | receive u channel pumping next =>
    obtain ⟨hqueue, -, -⟩ := BoundedChannel.receive_spec next
    rw [hqueue, List.length_cons]
    dsimp only
    omega
  | leaveLoop pumping cause =>
    cases p
    all_goals
      rw [pumping]
      change 2 * m.capture.pending.length + m.channel.queue.length + 1 + m.teardown.stepsLeft <
        2 * m.capture.pending.length + m.channel.queue.length + 2 + m.teardown.stepsLeft
      omega
  | signal notBegun =>
    rw [notBegun]
    dsimp only [Teardown.stepsLeft]
    omega
  | pumpJoined pumpEnded waiting =>
    rcases waiting with waiting | waiting
    all_goals
      rw [waiting]
      dsimp only [Teardown.stepsLeft]
      omega
  | captureJoined waiting ended =>
    rw [waiting]
    dsimp only [Teardown.stepsLeft]
    omega

/-- A stop is not taken back. -/
theorem Mirror.LocalMove.stopSent {m m' : Mirror σ} (h : LocalMove p m m')
    (hstop : m.stopSent = true) : m'.stopSent = true := by
  cases h with
  | leaveLoop => cases p <;> exact hstop
  | signal => rfl
  | _ => exact hstop

/-! ### Who has been joined -/

/-- The teardown goes on as the tasks end, the pump's first. -/
structure Joined (m : Mirror σ) : Prop where
  pump : m.teardown = .awaitingCapture ∨ m.teardown = .done → m.pump = .ended
  capture : m.teardown = .done → m.capture.hasEnded = true

theorem joined_init : Joined ({} : Mirror σ) := ⟨nofun, nofun⟩

theorem Joined.step {m m' : Mirror σ} (h : Joined m)
    (hmove : Mirror.Moves p encoder fps bitrateKbps m m') : Joined m' := by
  cases hmove with
  | capture _ move =>
    obtain ⟨-, -, hpump, -, hteardown⟩ := move.frame_eq
    refine ⟨?_, fun hdone => ?_⟩
    · rw [hpump, hteardown]
      exact h.pump
    · have hended := h.capture (hteardown.symm.trans hdone)
      rw [captureMove_live move] at hended
      cases hended
  | sessionStopped stopping => exact ⟨fun _ => rfl, h.capture⟩
  | locally _ move =>
    cases move with
    | send state clock u rest channel sending =>
      refine ⟨h.pump, fun hdone => ?_⟩
      have hended := h.capture hdone
      rw [sending] at hended
      cases hended
    | sendFails => exact ⟨h.pump, fun _ => rfl⟩
    | receive => exact ⟨h.pump, h.capture⟩
    | leaveLoop pumping cause =>
      -- a pump that is joined has left its loop
      have hpump : (m.leaveLoop p).teardown = .awaitingCapture ∨
          (m.leaveLoop p).teardown = .done → (m.leaveLoop p).pump = .ended := by
        intro hjoined
        have hended := h.pump (by cases p <;> exact hjoined)
        rw [pumping] at hended
        cases hended
      exact ⟨hpump, by cases p <;> exact h.capture⟩
    | signal => exact ⟨nofun, nofun⟩
    | pumpJoined pumpEnded => exact ⟨fun _ => pumpEnded, nofun⟩
    | captureJoined waiting ended => exact ⟨fun _ => h.pump (.inl waiting), fun _ => ended⟩

theorem joined_of_reachable {m : Mirror σ} (h : Reachable p encoder fps bitrateKbps m) :
    Joined m :=
  h.invariant (fun hs _ hstep => hs.step (Mirror.moves_of_step hstep)) joined_init

/-! ### Standing still -/

/-- Nothing happens until the capture or the renderer answers. -/
def Mirror.Still (p : Program) (encoder : H264Encoder σ) (fps bitrateKbps : UInt32)
    (m : Mirror σ) : Prop :=
  ∀ a : Action, a.isLocal = true → m.step p encoder fps bitrateKbps a = none

/-- A stopped mirror that stands still is done, or it waits for the renderer or
for the screen. -/
theorem Mirror.Still.waits {m : Mirror σ} (h : m.Still p encoder fps bitrateKbps)
    (hleaving : Leaving m) (hstop : m.stopSent = true) :
    m.teardown = .done ∨ m.pump = .stopping ∨
      m.pump = .ended ∧ m.capture.awaitsScreen = true := by
  cases hpump : m.pump with
  | pumping =>
    have hstuck := h .stopSignal rfl
    simp [step, hpump, hstop] at hstuck
  | stopping => exact .inr (.inl rfl)
  | ended =>
    cases hcapture : m.capture with
    | starting | awaitingFirst | awaitingFrame => exact .inr (.inr ⟨rfl, rfl⟩)
    | sending state clock u rest =>
      have hstuck := h .send rfl
      simp [step, send, hcapture, hleaving.pumpEnded hpump] at hstuck
    | ended =>
      refine .inl ?_
      cases hteardown : m.teardown with
      | notBegun => exact absurd hteardown (hleaving.begun hstop)
      | awaitingPump =>
        have hstuck := h .pumpJoined rfl
        simp [step, hpump, hteardown] at hstuck
      | awaitingCapture =>
        have hstuck := h .captureJoined rfl
        simp [step, hcapture, hteardown, CaptureTask.hasEnded] at hstuck
      | done => rfl

/-- The steps of the capture task to its end, frames apart, when no receiver is there. -/
def CaptureTask.stepsLeft : CaptureTask σ → ℕ
  | starting => 2
  | awaitingFirst | awaitingFrame .. | sending .. => 1
  | ended => 0

/-- The steps to the end of a mirror whose pump has ended, frames apart. -/
def Mirror.stepsLeft (m : Mirror σ) : ℕ := m.capture.stepsLeft + m.teardown.stepsLeft

/-- The encoder answers each frame with a unit or an error. -/
def Answers (encoder : H264Encoder σ) : Prop :=
  ∀ state f pts, (encoder.encode state f pts).1 ≠ .ok []

/-- How the capture task goes from `m` to `m'`: it sends nothing, once a unit is emitted it
awaits no more frames, and neither does it when each frame is answered and one came. -/
structure LastUnit (encoder : H264Encoder σ) (m m' : Mirror σ) : Prop where
  sent : m'.run.sent = m.run.sent
  emitted : m'.run.emitted = m.run.emitted ∨ m'.capture.awaitsScreen = false
  frames : Answers encoder → m'.frames.length = m.frames.length ∨
    m'.frames.length = m.frames.length + 1 ∧ m'.capture.awaitsScreen = false

theorem LastUnit.refl (m : Mirror σ) : LastUnit encoder m m := ⟨rfl, .inl rfl, fun _ => .inl rfl⟩

/-- A task that awaits the screen has emitted nothing yet. -/
theorem LastUnit.trans {m m' m'' : Mirror σ} (h : LastUnit encoder m m')
    (hawaits : m'.capture.awaitsScreen = true) (h' : LastUnit encoder m' m'') :
    LastUnit encoder m m'' := by
  have hemitted := h.emitted.resolve_right (by simp [hawaits])
  refine ⟨h'.sent.trans h.sent, hemitted ▸ h'.emitted, fun hanswers => ?_⟩
  have hframes := (h.frames hanswers).resolve_right fun hone => by simp [hawaits] at hone
  exact hframes ▸ h'.frames hanswers

/-- The task goes on without a frame or a unit. -/
theorem LastUnit.congr {m m' m'' : Mirror σ} (h : LastUnit encoder m m')
    (hrun : m''.run.sent = m'.run.sent ∧ m''.run.emitted = m'.run.emitted)
    (hframes : m''.frames = m'.frames)
    (hawaits : m'.capture.awaitsScreen = false → m''.capture.awaitsScreen = false) :
    LastUnit encoder m m'' := by
  refine ⟨hrun.1.trans h.sent, ?_, fun hanswers => ?_⟩
  · rw [hrun.2]
    exact h.emitted.imp_right hawaits
  · rw [hframes]
    exact (h.frames hanswers).imp_right fun hone => ⟨hone.1, hawaits hone.2⟩

/-- A round of the loop takes one frame. -/
theorem encode_lastUnit (p : Program) (encoder : H264Encoder σ) (m : Mirror σ) (state : σ)
    (clock : PtsClock) (f : CapturedFrame) :
    let m' := ({ m with frames := m.frames ++ [f] } : Mirror σ).encode p encoder state clock f
    LastUnit encoder m m' ∧ m'.capture.stepsLeft ≤ 1 ∧
      m'.frames.length = m.frames.length + 1 := by
  unfold Mirror.encode
  dsimp only
  split
  case h_1 units next hencode =>
    refine ⟨⟨rfl, ?_, fun hanswers => .inr ⟨List.length_append, ?_⟩⟩, ?_, List.length_append⟩
    · cases units with
      | nil => exact .inl (List.append_nil _)
      | cons u rest => exact .inr rfl
    · cases units with
      | nil => exact absurd (by rw [hencode]) (hanswers state f (clock.pts f.pts).1)
      | cons u rest => rfl
    · cases units <;> exact Nat.le_refl 1
  case h_2 e next hencode =>
    rw [finish_eq]
    exact ⟨⟨rfl, .inr rfl, fun _ => .inr ⟨List.length_append, rfl⟩⟩, Nat.zero_le 1,
      List.length_append⟩

/-- A move of the capture task is one of its steps, or takes a frame. -/
theorem captureMove_lastUnit {m m' : Mirror σ}
    (h : Mirror.CaptureMove p encoder fps bitrateKbps m m') :
    m.capture.awaitsScreen = true ∧ LastUnit encoder m m' ∧
      m'.capture.stepsLeft + m.frames.length < m.capture.stepsLeft + m'.frames.length := by
  have hawaits : m.capture.awaitsScreen = true := by
    cases h with
    | start _ h | noFrame h | firstFrame _ h | captureEnds _ _ h | frame _ _ _ h =>
      rw [h]
      rfl
  refine ⟨hawaits, ?_⟩
  cases h with
  | start result starting =>
    have hsteps : m.capture.stepsLeft = 2 := by rw [starting]; rfl
    rw [hsteps]
    cases result with
    | ok _ =>
      exact ⟨⟨rfl, .inl rfl, fun _ => .inl rfl⟩, Nat.add_lt_add_right (Nat.lt_succ_self 1) _⟩
    | error e => exact ⟨⟨rfl, .inl rfl, fun _ => .inl rfl⟩, Nat.add_lt_add_right Nat.two_pos _⟩
  | noFrame awaiting =>
    have hsteps : m.capture.stepsLeft = 1 := by rw [awaiting]; rfl
    rw [hsteps]
    exact ⟨⟨rfl, .inl rfl, fun _ => .inl rfl⟩, Nat.add_lt_add_right Nat.one_pos _⟩
  | firstFrame first awaiting =>
    have hsteps : m.capture.stepsLeft = 1 := by rw [awaiting]; rfl
    rw [hsteps]
    unfold Mirror.firstFrame
    split
    · refine ⟨⟨rfl, .inl rfl, fun _ => .inr ⟨List.length_append, rfl⟩⟩, ?_⟩
      simp only [CaptureTask.stepsLeft, List.length_append, List.length_singleton]
      omega
    · rename_i state _
      obtain ⟨hlast, hsteps', hframes⟩ := encode_lastUnit p encoder m state .new
        first
      exact ⟨hlast, by omega⟩
  | captureEnds state clock awaiting =>
    have hsteps : m.capture.stepsLeft = 1 := by rw [awaiting]; rfl
    rw [hsteps, finish_eq]
    exact ⟨⟨rfl, .inr rfl, fun _ => .inl rfl⟩, Nat.add_lt_add_right Nat.one_pos _⟩
  | frame state clock f awaiting =>
    have hsteps : m.capture.stepsLeft = 1 := by rw [awaiting]; rfl
    rw [hsteps]
    obtain ⟨hlast, hsteps', hframes⟩ :=
      encode_lastUnit p encoder m state clock f
    exact ⟨hlast, by omega⟩

/-- The state after `steps` steps of a mirror whose pump had ended in `m`. -/
structure WindingDown (encoder : H264Encoder σ) (m : Mirror σ) (steps : ℕ) (t : Mirror σ) :
    Prop where
  pumpEnded : t.pump = .ended
  dropped : t.channel.receiverOpen = false
  session : t.session = m.session
  lastUnit : LastUnit encoder m t
  bounded : steps + t.stepsLeft + m.frames.length ≤ m.stepsLeft + t.frames.length

theorem WindingDown.step {m t t' : Mirror σ} {steps : ℕ} (h : WindingDown encoder m steps t)
    (hmove : Mirror.Moves p encoder fps bitrateKbps t t') :
    WindingDown encoder m (steps + 1) t' := by
  obtain ⟨hpump, hdropped, hsession, hlast, hbounded⟩ := h
  unfold Mirror.stepsLeft at hbounded
  cases hmove with
  | capture _ move =>
    obtain ⟨hchannel, hsame, hpump', -, hteardown⟩ := move.frame_eq
    obtain ⟨hawaits, hstep, hless⟩ := captureMove_lastUnit move
    refine ⟨hpump'.trans hpump, by rw [hchannel, hdropped], hsame.trans hsession,
      hlast.trans hawaits hstep, ?_⟩
    unfold Mirror.stepsLeft
    rw [hteardown]
    omega
  | sessionStopped stopping =>
    rw [hpump] at stopping
    cases stopping
  | locally _ move =>
    cases move with
    | send state clock u rest channel sending receiving =>
      rw [hdropped] at receiving
      cases receiving
    | sendFails state clock u rest sending =>
      refine ⟨hpump, hdropped, hsession, hlast.congr ⟨rfl, rfl⟩ rfl fun _ => rfl, ?_⟩
      rw [sending] at hbounded
      simp only [Mirror.stepsLeft, CaptureTask.stepsLeft] at hbounded ⊢
      omega
    | receive u channel pumping =>
      rw [hpump] at pumping
      cases pumping
    | leaveLoop pumping =>
      rw [hpump] at pumping
      cases pumping
    | signal notBegun =>
      refine ⟨hpump, hdropped, hsession, hlast.congr ⟨rfl, rfl⟩ rfl id, ?_⟩
      rw [notBegun] at hbounded
      simp only [Mirror.stepsLeft, Teardown.stepsLeft] at hbounded ⊢
      omega
    | pumpJoined pumpEnded waiting =>
      refine ⟨hpump, hdropped, hsession, hlast.congr ⟨rfl, rfl⟩ rfl id, ?_⟩
      rcases waiting with waiting | waiting
      all_goals
        rw [waiting] at hbounded
        simp only [Mirror.stepsLeft, Teardown.stepsLeft] at hbounded ⊢
        omega
    | captureJoined waiting =>
      refine ⟨hpump, hdropped, hsession, hlast.congr ⟨rfl, rfl⟩ rfl id, ?_⟩
      rw [waiting] at hbounded
      simp only [Mirror.stepsLeft, Teardown.stepsLeft] at hbounded ⊢
      omega

/-- When the renderer has answered, what is left is at most five steps and the frames that are
still captured. Nothing more is sent or streamed, and no frame is awaited after the next unit
of the encoder. With an encoder that answers each frame there are at most six steps. -/
theorem closed_mirror_winds_down {m m' : Mirror σ} (h : Reachable p encoder fps bitrateKbps m)
    (hended : m.pump = .ended) {as : List Action}
    (hrun : Transition.run (Mirror.step p encoder fps bitrateKbps) m as = some m') :
    as.length + m.frames.length ≤ 5 + m'.frames.length ∧
      m'.session.live.sent = m.session.live.sent ∧ m'.run.sent = m.run.sent ∧
      (m'.run.emitted ≠ m.run.emitted → m'.capture.awaitsScreen = false) ∧
      (Answers encoder → as.length ≤ 6) := by
  have hwinding : WindingDown encoder m as.length m' := by
    refine run_invariant (fun as t => WindingDown encoder m as.length t) ?_ ?_ hrun
    · exact ⟨hended, (leaving_of_reachable h).pumpEnded hended, rfl, .refl m,
        Nat.le_of_eq (by rw [List.length_nil, Nat.zero_add])⟩
    · intro as t a t' _ ht hstep
      rw [List.length_append, List.length_singleton]
      exact ht.step (Mirror.moves_of_step hstep)
  have hcapture : m.capture.stepsLeft ≤ 2 := by cases m.capture <;> simp [CaptureTask.stepsLeft]
  have hteardown : m.teardown.stepsLeft ≤ 3 := by cases m.teardown <;> simp [Teardown.stepsLeft]
  have hbounded := hwinding.bounded
  have hlength : as.length + m.frames.length ≤ 5 + m'.frames.length := by
    unfold Mirror.stepsLeft at hbounded
    omega
  refine ⟨hlength, by rw [hwinding.session], hwinding.lastUnit.sent, fun hnew =>
    hwinding.lastUnit.emitted.resolve_left hnew, fun hanswers => ?_⟩
  rcases hwinding.lastUnit.frames hanswers with hframes | ⟨hframes, -⟩ <;> omega

/-- A mirror from the renderer's answer on. While its encoder is priming, three frames go by
and nothing is sent or streamed; one that answers at once is not asked again. -/
theorem closed_mirror_winds_down_priming :
    (∃ m m' : Mirror (List EncodedFrame), m'.teardown = .done ∧
      m'.frames.length = m.frames.length + 3 ∧ m'.run.sent = m.run.sent ∧
      m'.session.live.sent = m.session.live.sent) ∧
    ∃ m m' : Mirror Unit, m.capture.awaitsScreen = true ∧ m'.run.emitted ≠ m.run.emitted ∧
      m'.run.sent = m.run.sent ∧ m'.capture.awaitsScreen = false := by
  have hpriming : Reachable .hcApp bufferingEncoder 30 12000 _ := Reaches.of_run_met
    [.started (.ok ()), .frame (some (blankFrame 2 2)), .signal, .stopSignal, .sessionStopped] rfl
  have hanswering : Reachable .hcApp immediateEncoder 30 12000 _ := Reaches.of_run_met
    [.started (.ok ()), .frame (some (blankFrame 2 2)), .send, .signal, .stopSignal,
      .sessionStopped] rfl
  let rest : List Action := List.replicate 3 (.frame (some (blankFrame 2 2))) ++
    [.frame none, .pumpJoined, .captureJoined]
  obtain ⟨-, hstream, hsent, -⟩ := closed_mirror_winds_down hpriming rfl
    (show Transition.run _ _ rest = some _ from rfl)
  obtain ⟨-, -, hsame, hends, -⟩ := closed_mirror_winds_down hanswering rfl
    (show Transition.run _ _ [.frame (some (blankFrame 2 2)), .send] = some _ from rfl)
  exact ⟨⟨_, _, rfl, rfl, hsent, hstream⟩, _, _, rfl, by decide, hsame, hends (by decide)⟩

end HorizonCast.Pipeline
