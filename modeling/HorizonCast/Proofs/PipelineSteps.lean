import HorizonCast.Spec.Pipeline

/-! The steps of a live mirror, one by one: what each needs and the state it
leaves. -/

namespace HorizonCast.Pipeline

variable {σ : Type} {p : Program} {encoder : H264Encoder σ} {fps bitrateKbps : UInt32}

namespace CaptureTask

@[simp] theorem pending_ofUnits (state : σ) (clock : PtsClock) (units : List EncodedFrame) :
    (ofUnits state clock units).pending = units := by
  cases units <;> rfl

theorem hasEnded_iff {capture : CaptureTask σ} : capture.hasEnded = true ↔ capture = .ended := by
  cases capture <;> simp [hasEnded]

end CaptureTask

namespace Mirror

/-- The moves of the capture task. -/
inductive CaptureMove (p : Program) (encoder : H264Encoder σ) (fps bitrateKbps : UInt32)
    (m : Mirror σ) : Mirror σ → Prop where
  | start (result : Except Text.Str Unit) (starting : m.capture = .starting) :
      CaptureMove p encoder fps bitrateKbps m (m.started p result)
  | noFrame (awaiting : m.capture = .awaitingFirst) :
      CaptureMove p encoder fps bitrateKbps m { m with capture := .ended }
  | firstFrame (first : CapturedFrame) (awaiting : m.capture = .awaitingFirst) :
      CaptureMove p encoder fps bitrateKbps m
        ({ m with frames := m.frames ++ [first] }.firstFrame p encoder fps bitrateKbps first)
  | captureEnds (state : σ) (clock : PtsClock) (awaiting : m.capture = .awaitingFrame state clock) :
      CaptureMove p encoder fps bitrateKbps m
        { m with
          capture := .ended
          run := LoopRun.finish encoder { m.run with ended := .captureEnded } state }
  | frame (state : σ) (clock : PtsClock) (f : CapturedFrame)
      (awaiting : m.capture = .awaitingFrame state clock) :
      CaptureMove p encoder fps bitrateKbps m
        ({ m with frames := m.frames ++ [f] }.encode p encoder state clock f)

/-- The moves that wait neither for the capture nor for the renderer. -/
inductive LocalMove (p : Program) (m : Mirror σ) : Mirror σ → Prop where
  | send (state : σ) (clock : PtsClock) (u : EncodedFrame) (rest : List EncodedFrame)
      (channel : BoundedChannel EncodedFrame CHANNEL_CAPACITY)
      (sending : m.capture = .sending state clock u rest)
      (receiving : m.channel.receiverOpen = true) (room : m.channel.send u = some channel) :
      LocalMove p m
        { m with
          channel
          capture := .ofUnits state clock rest
          run := { m.run with sent := m.run.sent ++ [u] } }
  | sendFails (state : σ) (clock : PtsClock) (u : EncodedFrame) (rest : List EncodedFrame)
      (sending : m.capture = .sending state clock u rest)
      (dropped : m.channel.receiverOpen = false) :
      LocalMove p m { m with capture := .ended, run := { m.run with ended := .receiverDropped } }
  | receive (u : EncodedFrame) (channel : BoundedChannel EncodedFrame CHANNEL_CAPACITY)
      (pumping : m.pump = .pumping) (next : m.channel.receive = some (u, channel)) :
      LocalMove p m
        { m with channel, session := m.session.pushAccessUnit u.data u.pts u.keyframe }
  | leaveLoop (pumping : m.pump = .pumping)
      (cause : m.channel.queue = [] ∧ m.capture.hasEnded = true ∨ m.stopSent = true) :
      LocalMove p m (m.leaveLoop p)
  | signal (notBegun : m.teardown = .notBegun) :
      LocalMove p m { m with stopSent := true, teardown := .awaitingPump }
  | pumpJoined (pumpEnded : m.pump = .ended)
      (waiting : m.teardown = .awaitingPump ∨ m.teardown = .notBegun) :
      LocalMove p m { m with teardown := .awaitingCapture }
  | captureJoined (waiting : m.teardown = .awaitingCapture) (ended : m.capture.hasEnded = true) :
      LocalMove p m { m with teardown := .done }

/-- A step: a move of the capture task, a local one, or the end of the session. -/
inductive Moves (p : Program) (encoder : H264Encoder σ) (fps bitrateKbps : UInt32) (m : Mirror σ) :
    Mirror σ → Prop where
  | capture (m' : Mirror σ) (move : CaptureMove p encoder fps bitrateKbps m m') :
      Moves p encoder fps bitrateKbps m m'
  | locally (m' : Mirror σ) (move : LocalMove p m m') : Moves p encoder fps bitrateKbps m m'
  | sessionStopped (stopping : m.pump = .stopping) :
      Moves p encoder fps bitrateKbps m
        { m with pump := .ended, channel := m.channel.dropReceiver }

theorem frame_move {m m' : Mirror σ} {next : Option CapturedFrame}
    (h : m.frame p encoder fps bitrateKbps next = some m') :
    CaptureMove p encoder fps bitrateKbps m m' := by
  unfold frame at h
  split at h
  case h_1 hawaiting =>
    cases h
    exact .noFrame hawaiting
  case h_2 first hawaiting =>
    cases h
    exact .firstFrame first hawaiting
  case h_3 state clock hawaiting =>
    cases h
    exact .captureEnds state clock hawaiting
  case h_4 state clock f hawaiting =>
    cases h
    exact .frame state clock f hawaiting
  case h_5 => cases h

theorem send_move {m m' : Mirror σ} (h : m.send = some m') : LocalMove p m m' := by
  unfold send at h
  split at h
  case h_1 state clock u rest hsending =>
    split at h
    case isTrue hopen =>
      obtain ⟨channel, hroom, rfl⟩ := Option.map_eq_some_iff.mp h
      exact .send state clock u rest channel hsending hopen hroom
    case isFalse hdropped =>
      cases h
      exact .sendFails state clock u rest hsending (by simpa using hdropped)
  case h_2 => cases h

/-- What a local action does. -/
theorem local_move {m m' : Mirror σ} {a : Action} (hlocal : a.isLocal = true)
    (h : m.step p encoder fps bitrateKbps a = some m') : LocalMove p m m' := by
  cases a with
  | started | frame | sessionStopped => cases hlocal
  | send => exact send_move h
  | receive =>
    obtain ⟨hpumping, h⟩ := Option.ite_none_right_eq_some.mp h
    obtain ⟨⟨u, channel⟩, hnext, rfl⟩ := Option.map_eq_some_iff.mp h
    exact .receive u channel hpumping hnext
  | channelClosed =>
    obtain ⟨⟨hpumping, hclosed⟩, heq⟩ := Option.ite_none_right_eq_some.mp h
    cases heq
    exact .leaveLoop hpumping (.inl hclosed)
  | stopSignal =>
    obtain ⟨⟨hpumping, hstop⟩, heq⟩ := Option.ite_none_right_eq_some.mp h
    cases heq
    exact .leaveLoop hpumping (.inr hstop)
  | signal =>
    obtain ⟨hnot, heq⟩ := Option.ite_none_right_eq_some.mp h
    cases heq
    exact .signal hnot
  | pumpJoined =>
    obtain ⟨⟨hended, hwaiting⟩, heq⟩ := Option.ite_none_right_eq_some.mp h
    cases heq
    exact .pumpJoined hended (hwaiting.imp_right And.right)
  | captureJoined =>
    obtain ⟨⟨hwaiting, hended⟩, heq⟩ := Option.ite_none_right_eq_some.mp h
    cases heq
    exact .captureJoined hwaiting hended

/-- What a step does. -/
theorem moves_of_step {m m' : Mirror σ} {a : Action}
    (h : m.step p encoder fps bitrateKbps a = some m') : Moves p encoder fps bitrateKbps m m' := by
  cases a with
  | started result =>
    simp only [step] at h
    split at h
    · cases h
      exact .capture _ (.start result ‹_›)
    · cases h
  | frame next => exact .capture _ (frame_move h)
  | sessionStopped =>
    obtain ⟨hstopping, heq⟩ := Option.ite_none_right_eq_some.mp h
    cases heq
    exact .sessionStopped hstopping
  | _ => exact .locally _ (local_move rfl h)

/-! ### What a move leaves alone -/

theorem CaptureMove.frame_eq {m m' : Mirror σ} (h : CaptureMove p encoder fps bitrateKbps m m') :
    m'.channel = m.channel ∧ m'.session = m.session ∧ m'.pump = m.pump ∧
      m'.stopSent = m.stopSent ∧ m'.teardown = m.teardown := by
  have hencode : ∀ (m : Mirror σ) (state : σ) (clock : PtsClock) (f : CapturedFrame),
      let m' := m.encode p encoder state clock f
      m'.channel = m.channel ∧ m'.session = m.session ∧ m'.pump = m.pump ∧
        m'.stopSent = m.stopSent ∧ m'.teardown = m.teardown := by
    intro m state clock f
    unfold encode
    dsimp only
    split <;> exact ⟨rfl, rfl, rfl, rfl, rfl⟩
  cases h with
  | start result starting => cases result <;> exact ⟨rfl, rfl, rfl, rfl, rfl⟩
  | noFrame | captureEnds => exact ⟨rfl, rfl, rfl, rfl, rfl⟩
  | firstFrame first awaiting =>
    unfold Mirror.firstFrame
    split
    · exact ⟨rfl, rfl, rfl, rfl, rfl⟩
    · exact hencode { m with frames := m.frames ++ [first] } _ _ _
  | frame state clock f awaiting => exact hencode { m with frames := m.frames ++ [f] } _ _ _

end Mirror

end HorizonCast.Pipeline
