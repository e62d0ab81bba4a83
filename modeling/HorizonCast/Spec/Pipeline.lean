import HorizonCast.Lib.BoundedChannel
import HorizonCast.Lib.Transition
import HorizonCast.Spec.CaptureLoop
import HorizonCast.Spec.Demux
import HorizonCast.Spec.LiveMirror

/-! A live mirror from the capture to the stream: the capture task runs
`capture_encode_loop` and sends on a bounded channel, from which the pump feeds
the session (`start_mirror` and `teardown` of `hc-app/src/main.rs`, `run_mirror`
of `hc-cli/src/main.rs`). One `Action` is what one of them does between two
points at which another can run. -/

namespace HorizonCast.Pipeline

open Text

/-- The room of the channel between the capture task and the pump. -/
def CHANNEL_CAPACITY : ℕ := 120

/-- `hc-cli` drops the receiver as it leaves the loop, `hc-app` when the pump's
task has ended. -/
inductive Program where
  | hcApp | hcCli
  deriving DecidableEq, Repr

/-- How each program logs an error. -/
def Program.log : Program → Str → Str → LogLine
  | hcApp => .event
  | hcCli => fun message e => .text (message ++ ": ".toList ++ e)

def Program.captureEncodeLoop {σ : Type} : Program → H264Encoder σ → (ℕ → Bool) →
    Except Str (List CapturedFrame) → UInt32 → UInt32 → LoopRun
  | hcApp => HcApp.captureEncodeLoop
  | hcCli => HcCli.captureEncodeLoop

/-- The capture task: awaiting `ScreenCapture::start`, the first frame, a frame
of the loop, the `blocking_send` of a unit with more of them behind it, ended. -/
inductive CaptureTask (σ : Type) where
  | starting
  | awaitingFirst
  | awaitingFrame (state : σ) (clock : PtsClock)
  | sending (state : σ) (clock : PtsClock) (unit : EncodedFrame) (rest : List EncodedFrame)
  | ended

namespace CaptureTask

variable {σ : Type}

/-- The loop over the units that an `encode` returned. -/
def ofUnits (state : σ) (clock : PtsClock) : List EncodedFrame → CaptureTask σ
  | [] => awaitingFrame state clock
  | unit :: rest => sending state clock unit rest

/-- The units still to be sent. -/
def pending : CaptureTask σ → List EncodedFrame
  | sending _ _ unit rest => unit :: rest
  | _ => []

def hasEnded : CaptureTask σ → Bool
  | ended => true
  | _ => false

end CaptureTask

/-- The pump: in its loop, awaiting the session's `stop`, ended. -/
inductive PumpPhase where
  | pumping
  | stopping
  | ended
  deriving DecidableEq, Repr

/-- Who stops the mirror: not begun, awaiting the pump, awaiting the capture
task, done. -/
inductive Teardown where
  | notBegun
  | awaitingPump
  | awaitingCapture
  | done
  deriving DecidableEq, Repr

structure Mirror (σ : Type) where
  capture : CaptureTask σ := .starting
  channel : BoundedChannel EncodedFrame CHANNEL_CAPACITY := .new
  pump : PumpPhase := .pumping
  session : LiveMirrorSession := {}
  stopSent : Bool := false
  teardown : Teardown := .notBegun
  /-- The frames captured. The code does not keep them. -/
  frames : List CapturedFrame := []
  /-- What the capture task has done. The code does not keep it. -/
  run : LoopRun := { ended := .noFrame }

inductive Action where
  -- what the screen capture answers
  | started (result : Except Str Unit)
  | frame (next : Option CapturedFrame)
  -- the capture task
  | send
  -- the pump
  | receive
  | channelClosed
  | stopSignal
  -- `session.stop()` returns
  | sessionStopped
  -- who stops the mirror
  | signal
  | pumpJoined
  | captureJoined

/-- Whether an action waits neither for the capture nor for the renderer. -/
def Action.isLocal : Action → Bool
  | started _ | frame _ | sessionStopped => false
  | _ => true

namespace Mirror

variable {σ : Type} (p : Program) (encoder : H264Encoder σ) (fps bitrateKbps : UInt32)

/-- `ScreenCapture::start` returns. -/
def started (m : Mirror σ) : Except Str Unit → Mirror σ
  | .ok _ => { m with capture := .awaitingFirst }
  | .error e =>
    { m with
      capture := .ended
      run := { m.run with
        logged := m.run.logged ++ [p.log "screen capture unavailable".toList e]
        ended := .captureUnavailable } }

/-- A round of the loop, up to the first send. -/
def encode (m : Mirror σ) (state : σ) (clock : PtsClock) (f : CapturedFrame) : Mirror σ :=
  let (pts, clock) := clock.pts f.pts
  match encoder.encode state f pts with
  | (.ok units, state) =>
    { m with
      capture := .ofUnits state clock units
      run := { m.run with emitted := m.run.emitted ++ units } }
  | (.error e, state) =>
    { m with
      capture := .ended
      run := LoopRun.finish encoder
        { m.run with
          logged := m.run.logged ++ [p.log "encode error".toList e]
          ended := .encodeFailed } state }

/-- The first frame establishes the encoder's dimensions. -/
def firstFrame (m : Mirror σ) (first : CapturedFrame) : Mirror σ :=
  match encoder.new (.ofFirst first fps bitrateKbps) with
  | .error e =>
    { m with
      capture := .ended
      run := { m.run with
        logged := m.run.logged ++ [p.log "encoder init failed".toList e]
        ended := .encoderUnavailable } }
  | .ok state => m.encode p encoder state .new first

/-- `next_frame` returns. -/
def frame (m : Mirror σ) (next : Option CapturedFrame) : Option (Mirror σ) :=
  match m.capture, next with
  | .awaitingFirst, none => some { m with capture := .ended }
  | .awaitingFirst, some first =>
    some ({ m with frames := m.frames ++ [first] }.firstFrame p encoder fps bitrateKbps first)
  | .awaitingFrame state _, none =>
    some { m with
      capture := .ended
      run := LoopRun.finish encoder { m.run with ended := .captureEnded } state }
  | .awaitingFrame state clock, some f =>
    some ({ m with frames := m.frames ++ [f] }.encode p encoder state clock f)
  | _, _ => none

/-- `blocking_send` of the next unit; `none` while it blocks. -/
def send (m : Mirror σ) : Option (Mirror σ) :=
  match m.capture with
  | .sending state clock unit rest =>
    if m.channel.receiverOpen then
      (m.channel.send unit).map fun channel =>
        { m with
          channel
          capture := .ofUnits state clock rest
          run := { m.run with sent := m.run.sent ++ [unit] } }
    else some { m with capture := .ended, run := { m.run with ended := .receiverDropped } }
  | _ => none

/-- `rx.recv()` yields a unit. -/
def receive (m : Mirror σ) : Option (Mirror σ) :=
  if m.pump = .pumping then
    m.channel.receive.map fun (u, channel) =>
      { m with channel, session := m.session.pushAccessUnit u.data u.pts u.keyframe }
  else none

/-- The pump leaves its loop. -/
def leaveLoop (m : Mirror σ) : Mirror σ :=
  match p with
  | .hcApp => { m with pump := .stopping }
  | .hcCli => { m with pump := .stopping, channel := m.channel.dropReceiver }

def step (m : Mirror σ) : Action → Option (Mirror σ)
  | .started result =>
    match m.capture with
    | .starting => some (m.started p result)
    | _ => none
  | .frame next => m.frame p encoder fps bitrateKbps next
  | .send => m.send
  | .receive => m.receive
  | .channelClosed =>
    -- The sender is dropped as the capture task ends.
    if m.pump = .pumping ∧ m.channel.queue = [] ∧ m.capture.hasEnded then some (m.leaveLoop p)
    else none
  | .stopSignal =>
    if m.pump = .pumping ∧ m.stopSent then some (m.leaveLoop p) else none
  | .sessionStopped =>
    if m.pump = .stopping then
      some { m with pump := .ended, channel := m.channel.dropReceiver }
    else none
  | .signal =>
    if m.teardown = .notBegun then
      some { m with stopSent := true, teardown := .awaitingPump }
    else none
  | .pumpJoined =>
    -- `hc-cli` goes on by itself when the capture has ended.
    if m.pump = .ended ∧
        (m.teardown = .awaitingPump ∨ p = .hcCli ∧ m.teardown = .notBegun) then
      some { m with teardown := .awaitingCapture }
    else none
  | .captureJoined =>
    if m.teardown = .awaitingCapture ∧ m.capture.hasEnded then some { m with teardown := .done }
    else none

end Mirror

/-- The states of every run, whatever the capture and the renderer answer. -/
def Reachable {σ : Type} (p : Program) (encoder : H264Encoder σ) (fps bitrateKbps : UInt32)
    (m : Mirror σ) : Prop :=
  Transition.Reaches (Mirror.step p encoder fps bitrateKbps) (fun _ _ => True) {} m

/-- The call that pushes a unit. -/
def push (u : EncodedFrame) : Push := .video u.data u.pts u.keyframe

/-- The access unit that a receiver is to read. -/
def accessUnit (u : EncodedFrame) : AccessUnit := ⟨u.data, clock33 u.pts⟩

end HorizonCast.Pipeline
