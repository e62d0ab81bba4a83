import HorizonCast.Spec.Encode

/-! `capture_encode_loop`, which `hc-app/src/main.rs` and `hc-cli/src/main.rs` have a copy
of each, over any capture and any encoder. -/

namespace HorizonCast

open Text

/-- What an encoder answers, whatever it buffers. An `encode` that fails may still change
its state. -/
structure H264Encoder (σ : Type) where
  new : EncoderConfig → Except Str σ
  encode : σ → CapturedFrame → UInt64 → Except Str (List EncodedFrame) × σ
  finish : σ → Except Str (List EncodedFrame)

/-- A line that is logged: an event with an error field, or a line of text. -/
inductive LogLine where
  | event (message error : Str)
  | text (line : Str)
  deriving DecidableEq, Repr

/-- How the loop came to its end. -/
inductive LoopEnd where
  | captureUnavailable
  | noFrame
  | encoderUnavailable
  | receiverDropped
  | encodeFailed
  | captureEnded
  deriving DecidableEq, Repr

structure LoopRun where
  /-- The units sent on the channel. -/
  sent : List EncodedFrame := []
  /-- The units that the encoder returned. The code does not keep them. -/
  emitted : List EncodedFrame := []
  logged : List LogLine := []
  ended : LoopEnd
  deriving DecidableEq, Repr

/-- `for u in units { tx.blocking_send(u) }` behind what was sent before; `false` when the
receiver is gone. `receiverOpen` tells of each send whether the receiver is there. -/
def sendUnits (receiverOpen : ℕ → Bool) :
    List EncodedFrame → List EncodedFrame → List EncodedFrame × Bool
  | [], sent => (sent, true)
  | u :: units, sent =>
    if receiverOpen sent.length then sendUnits receiverOpen units (sent ++ [u]) else (sent, false)

section Loop

variable {σ : Type} (log : Str → Str → LogLine) (encoder : H264Encoder σ)
  (receiverOpen : ℕ → Bool)

/-- `let _ = encoder.finish();` at the end of the run. -/
def LoopRun.finish (run : LoopRun) (state : σ) : LoopRun :=
  match encoder.finish state with
  | .ok units => { run with emitted := run.emitted ++ units }
  | .error _ => run

/-- The loop over the frames of the capture. -/
def encodeFrames : σ → PtsClock → List CapturedFrame → LoopRun → LoopRun
  | state, _, [], run => LoopRun.finish encoder { run with ended := .captureEnded } state
  | state, clock, f :: frames, run =>
    let (pts, clock) := clock.pts f.pts
    match encoder.encode state f pts with
    | (.ok units, state) =>
      let run := { run with emitted := run.emitted ++ units }
      match sendUnits receiverOpen units run.sent with
      | (sent, true) => encodeFrames state clock frames { run with sent }
      | (sent, false) => { run with sent, ended := .receiverDropped }
    | (.error e, state) =>
      LoopRun.finish encoder
        { run with
          logged := run.logged ++ [log "encode error".toList e]
          ended := .encodeFailed } state

/-- The loop of one program. `capture` is what starting it answers: the frames until the
capture ends. -/
def captureEncodeLoop (capture : Except Str (List CapturedFrame)) (fps bitrateKbps : UInt32) :
    LoopRun :=
  match capture with
  | .error e =>
    { logged := [log "screen capture unavailable".toList e], ended := .captureUnavailable }
  | .ok [] => { ended := .noFrame }
  | .ok (first :: rest) =>
    match encoder.new (.ofFirst first fps bitrateKbps) with
    | .error e => { logged := [log "encoder init failed".toList e], ended := .encoderUnavailable }
    | .ok state =>
      encodeFrames log encoder receiverOpen state .new (first :: rest) { ended := .noFrame }

end Loop

/-- The copy of `hc-app`. -/
def HcApp.captureEncodeLoop {σ : Type} (encoder : H264Encoder σ) (receiverOpen : ℕ → Bool) :
    Except Str (List CapturedFrame) → UInt32 → UInt32 → LoopRun :=
  HorizonCast.captureEncodeLoop .event encoder receiverOpen

/-- The copy of `hc-cli`. -/
def HcCli.captureEncodeLoop {σ : Type} (encoder : H264Encoder σ) (receiverOpen : ℕ → Bool) :
    Except Str (List CapturedFrame) → UInt32 → UInt32 → LoopRun :=
  HorizonCast.captureEncodeLoop (fun message e => .text (message ++ ": ".toList ++ e)) encoder
    receiverOpen

end HorizonCast
