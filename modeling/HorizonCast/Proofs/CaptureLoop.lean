import HorizonCast.Proofs.FrameCopy
import HorizonCast.Spec.CaptureLoop

/-! Which of the units an encoder emits reach the channel: those of every `encode`, and none
of those of `finish`. -/

namespace HorizonCast

open Text

variable {σ : Type} {log : Str → Str → LogLine} {encoder : H264Encoder σ} {receiverOpen : ℕ → Bool}

namespace H264Encoder

/-- The state after the frames. -/
def after (encoder : H264Encoder σ) : σ → PtsClock → List CapturedFrame → σ
  | state, _, [] => state
  | state, clock, f :: frames =>
    encoder.after (encoder.encode state f (clock.pts f.pts).1).2 (clock.pts f.pts).2 frames

/-- The units that `finish` emits; a `finish` that fails emits none. -/
def flushed (encoder : H264Encoder σ) (state : σ) : List EncodedFrame :=
  match encoder.finish state with
  | .ok units => units
  | .error _ => []

/-- The units that the encoder still holds when all frames are in. -/
def heldBack (encoder : H264Encoder σ) (frames : List CapturedFrame) (fps bitrateKbps : UInt32) :
    List EncodedFrame :=
  match frames with
  | [] => []
  | first :: _ =>
    match encoder.new (.ofFirst first fps bitrateKbps) with
    | .ok state => encoder.flushed (encoder.after state .new frames)
    | .error _ => []

end H264Encoder

theorem finish_eq (run : LoopRun) (state : σ) :
    run.finish encoder state = { run with emitted := run.emitted ++ encoder.flushed state } := by
  unfold LoopRun.finish H264Encoder.flushed
  cases encoder.finish state with
  | ok units => rfl
  | error e =>
    rw [List.append_nil]

/-- As long as the receiver is there, all units are sent, in order. -/
theorem sendUnits_eq {units sent sent' : List EncodedFrame}
    (h : sendUnits receiverOpen units sent = (sent', true)) : sent' = sent ++ units := by
  induction units generalizing sent with
  | nil =>
    cases h
    rw [List.append_nil]
  | cons u units ih =>
    rw [sendUnits] at h
    split_ifs at h
    · rw [ih h, List.append_assoc, List.singleton_append]
    · cases h

/-- When the capture has ended, what was not sent is what `finish` emitted. -/
theorem encodeFrames_emitted {state : σ} {clock : PtsClock} {frames : List CapturedFrame}
    {run : LoopRun} (hrun : run.emitted = run.sent)
    (h : (encodeFrames log encoder receiverOpen state clock frames run).ended = .captureEnded) :
    (encodeFrames log encoder receiverOpen state clock frames run).emitted =
      (encodeFrames log encoder receiverOpen state clock frames run).sent ++
        encoder.flushed (encoder.after state clock frames) := by
  induction frames generalizing state clock run with
  | nil =>
    rw [encodeFrames, finish_eq]
    exact congrArg (· ++ _) hrun
  | cons f frames ih =>
    rw [encodeFrames] at h ⊢
    rw [H264Encoder.after]
    cases hencode : encoder.encode state f (clock.pts f.pts).1 with
    | mk result next =>
      simp only [hencode] at h ⊢
      cases result with
      | error e =>
        dsimp only at h
        rw [finish_eq] at h
        cases h
      | ok units =>
        cases hsend : sendUnits receiverOpen units run.sent with
        | mk sent complete =>
          simp only [hsend] at h ⊢
          cases complete with
          | false => cases h
          | true =>
            refine ih ?_ h
            rw [sendUnits_eq hsend, hrun]

theorem captureEncodeLoop_emitted {frames : List CapturedFrame} {fps bitrateKbps : UInt32}
    (h : frames = [] ∨ (captureEncodeLoop log encoder receiverOpen (.ok frames) fps
      bitrateKbps).ended = .captureEnded) :
    (captureEncodeLoop log encoder receiverOpen (.ok frames) fps bitrateKbps).emitted =
      (captureEncodeLoop log encoder receiverOpen (.ok frames) fps bitrateKbps).sent ++
        encoder.heldBack frames fps bitrateKbps := by
  cases frames with
  | nil => rfl
  | cons first rest =>
    replace h := h.resolve_left (List.cons_ne_nil first rest)
    unfold captureEncodeLoop at h ⊢
    unfold H264Encoder.heldBack
    cases hnew : encoder.new (.ofFirst first fps bitrateKbps) with
    | error e =>
      simp only [hnew] at h
      cases h
    | ok state =>
      simp only [hnew] at h ⊢
      exact encodeFrames_emitted rfl h

/-- Nothing fails: the encoder starts, takes every frame, and the receiver is there. -/
structure Undisturbed (encoder : H264Encoder σ) (receiverOpen : ℕ → Bool) : Prop where
  starts : ∀ config, ∃ state, encoder.new config = .ok state
  encodes : ∀ state f pts, ∃ units, (encoder.encode state f pts).1 = .ok units
  receives : ∀ n, receiverOpen n = true

theorem Undisturbed.sendUnits (h : Undisturbed encoder receiverOpen)
    (units sent : List EncodedFrame) :
    (HorizonCast.sendUnits receiverOpen units sent).2 = true := by
  induction units generalizing sent with
  | nil => rfl
  | cons u units ih =>
    rw [HorizonCast.sendUnits, if_pos (h.receives sent.length)]
    exact ih (sent ++ [u])

/-- Then the loop goes on to the end of the capture. -/
theorem Undisturbed.encodeFrames_ended (h : Undisturbed encoder receiverOpen) {state : σ}
    {clock : PtsClock} {frames : List CapturedFrame} {run : LoopRun} :
    (encodeFrames log encoder receiverOpen state clock frames run).ended = .captureEnded := by
  induction frames generalizing state clock run with
  | nil => rw [encodeFrames, finish_eq]
  | cons f frames ih =>
    rw [encodeFrames]
    obtain ⟨units, hunits⟩ := h.encodes state f (clock.pts f.pts).1
    cases hencode : encoder.encode state f (clock.pts f.pts).1 with
    | mk result next =>
      rw [hencode] at hunits
      cases hsend : HorizonCast.sendUnits receiverOpen units run.sent with
      | mk sent complete =>
        obtain rfl : result = .ok units := hunits
        obtain rfl : complete = true := by simpa [hsend] using h.sendUnits units run.sent
        simp only [hencode, hsend]
        exact ih

theorem Undisturbed.captureEncodeLoop_ended (h : Undisturbed encoder receiverOpen)
    {frames : List CapturedFrame} (hne : frames ≠ []) (fps bitrateKbps : UInt32) :
    (captureEncodeLoop log encoder receiverOpen (.ok frames) fps bitrateKbps).ended =
      .captureEnded := by
  obtain ⟨first, rest, rfl⟩ := List.exists_cons_of_ne_nil hne
  obtain ⟨state, hnew⟩ := h.starts (.ofFirst first fps bitrateKbps)
  simp only [captureEncodeLoop, hnew]
  exact h.encodeFrames_ended

/-- The copies of the loop in the two programs. -/
def loops (encoder : H264Encoder σ) (receiverOpen : ℕ → Bool) :
    List (Except Str (List CapturedFrame) → UInt32 → UInt32 → LoopRun) :=
  [HcApp.captureEncodeLoop encoder receiverOpen, HcCli.captureEncodeLoop encoder receiverOpen]

/-- A run in which nothing fails goes on to the end of the capture. In a run to the end of
the capture, both copies send all units that the encoder emits, in order and once each, just
when `finish` emits none. -/
theorem units_delivered_iff (encoder : H264Encoder σ) (receiverOpen : ℕ → Bool)
    (frames : List CapturedFrame) (fps bitrateKbps : UInt32) :
    ∀ loop ∈ loops encoder receiverOpen,
      let run := loop (.ok frames) fps bitrateKbps
      (Undisturbed encoder receiverOpen → frames = [] ∨ run.ended = .captureEnded) ∧
        (frames = [] ∨ run.ended = .captureEnded →
          (run.sent = run.emitted ↔ encoder.heldBack frames fps bitrateKbps = [])) := by
  intro loop hloop run
  simp only [loops, List.mem_cons, List.not_mem_nil, or_false] at hloop
  refine ⟨fun hquiet => ?_, fun hend => ?_⟩
  · by_cases hne : frames = []
    · exact .inl hne
    · right
      rcases hloop with rfl | rfl
      all_goals exact hquiet.captureEncodeLoop_ended hne fps bitrateKbps
  · have hemitted : run.emitted = run.sent ++ encoder.heldBack frames fps bitrateKbps := by
      rcases hloop with rfl | rfl
      all_goals exact captureEncodeLoop_emitted hend
    rw [hemitted, List.self_eq_append_right]

/-- An encoder that keeps every unit until `finish`. -/
def bufferingEncoder : H264Encoder (List EncodedFrame) where
  new _ := .ok []
  encode held _ pts := (.ok [], held ++ [⟨[0, 0, 0, 1, 0x65], pts, true⟩])
  finish held := .ok held

/-- An encoder that keeps nothing. -/
def immediateEncoder : H264Encoder Unit where
  new _ := .ok ()
  encode _ _ pts := (.ok [⟨[0, 0, 0, 1, 0x65], pts, true⟩], ())
  finish _ := .ok []

/-- Three frames, one unit for each. -/
theorem units_delivered_immediate :
    let run := HcApp.captureEncodeLoop immediateEncoder (fun _ => true)
      (.ok (List.replicate 3 (blankFrame 2 2))) 30 1
    run.sent = run.emitted ∧ run.sent.length = 3 := by
  have hquiet : Undisturbed immediateEncoder fun _ => true :=
    ⟨fun _ => ⟨(), rfl⟩, fun _ _ _ => ⟨_, rfl⟩, fun _ => rfl⟩
  obtain ⟨hends, hdelivered⟩ := units_delivered_iff immediateEncoder (fun _ => true)
    (List.replicate 3 (blankFrame 2 2)) 30 1
    (HcApp.captureEncodeLoop immediateEncoder fun _ => true) (by simp [loops])
  exact ⟨(hdelivered (hends hquiet)).mpr rfl, rfl⟩

/-- One frame is captured, and its unit comes with `finish`. -/
theorem flushed_unit_lost :
    let unit : EncodedFrame := ⟨[0, 0, 0, 1, 0x65], 0, true⟩
    let lost (run : LoopRun) := run.ended = .captureEnded ∧ run.sent = [] ∧ run.emitted = [unit]
    lost (HcApp.captureEncodeLoop bufferingEncoder (fun _ => true) (.ok [blankFrame 2 2]) 30 1) ∧
      lost (HcCli.captureEncodeLoop bufferingEncoder (fun _ => true) (.ok [blankFrame 2 2]) 30 1) :=
  ⟨⟨rfl, rfl, rfl⟩, rfl, rfl, rfl⟩

end HorizonCast
