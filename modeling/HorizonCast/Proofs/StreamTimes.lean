import HorizonCast.Proofs.Clock
import HorizonCast.Proofs.Pipeline

/-! The times of a live mirror, from the screen to the receiver: the units of the
stream are at the stream times of the frames, in the order of their capture, as far as the
encoder keeps them. -/

namespace HorizonCast.Pipeline

open Transition

variable {σ : Type} {p : Program} {encoder : H264Encoder σ} {fps bitrateKbps : UInt32}

/-- A comparison of what came out with what went in that can be made piece by piece. -/
structure Piecewise {α : Type} (R : List α → List α → Prop) : Prop where
  refl : ∀ l, R l l
  trans : ∀ {a b c}, R a b → R b c → R a c
  append : ∀ {a b c d}, R a b → R c d → R (a ++ c) (b ++ d)

theorem piecewise_eq {α : Type} : Piecewise (Eq : List α → List α → Prop) where
  refl _ := rfl
  trans := Eq.trans
  append h h' := by rw [h, h']

theorem piecewise_sublist {α : Type} : Piecewise (List.Sublist : List α → List α → Prop) where
  refl := List.Sublist.refl
  trans := List.Sublist.trans
  append := List.Sublist.append

/-- Piece by piece, the encoder emits the times that it is given, each of them shifted.
`held` are those that it may still emit. -/
structure HandsOn (R : List UInt64 → List UInt64 → Prop) (shift : UInt64 → UInt64)
    (encoder : H264Encoder σ) (held : σ → List UInt64) : Prop where
  new : ∀ {config state}, encoder.new config = .ok state → held state = []
  encode : ∀ {state f pts units next}, encoder.encode state f pts = (.ok units, next) →
    R (units.map EncodedFrame.pts ++ held next) (held state ++ [shift pts])

/-- The encoder emits one unit for each frame, in the order of the frames and with
their times. `held` are the times of the frames that it has not answered yet. -/
def KeepsTimes (encoder : H264Encoder σ) (held : σ → List UInt64) : Prop :=
  HandsOn Eq id encoder held

/-- The clock after these frames, and the times it gave them. -/
def clockAfter (frames : List CapturedFrame) : List UInt64 × PtsClock :=
  PtsClock.new.run (frames.map CapturedFrame.pts)

theorem run_concat (self : PtsClock) (ts : List Duration) (t : Duration) :
    self.run (ts ++ [t]) =
      ((self.run ts).1 ++ [((self.run ts).2.pts t).1], ((self.run ts).2.pts t).2) := by
  induction ts generalizing self with
  | nil => rfl
  | cons a ts ih =>
    simp only [List.cons_append, PtsClock.run, ih]

theorem clockAfter_concat (frames : List CapturedFrame) (f : CapturedFrame) :
    clockAfter (frames ++ [f]) =
      ((clockAfter frames).1 ++ [((clockAfter frames).2.pts f.pts).1],
        ((clockAfter frames).2.pts f.pts).2) := by
  unfold clockAfter
  rw [List.map_append]
  exact run_concat _ _ _

/-- The times of the units sent and about to be sent. -/
def Mirror.times (m : Mirror σ) : List UInt64 :=
  (m.run.sent ++ m.capture.pending).map EncodedFrame.pts

/-- The times of the frames, as the encoder shifts them. -/
def Mirror.shifted (m : Mirror σ) (shift : UInt64 → UInt64) : List UInt64 :=
  (clockAfter m.frames).1.map shift

section Times

variable {R : List UInt64 → List UInt64 → Prop} {shift : UInt64 → UInt64}
  {held : σ → List UInt64} {m m' : Mirror σ}

/-- What the capture task has sent and the encoder holds is what they make of the frames. -/
def Timed (R : List UInt64 → List UInt64 → Prop) (shift : UInt64 → UInt64)
    (held : σ → List UInt64) (m : Mirror σ) : Prop :=
  match m.capture with
  | .starting | .awaitingFirst => m.frames = [] ∧ m.run.sent = []
  | .awaitingFrame state clock | .sending state clock _ _ =>
    R (m.times ++ held state) (m.shifted shift) ∧ (clockAfter m.frames).2 = clock
  | .ended => ∃ rest, R (m.times ++ rest) (m.shifted shift)

theorem timed_init : Timed R shift held ({} : Mirror σ) := ⟨rfl, rfl⟩

theorem Timed.times_le (hR : Piecewise R) (h : Timed R shift held m) :
    ∃ rest, R (m.times ++ rest) (m.shifted shift) := by
  unfold Timed at h
  split at h
  case h_1 hc | h_2 hc =>
    refine ⟨[], ?_⟩
    rw [Mirror.times, Mirror.shifted, hc, h.1, h.2]
    exact hR.refl _
  case h_3 | h_4 => exact ⟨_, h.1⟩
  case h_5 => exact h

/-- Where the units about to be sent are lost, the rest is longer. -/
theorem le_of_lost {pending : List EncodedFrame}
    (h : ∃ rest, R ((m.run.sent ++ pending).map EncodedFrame.pts ++ rest) (m.shifted shift)) :
    ∃ rest, R ((m.run.sent ++ []).map EncodedFrame.pts ++ rest) (m.shifted shift) := by
  obtain ⟨rest, hrest⟩ := h
  refine ⟨pending.map EncodedFrame.pts ++ rest, ?_⟩
  rwa [List.append_nil, ← List.append_assoc, ← List.map_append]

/-- A round of the loop, with the clock and the encoder before the frame. -/
theorem timed_encode (hR : Piecewise R) (hon : HandsOn R shift encoder held)
    {frames : List CapturedFrame} {state : σ} {clock : PtsClock} {f : CapturedFrame}
    (hframes : m.frames = frames ++ [f])
    (hbefore : R (m.run.sent.map EncodedFrame.pts ++ held state)
      ((clockAfter frames).1.map shift)) (hclock : (clockAfter frames).2 = clock) :
    Timed R shift held (m.encode p encoder state clock f) := by
  have hafter := clockAfter_concat frames f
  rw [hclock, ← hframes] at hafter
  have hshifted : m.shifted shift =
      (clockAfter frames).1.map shift ++ [shift (clock.pts f.pts).1] := by
    rw [Mirror.shifted, hafter, List.map_append, List.map_singleton]
  have hgiven : R (m.run.sent.map EncodedFrame.pts ++
      (held state ++ [shift (clock.pts f.pts).1])) (m.shifted shift) := by
    rw [hshifted, ← List.append_assoc]
    exact hR.append hbefore (hR.refl _)
  unfold Mirror.encode
  dsimp only
  split
  case h_1 units next hencode =>
    have hnext : R ((m.run.sent ++ units).map EncodedFrame.pts ++ held next)
        (m.shifted shift) := by
      rw [List.map_append, List.append_assoc]
      exact hR.trans (hR.append (hR.refl _) (hon.encode hencode)) hgiven
    have hclock' : (clockAfter m.frames).2 = (clock.pts f.pts).2 := by rw [hafter]
    cases units with
    | nil => exact ⟨hnext, hclock'⟩
    | cons u rest => exact ⟨hnext, hclock'⟩
  case h_2 =>
    rw [finish_eq]
    refine ⟨held state ++ [shift (clock.pts f.pts).1], ?_⟩
    change R ((m.run.sent ++ []).map EncodedFrame.pts ++ _) (m.shifted shift)
    rw [List.append_nil]
    exact hgiven

theorem timed_capture (hR : Piecewise R) (hon : HandsOn R shift encoder held)
    (h : Timed R shift held m) (hmove : Mirror.CaptureMove p encoder fps bitrateKbps m m') :
    Timed R shift held m' := by
  have hle := h.times_le hR
  unfold Timed at h
  cases hmove with
  | start result starting =>
    rw [starting] at h
    cases result with
    | ok _ => exact h
    | error e =>
      rw [Mirror.times, starting] at hle
      exact hle
  | noFrame awaiting =>
    rw [Mirror.times, awaiting] at hle
    exact hle
  | firstFrame first awaiting =>
    rw [awaiting] at h
    have hnone : R (m.run.sent.map EncodedFrame.pts ++ []) ((clockAfter []).1.map shift) := by
      rw [h.2]
      exact hR.refl []
    unfold Mirror.firstFrame
    split
    case h_1 =>
      refine ⟨({ m with frames := m.frames ++ [first] } : Mirror σ).shifted shift, ?_⟩
      change R ((m.run.sent ++ []).map EncodedFrame.pts ++ _) _
      rw [h.2]
      exact hR.refl _
    case h_2 state hnew =>
      refine timed_encode hR hon (by rw [h.1]) ?_ rfl
      rw [hon.new hnew]
      exact hnone
  | captureEnds state clock awaiting =>
    rw [Mirror.times, awaiting] at hle
    rw [finish_eq]
    exact hle
  | frame state clock f awaiting =>
    have hpending : m.capture.pending = [] := by
      rw [awaiting]
      rfl
    rw [awaiting, Mirror.times, hpending, List.append_nil] at h
    exact timed_encode hR hon rfl h.1 h.2

theorem timed_locally (hR : Piecewise R) (h : Timed R shift held m)
    (hmove : Mirror.LocalMove p m m') : Timed R shift held m' := by
  have hle := h.times_le hR
  unfold Timed at h
  cases hmove with
  | send state clock u rest channel sending receiving room =>
    rw [Mirror.times, sending] at h
    have hnext : R ((m.run.sent ++ [u] ++ rest).map EncodedFrame.pts ++ held state)
        (m.shifted shift) := by
      rw [List.append_assoc]
      exact h.1
    cases rest <;> exact ⟨hnext, h.2⟩
  | sendFails state clock u rest sending dropped => exact le_of_lost hle
  | leaveLoop => cases p <;> exact h
  | receive | signal | pumpJoined | captureJoined => exact h

theorem timed_of_reachable (hR : Piecewise R) (hon : HandsOn R shift encoder held)
    (h : Reachable p encoder fps bitrateKbps m) : Timed R shift held m := by
  have hkeep : ∀ {m : Mirror σ} {a : Action} {m' : Mirror σ}, Timed R shift held m → True →
      m.step p encoder fps bitrateKbps a = some m' → Timed R shift held m' := by
    intro m a m' htimed _ hstep
    cases Mirror.moves_of_step hstep with
    | capture _ move => exact timed_capture hR hon htimed move
    | locally _ move => exact timed_locally hR htimed move
    | sessionStopped => exact htimed
  exact h.invariant hkeep timed_init

/-- The times that a receiver reads come first in what the encoder makes of the frames' times,
however capture, channel and pump take turns. -/
theorem stream_hands_on (hR : Piecewise R) (hon : HandsOn R shift encoder held)
    (h : Reachable p encoder fps bitrateKbps m) :
    ∃ read rest, (demux PID_VIDEO m.session.live.sent.flatten).map AccessUnit.pts =
        read.map clock33 ∧ R (read ++ rest) (m.shifted shift) := by
  have horder := inOrder_of_reachable h
  obtain ⟨later, hlater⟩ : m.channel.received <+: m.run.sent ++ m.capture.pending := by
    rw [← horder.sent]
    exact m.channel.received_prefix.trans (List.prefix_append _ _)
  obtain ⟨rest, hrest⟩ := (timed_of_reachable hR hon h).times_le hR
  rw [Mirror.times, ← hlater, List.map_append, List.append_assoc] at hrest
  refine ⟨m.channel.received.map EncodedFrame.pts, _, ?_, hrest⟩
  rw [horder.streamed.1, List.map_map, List.map_map]
  rfl

end Times

/-! ### The times of the frames -/

/-- The times of the clock are the stream times of the frames. -/
theorem clockAfter_streamTime (frames : List CapturedFrame) :
    (clockAfter frames).1.map UInt64.toNat =
      frames.map fun f => streamTime (frames.map CapturedFrame.pts) f.pts := by
  have hclock := run_streamTime (frames.map CapturedFrame.pts)
  rw [List.map_map] at hclock
  exact hclock

theorem mem_clockAfter {frames : List CapturedFrame} {pts : UInt64}
    (h : pts ∈ (clockAfter frames).1) :
    ∃ f ∈ frames, pts.toNat = streamTime (frames.map CapturedFrame.pts) f.pts := by
  have hmem := List.mem_map_of_mem (f := UInt64.toNat) h
  rw [clockAfter_streamTime] at hmem
  obtain ⟨f, hf, htime⟩ := List.mem_map.mp hmem
  exact ⟨f, hf, htime.symm⟩

/-- What a receiver reads of the shifted times. -/
theorem map_shifted (shift : UInt64 → UInt64) (back : ℕ → ℕ) {frames : List CapturedFrame}
    (h : ∀ pts ∈ (clockAfter frames).1, (shift pts).toNat = back pts.toNat) :
    ((clockAfter frames).1.map shift).map clock33 =
      frames.map fun f => back (streamTime (frames.map CapturedFrame.pts) f.pts) % 2 ^ 33 := by
  have hback := congrArg (List.map fun n => back n % 2 ^ 33) (clockAfter_streamTime frames)
  rw [List.map_map, List.map_map] at hback
  have hread : (clockAfter frames).1.map (clock33 ∘ shift) =
      (clockAfter frames).1.map ((fun n => back n % 2 ^ 33) ∘ UInt64.toNat) :=
    List.map_congr_left fun pts hpts => congrArg (· % 2 ^ 33) (h pts hpts)
  rw [List.map_map, hread, hback]
  rfl

/-- Behind an encoder that keeps the times, a receiver reads the units of the
stream at the stream times of the frames, frame by frame in the order of their
capture, however capture, channel and pump take turns. -/
theorem stream_keeps_times {held : σ → List UInt64} (hkeeps : KeepsTimes encoder held)
    {m : Mirror σ} (h : Reachable p encoder fps bitrateKbps m) :
    let times := m.frames.map CapturedFrame.pts
    (demux PID_VIDEO m.session.live.sent.flatten).map AccessUnit.pts <+:
      times.map fun t => streamTime times t % 2 ^ 33 := by
  obtain ⟨read, rest, hread, hall⟩ := stream_hands_on piecewise_eq hkeeps h
  have hgoal := map_shifted id id fun (pts : UInt64) (_ : pts ∈ (clockAfter m.frames).1) => rfl
  rw [← Mirror.shifted, ← hall, List.map_append] at hgoal
  intro times
  rw [hread, List.map_map]
  exact ⟨_, hgoal⟩

theorem keepsTimes_immediate : KeepsTimes immediateEncoder (fun _ => []) where
  new _ := rfl
  encode hencode := by
    cases hencode
    rfl

/-- A second frame is captured half a second after the first. -/
theorem stream_keeps_times_second : ∃ m : Mirror Unit, m.session.live.sent.length = 2 ∧
    (demux PID_VIDEO m.session.live.sent.flatten).map AccessUnit.pts <+: [0, 45000] := by
  have hreach : Reachable .hcApp immediateEncoder 30 12000 _ := Reaches.of_run_met
    [.started (.ok ()), .frame (some (blankFrame 2 2)), .send,
      .frame (some { blankFrame 2 2 with pts := ⟨500000000, by decide⟩ }), .send, .receive,
      .receive] rfl
  exact ⟨_, rfl, stream_keeps_times keepsTimes_immediate hreach⟩

end HorizonCast.Pipeline
