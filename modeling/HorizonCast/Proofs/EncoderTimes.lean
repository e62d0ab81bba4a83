import HorizonCast.Proofs.StreamTimes
import HorizonCast.Proofs.TimeBase
import HorizonCast.Proofs.Keyframes
import HorizonCast.Spec.Backends

/-! The times of a live mirror on each platform. Media Foundation gives every frame back
at its time or one tick before it; VideoToolbox gives back the frames that it does not
drop, at their times. -/

namespace HorizonCast

open Pipeline Text

/-! ### Media Foundation -/

section MediaFoundation

variable {τ : Type} {mf : IMFTransform τ} {held : τ → List Sample} {t t' : τ}

/-- A transform that gives out a sample for each one that went in, in the same order and
with its time. `held` are those that it has not given out. -/
structure IMFTransform.Queues (mf : IMFTransform τ) (held : τ → List Sample) : Prop where
  inputCalls : ∀ t, held (mf.inputCalls t).2 = held t
  processInput : ∀ {t s t'}, mf.processInput t s = (none, t') → held t' = held t ++ [s]
  outputCalls : ∀ t, held (mf.outputCalls t).2 = held t
  produced : ∀ {t s t'}, mf.processOutput t = (.produced (some s), t') →
    ∃ input, held t = input :: held t' ∧ s.sampleTime = some input.time
  others : ∀ {t a t'}, mf.processOutput t = (a, t') → (∀ s, a ≠ .produced (some s)) →
    held t' = held t

/-- The times at which the samples held will be read. -/
def readTimes (held : τ → List Sample) (t : τ) : List UInt64 :=
  (held t).map fun s => samplePts (some s.time)

theorem outputSample_held (hmf : mf.Queues held) (t : τ) :
    held (mf.outputSample t).2 = held t := by
  unfold IMFTransform.outputSample
  split_ifs
  · rfl
  · exact hmf.outputCalls t

theorem drain_times (hmf : mf.Queues held) {rounds : ℕ} {out units : List EncodedFrame}
    (h : mf.drain rounds out t = some (.ok units, t')) :
    units.map EncodedFrame.pts ++ readTimes held t' =
      out.map EncodedFrame.pts ++ readTimes held t := by
  induction rounds generalizing out t with
  | zero => cases h
  | succ rounds ih =>
    have hsame := outputSample_held hmf t
    rw [IMFTransform.drain] at h
    split at h
    case h_1 => cases h
    case h_2 next houtput =>
      rw [houtput] at hsame
      split at h
      case h_1 s after hproduced =>
        obtain ⟨input, hinput, htime⟩ := hmf.produced hproduced
        split at h
        case h_1 unit hunit =>
          rw [ih h, readTimes, readTimes, ← hsame, hinput, List.map_append, List.map_singleton,
            readAccessUnit_pts hunit, htime, List.map_cons, List.append_assoc]
          rfl
        case h_2 => cases h
      case h_2 after hempty | h_4 after hempty =>
        rw [ih h, readTimes, readTimes, hmf.others hempty nofun, ← hsame]
      case h_3 after hmore =>
        cases h
        rw [readTimes, readTimes, hmf.others hmore nofun, ← hsame]
      case h_5 => cases h

theorem mfEncode_times (hmf : mf.Queues held) {self : MfEncoder} {build : Build} {rounds : ℕ}
    {f : CapturedFrame} {pts : UInt64} {units : List EncodedFrame}
    (h : self.encode mf build rounds t f pts = some (.ok units, t')) :
    units.map EncodedFrame.pts ++ readTimes held t' =
      readTimes held t ++ [samplePts (some (time100ns pts))] := by
  have hcalls := hmf.inputCalls t
  unfold MfEncoder.encode at h
  dsimp only at h
  split at h
  case h_1 => cases h
  case h_2 sample hsample =>
    split at h
    case h_1 => cases h
    case h_2 next hinput =>
      rw [drain_times hmf h, readTimes, readTimes, hmf.processInput hinput, hcalls,
        List.map_append, List.map_singleton, makeInputSample_time hsample]
      rfl

/-- An encoder that answers what `MfEncoder` does. Where that does not return, neither does
the encoder. -/
structure ByMediaFoundation (build : Build) (mf : IMFTransform τ) (held : τ → List Sample)
    (encoder : H264Encoder (MfEncoder × τ)) : Prop where
  new : ∀ {config self t}, encoder.new config = .ok (self, t) →
    self = .new config ∧ held t = []
  encode : ∀ {self t f pts units next}, encoder.encode (self, t) f pts = (.ok units, next) →
    next.1 = self ∧ ∃ rounds, self.encode mf build rounds t f pts = some (.ok units, next.2)

theorem handsOn_mf (hmf : mf.Queues held) {build : Build} {encoder : H264Encoder (MfEncoder × τ)}
    (hby : ByMediaFoundation build mf held encoder) :
    HandsOn Eq (fun pts => samplePts (some (time100ns pts))) encoder
      (fun state => readTimes held state.2) where
  new h := by
    rw [readTimes, (hby.new h).2]
    rfl
  encode h := by
    obtain ⟨-, rounds, hencode⟩ := hby.encode h
    exact mfEncode_times hmf hencode

end MediaFoundation

/-- A transform that gives every sample back when it is asked next. -/
def queueTransform : IMFTransform (List Sample) where
  providesSamples := true
  inputCalls t := ({ memory := fun _ => 0 }, t)
  processInput t s := (none, t ++ [s])
  outputCalls t := ({}, t)
  processOutput
    | [] => (.needMoreInput, [])
    | s :: t => (.produced (some (outputAt s.time)), t)
  endOfStream t := t

theorem queueTransform_queues : queueTransform.Queues id where
  inputCalls _ := rfl
  processInput h := by
    cases h
    rfl
  outputCalls _ := rfl
  produced {t s t'} h := by
    cases t with
    | nil => cases h
    | cons input rest =>
      cases h
      exact ⟨input, rfl, rfl⟩
  others {t a t'} h hnone := by
    cases t with
    | nil =>
      cases h
      rfl
    | cons input rest =>
      cases h
      exact absurd rfl (hnone _)

/-- The encoder of that transform. -/
def queueEncoder : H264Encoder (MfEncoder × List Sample) where
  new config := .ok (.new config, [])
  encode state f pts :=
    match state.1.encode queueTransform .release (state.2.length + 3) state.2 f pts with
    | some (.ok units, t) => (.ok units, state.1, t)
    | _ => (.error "encode".toList, state)
  finish _ := .ok []

theorem queueEncoder_byMediaFoundation :
    ByMediaFoundation .release queueTransform id queueEncoder where
  new h := by
    cases h
    exact ⟨rfl, rfl⟩
  encode {self t f pts units next} h := by
    unfold queueEncoder at h
    dsimp only at h
    split at h
    case h_1 units' t' hencode =>
      cases h
      exact ⟨rfl, _, hencode⟩
    case h_2 => cases h

theorem sampleToEncoded_some (sample : CMSampleBuffer) :
    ∃ unit, sampleToEncoded sample = some unit ∧
      ∀ u ∈ unit, u.pts = cmtimeTo90k sample.presentationTimeStamp := by
  cases havcc : sample.avcc with
  | none => exact ⟨none, by simp [sampleToEncoded, havcc], nofun⟩
  | some avcc =>
    obtain ⟨units, rest, hunits⟩ := NalUnits.exists_units avcc
    refine ⟨_, sampleToEncoded_eq havcc hunits, ?_⟩
    rintro u ⟨⟩
    rfl

theorem cmtimeTo90k_ptsTime {pts : UInt64} (h : pts.toNat < 2 ^ 63) :
    cmtimeTo90k (ptsTime pts) = pts := by
  have hvalue : (ptsTime pts).value.toInt = pts.toNat := by
    have hlt : 2 * pts.toBitVec.toNat < 2 ^ 64 := by
      change 2 * pts.toNat < 2 ^ 64
      omega
    exact BitVec.toInt_eq_toNat_of_lt hlt
  have hscale : (ptsTime pts).timescale.toInt = 90000 := by
    change (90000 : Int32).toInt = 90000
    decide
  have hback : ((pts.toNat : ℤ) * PTS_TIMESCALE).tdiv 90000 = pts.toNat :=
    Int.mul_tdiv_cancel _ (by decide)
  unfold cmtimeTo90k
  rw [hvalue, hscale, hback, if_neg (by decide), Int.toNat_natCast, if_pos pts.toNat_lt,
    UInt64.ofNat_toNat]

section VideoToolbox

variable {τ : Type} {vt : VTCompressionSession τ} {inFlight : τ → List UInt64} {t t' : τ}

/-- A handler is called with the time of its frame; it gets no sample when the frame is
dropped. -/
def HandlerCall.IsFor (call : HandlerCall) (pts : UInt64) : Prop :=
  ∀ s, call.sample = some s → s.presentationTimeStamp = ptsTime pts

/-- The handler pushes a unit. -/
def HandlerCall.Delivers (call : HandlerCall) : Prop :=
  call.status = 0 ∧ ∃ s, call.sample = some s ∧ s.avcc ≠ none

/-- A session that calls the handlers in the order of the frames, since it was told not to
reorder them. `inFlight` are the times of those that it has not called. -/
structure VTCompressionSession.InTurn (vt : VTCompressionSession τ)
    (inFlight : τ → List UInt64) : Prop where
  pixelBufferCreate : ∀ t width height,
    inFlight (vt.pixelBufferCreate t width height).2 = inFlight t
  encodeFrame : ∀ {t pb pts duration t'},
    vt.encodeFrame t pb (ptsTime pts) duration = (0, t') → inFlight t' = inFlight t ++ [pts]
  handled : ∀ {t calls t'}, vt.handled t = (calls, t') →
    ∃ done, inFlight t = done ++ inFlight t' ∧ List.Forall₂ HandlerCall.IsFor calls done

/-- The session drops no frame. -/
def VTCompressionSession.Lossless (vt : VTCompressionSession τ) : Prop :=
  ∀ t, ∀ call ∈ (vt.handled t).1, call.Delivers

theorem encoded_sublist {call : HandlerCall} {pts : UInt64} {units : List EncodedFrame}
    (hfor : call.IsFor pts) (h : call.encoded = some units) :
    (units.map EncodedFrame.pts).Sublist [cmtimeTo90k (ptsTime pts)] := by
  unfold HandlerCall.encoded at h
  split_ifs at h
  · split at h
    case h_1 =>
      cases h
      exact List.nil_sublist _
    case h_2 sample hsample =>
      obtain ⟨unit, hunit, htime⟩ := sampleToEncoded_some sample
      rw [hunit] at h
      cases h
      cases unit with
      | none => exact List.nil_sublist _
      | some u =>
        rw [Option.toList_some, List.map_singleton, htime u rfl, hfor sample hsample]
  · cases h
    exact List.nil_sublist _

theorem encoded_delivered {call : HandlerCall} {pts : UInt64} {units : List EncodedFrame}
    (hfor : call.IsFor pts) (hdelivers : call.Delivers) (h : call.encoded = some units) :
    units.map EncodedFrame.pts = [cmtimeTo90k (ptsTime pts)] := by
  obtain ⟨hstatus, sample, hsample, havcc⟩ := hdelivers
  obtain ⟨avcc, havcc⟩ := Option.ne_none_iff_exists'.mp havcc
  obtain ⟨nals, rest, hnals⟩ := NalUnits.exists_units avcc
  simp only [HandlerCall.encoded, if_pos hstatus, hsample, sampleToEncoded_eq havcc hnals,
    Option.map_some, Option.some.injEq] at h
  rw [← h, Option.toList_some, List.map_singleton, hfor sample hsample]

/-- The times that VideoToolbox gives back for those of the frames. -/
def vtShift (pts : UInt64) : UInt64 := cmtimeTo90k (ptsTime pts)

variable {R : List UInt64 → List UInt64 → Prop}

/-- What the handlers push is what is to come of the times of their frames. -/
def VTCompressionSession.HandsBack (vt : VTCompressionSession τ)
    (R : List UInt64 → List UInt64 → Prop) : Prop :=
  ∀ t, ∀ call ∈ (vt.handled t).1, ∀ pts units, call.IsFor pts → call.encoded = some units →
    R (units.map EncodedFrame.pts) [vtShift pts]

theorem handsBack_sublist (vt : VTCompressionSession τ) : vt.HandsBack List.Sublist :=
  fun _ _ _ _ _ hfor h => encoded_sublist hfor h

theorem handsBack_lossless (h : vt.Lossless) : vt.HandsBack Eq :=
  fun t call hcall _ _ hfor hunits => encoded_delivered hfor (h t call hcall) hunits

theorem pushed_times (hR : Piecewise R) {calls : List HandlerCall} {done : List UInt64}
    {pushed : List (List EncodedFrame)} (hfor : List.Forall₂ HandlerCall.IsFor calls done)
    (hback : ∀ call ∈ calls, ∀ pts units, call.IsFor pts → call.encoded = some units →
      R (units.map EncodedFrame.pts) [vtShift pts])
    (h : calls.mapM HandlerCall.encoded = some pushed) :
    R (pushed.flatten.map EncodedFrame.pts) (done.map vtShift) := by
  induction hfor generalizing pushed with
  | nil =>
    cases h
    exact hR.refl []
  | @cons call pts calls done hfirst _ ih =>
    rw [List.mapM_cons, Option.bind_eq_bind, Option.bind_eq_some_iff] at h
    obtain ⟨units, hunits, h⟩ := h
    obtain ⟨later, hlater, hpushed⟩ := Option.bind_eq_some_iff.mp h
    obtain rfl := Option.some.inj hpushed
    rw [List.flatten_cons, List.map_append, List.map_cons]
    exact hR.append (hback call (by simp) pts units hfirst hunits)
      (ih (fun c hc => hback c (by simp [hc])) hlater)

/-- The times of the units in the queue, then of the frames in flight. -/
def queuedTimes (inFlight : τ → List UInt64) (state : VtEncoder × τ) : List UInt64 :=
  state.1.output.map EncodedFrame.pts ++ (inFlight state.2).map vtShift

theorem vtDrain_times (hvt : vt.InTurn inFlight) (hR : Piecewise R) (hback : vt.HandsBack R)
    {self : VtEncoder} {units : List EncodedFrame} {next : VtEncoder × τ}
    (h : self.drain vt t = (.ok units, next)) :
    R (units.map EncodedFrame.pts ++ queuedTimes inFlight next)
      (queuedTimes inFlight (self, t)) := by
  cases hhandled : vt.handled t with
  | mk calls after =>
    obtain ⟨done, hdone, hfor⟩ := hvt.handled hhandled
    have hcalls := hback t
    rw [hhandled] at hcalls
    simp only [VtEncoder.drain, hhandled] at h
    split at h
    case h_1 => cases h
    case h_2 pushed hpushed =>
      cases h
      have htimes := pushed_times hR hfor hcalls hpushed
      rw [queuedTimes, queuedTimes, hdone, List.map_append, List.map_append, List.map_nil,
        List.nil_append, List.append_assoc]
      exact hR.append (hR.refl _) (hR.append htimes (hR.refl _))

theorem pixelBuffer_inFlight (hvt : vt.InTurn inFlight) (t : τ) (f : CapturedFrame) :
    inFlight (VtEncoder.nv12ToPixelBuffer vt t f).2 = inFlight t := by
  have hcreate := hvt.pixelBufferCreate t f.width f.height
  unfold VtEncoder.nv12ToPixelBuffer
  split
  case h_1 status made hmade =>
    rwa [hmade] at hcreate
  case h_2 pb made hmade =>
    rw [hmade] at hcreate
    split <;> exact hcreate

theorem vtEncode_times (hvt : vt.InTurn inFlight) (hR : Piecewise R) (hback : vt.HandsBack R)
    {self : VtEncoder} {f : CapturedFrame} {pts : UInt64} {units : List EncodedFrame}
    {next : VtEncoder × τ} (h : self.encode vt t f pts = (.ok units, next)) :
    R (units.map EncodedFrame.pts ++ queuedTimes inFlight next)
      (queuedTimes inFlight (self, t) ++ [vtShift pts]) := by
  have hpixels := pixelBuffer_inFlight hvt t f
  unfold VtEncoder.encode at h
  split at h
  case h_1 => cases h
  case h_2 pb made hmade =>
    rw [hmade] at hpixels
    split at h
    case h_1 status after hencode =>
      split_ifs at h with hfailed
      · cases h
      · have hflight := hvt.encodeFrame (by rw [hencode, not_not.mp hfailed])
        have hbefore : queuedTimes inFlight (self, after) =
            queuedTimes inFlight (self, t) ++ [vtShift pts] := by
          rw [queuedTimes, queuedTimes, hflight, hpixels, List.map_append, List.map_singleton,
            List.append_assoc]
        rw [← hbefore]
        exact vtDrain_times hvt hR hback h

/-- An encoder that answers what `VtEncoder` does. -/
structure ByVideoToolbox (vt : VTCompressionSession τ) (inFlight : τ → List UInt64)
    (encoder : H264Encoder (VtEncoder × τ)) : Prop where
  new : ∀ {config self t}, encoder.new config = .ok (self, t) → self = {} ∧ inFlight t = []
  encode : ∀ {self t f pts units next}, encoder.encode (self, t) f pts = (.ok units, next) →
    self.encode vt t f pts = (.ok units, next)

theorem handsOn_vt (hvt : vt.InTurn inFlight) (hR : Piecewise R) (hback : vt.HandsBack R)
    {encoder : H264Encoder (VtEncoder × τ)} (hby : ByVideoToolbox vt inFlight encoder) :
    HandsOn R vtShift encoder (queuedTimes inFlight) where
  new h := by
    obtain ⟨hself, hnone⟩ := hby.new h
    rw [queuedTimes, hself, hnone]
    rfl
  encode h := vtEncode_times hvt hR hback (hby.encode h)

end VideoToolbox

/-- A session that has called the handlers of all frames but the last one, and drops the
frame at 1500. -/
def lateSession : VTCompressionSession (List UInt64) where
  pixelBufferCreate t width height :=
    (.ok ⟨some ⟨List.replicate (width.toNat * height.toNat) 0, width.toNat⟩,
      some ⟨List.replicate (width.toNat * (height.toNat / 2)) 0, width.toNat⟩⟩, t)
  encodeFrame t _ time _ := (0, t ++ [time.value.toUInt64])
  handled t :=
    (t.dropLast.map fun pts => ⟨0, if pts = 1500 then none else some
      { presentationTimeStamp := ptsTime pts, avcc := some [0, 0, 0, 1, 0x41],
        parameterSets := none }⟩,
      t.getLast?.toList)
  completeFrames t := t

theorem lateSession_inTurn : lateSession.InTurn id where
  pixelBufferCreate _ _ _ := rfl
  encodeFrame {t pb pts duration t'} h := by
    obtain ⟨-, rfl⟩ := Prod.mk.inj h
    change t ++ [pts.toInt64.toUInt64] = t ++ [pts]
    rw [UInt64.toUInt64_toInt64]
  handled {t calls t'} h := by
    obtain ⟨rfl, rfl⟩ := Prod.mk.inj h
    refine ⟨t.dropLast, ?_, ?_⟩
    · cases t using List.reverseRecOn with
      | nil => rfl
      | append_singleton t x => simp
    · rw [List.forall₂_map_left_iff]
      refine List.forall₂_same.mpr fun pts _ s hs => ?_
      dsimp only at hs
      split_ifs at hs
      cases hs
      rfl

def lateEncoder : H264Encoder (VtEncoder × List UInt64) where
  new _ := .ok ({}, [])
  encode state f pts :=
    match state.1.encode lateSession state.2 f pts with
    | (.ok units, next) => (.ok units, next)
    | (.error _, next) => (.error "encode".toList, next)
  finish _ := .ok []

theorem lateEncoder_byVideoToolbox : ByVideoToolbox lateSession id lateEncoder where
  new h := by
    cases h
    exact ⟨rfl, rfl⟩
  encode {self t f pts units next} h := by
    unfold lateEncoder at h
    dsimp only at h
    split at h
    case h_1 hencode =>
      cases h
      exact hencode
    case h_2 => cases h

end HorizonCast
