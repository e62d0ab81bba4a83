import HorizonCast.Spec.CaptureLoop

/-! The encoders behind `H264Encoder`: the transform of Media Foundation, fed and drained on
the thread of the capture (`hc-encode/src/mediafoundation.rs`), and the session of
VideoToolbox, whose handlers run when it likes (`hc-encode/src/macos.rs`). -/

namespace HorizonCast

open Text

/-! ### Media Foundation -/

/-- What `ProcessOutput` answers. -/
inductive OutputAnswer where
  | produced (sample : Option IMFSample)
  | needMoreInput
  | streamChange
  | failed (e : Str)

/-- The error of each call for an output sample that fails. -/
structure OutputCalls where
  createMemoryBuffer : Option Str := none
  createSample : Option Str := none
  addBuffer : Option Str := none

/-- The encoder MFT and what Media Foundation answers beside it, in a state of their own. -/
structure IMFTransform (τ : Type) where
  /-- Whether it allocates the output samples. -/
  providesSamples : Bool
  inputCalls : τ → MediaFoundation × τ
  processInput : τ → Sample → Option Str × τ
  outputCalls : τ → OutputCalls × τ
  processOutput : τ → OutputAnswer × τ
  /-- The messages END_OF_STREAM and DRAIN, whose answers nobody looks at. -/
  endOfStream : τ → τ

section MediaFoundation

variable {τ : Type} (mf : IMFTransform τ)

/-- Provide an output sample unless the MFT allocates its own. -/
def IMFTransform.outputSample (t : τ) : Except Failure Unit × τ :=
  if mf.providesSamples then (.ok (), t)
  else
    let (calls, t) := mf.outputCalls t
    let result := do
      mfCall "out MFCreateMemoryBuffer".toList calls.createMemoryBuffer
      mfCall "out MFCreateSample".toList calls.createSample
      mfCall "out AddBuffer".toList calls.addBuffer
    (result, t)

/-- Pull all currently-available output access units from the MFT, behind those in `out`.
`none` when the loop goes on after this many rounds. -/
def IMFTransform.drain : ℕ → List EncodedFrame → τ →
    Option (Except Failure (List EncodedFrame) × τ)
  | 0, _, _ => none
  | rounds + 1, out, t =>
    match mf.outputSample t with
    | (.error e, t) => some (.error e, t)
    | (.ok _, t) =>
      match mf.processOutput t with
      | (.produced (some s), t) =>
        match readAccessUnit s with
        | .ok unit => drain rounds (out ++ [unit]) t
        | .error e => some (.error e, t)
      | (.produced none, t) => drain rounds out t
      | (.needMoreInput, t) => some (.ok out, t)
      | (.streamChange, t) => drain rounds out t
      | (.failed e, t) => some (.error (.err ("ProcessOutput: ".toList ++ e)), t)

/-- Synchronous MFT: feed one input, then drain all available output. -/
def MfEncoder.encode (self : MfEncoder) (build : Build) (rounds : ℕ) (t : τ)
    (frame : CapturedFrame) (pts : UInt64) : Option (Except Failure (List EncodedFrame) × τ) :=
  let (calls, t) := mf.inputCalls t
  match self.makeInputSample build calls frame pts with
  | .error e => some (.error e, t)
  | .ok sample =>
    match mf.processInput t sample with
    | (some e, t) => some (.error (.err ("ProcessInput: ".toList ++ e)), t)
    | (none, t) => mf.drain rounds [] t

def MfEncoder.finish (rounds : ℕ) (t : τ) : Option (Except Failure (List EncodedFrame) × τ) :=
  mf.drain rounds [] (mf.endOfStream t)

end MediaFoundation

/-! ### VideoToolbox -/

/-- A plane of a pixel buffer: its memory and the bytes per row. -/
structure PixelPlane where
  bytes : Bytes
  stride : ℕ
  deriving DecidableEq, Repr

/-- A pixel buffer; a plane is `none` when it has no base address. -/
structure CVPixelBuffer where
  y : Option PixelPlane
  uv : Option PixelPlane
  deriving DecidableEq, Repr

/-- `std::ptr::copy_nonoverlapping` of `copy` bytes at `s` to the bytes at `d`. `none` where
they are outside the destination, which leaves the behaviour undefined. -/
def copyNonoverlapping (src : Bytes) (s : ℕ) (dst : Bytes) (d copy : ℕ) : Option Bytes :=
  if d + copy ≤ dst.length then
    some (dst.take d ++ (src.drop s).take copy ++ dst.drop (d + copy))
  else none

/-- The rows that are not all in the source are left as they are. -/
def PixelPlane.copyPlane (dst : PixelPlane) (src : Bytes) (srcStride bytesPerRow rows : ℕ) :
    Option PixelPlane := do
  let copy := min (min bytesPerRow srcStride) dst.stride
  let bytes ← (List.range rows).foldlM (fun bytes row =>
    let s := row * srcStride
    let d := row * dst.stride
    if s + copy ≤ src.length then copyNonoverlapping src s bytes d copy else some bytes) dst.bytes
  some { dst with bytes }

/-- `copy_plane`, which returns at once where there is no base address. -/
def copyPlane (dst : Option PixelPlane) (src : Bytes) (srcStride bytesPerRow rows : ℕ) :
    Option (Option PixelPlane) :=
  match dst with
  | none => some none
  | some plane => (plane.copyPlane src srcStride bytesPerRow rows).map some

/-- The copy into a new pixel buffer of the frame's size. -/
def CVPixelBuffer.copyFrame (pb : CVPixelBuffer) (frame : CapturedFrame) :
    Option CVPixelBuffer := do
  let y ← copyPlane pb.y frame.planes.y frame.planes.yStride.toNat frame.width.toNat
    frame.height.toNat
  let uv ← copyPlane pb.uv frame.planes.uv frame.planes.uvStride.toNat frame.width.toNat
    (frame.height.toNat / 2)
  some { y, uv }

/-- A call of a frame's output handler; the sample is `none` when it is null. -/
structure HandlerCall where
  status : Int32
  sample : Option CMSampleBuffer

/-- A compression session and CoreVideo, in a state of their own. -/
structure VTCompressionSession (τ : Type) where
  /-- `CVPixelBufferCreate` for a width and a height. -/
  pixelBufferCreate : τ → UInt32 → UInt32 → Except Int32 CVPixelBuffer × τ
  /-- `encode_frame_with_output_handler` with a time and a duration. -/
  encodeFrame : τ → CVPixelBuffer → CMTime → CMTime → Int32 × τ
  /-- The handlers that have run since this was last asked, in turn. -/
  handled : τ → List HandlerCall × τ
  completeFrames : τ → τ

/-- The queue that the handlers share with the encoder, under its mutex. -/
structure VtEncoder where
  output : List EncodedFrame := []
  deriving DecidableEq, Repr

/-- `CMTimeMake(pts as i64, PTS_TIMESCALE)`. -/
def ptsTime (pts : UInt64) : CMTime := ⟨pts.toInt64, 90000⟩

def displayI32 (n : Int32) : Str :=
  if n.toInt < 0 then '-' :: decimal n.toInt.natAbs else decimal n.toInt.natAbs

/-- What a handler pushes. `none` where `sample_to_encoded` panics. -/
def HandlerCall.encoded (call : HandlerCall) : Option (List EncodedFrame) :=
  if call.status = 0 then
    match call.sample with
    | none => some []
    | some sample => (sampleToEncoded sample).map Option.toList
  else some []

namespace VtEncoder

variable {τ : Type} (vt : VTCompressionSession τ)

def nv12ToPixelBuffer (t : τ) (frame : CapturedFrame) : Except Failure CVPixelBuffer × τ :=
  match vt.pixelBufferCreate t frame.width frame.height with
  | (.error status, t) =>
    (.error (.err ("CVPixelBufferCreate failed: ".toList ++ displayI32 status)), t)
  | (.ok pb, t) =>
    match pb.copyFrame frame with
    | none => (.error .overrun, t)
    | some pb => (.ok pb, t)

/-- The handlers push on the queue when they run; here it is looked at. -/
def drain (self : VtEncoder) (t : τ) : Except Failure (List EncodedFrame) × VtEncoder × τ :=
  let (calls, t) := vt.handled t
  match calls.mapM HandlerCall.encoded with
  | none => (.error .panic, self, t)
  | some pushed => (.ok (self.output ++ pushed.flatten), { output := [] }, t)

def encode (self : VtEncoder) (t : τ) (frame : CapturedFrame) (pts : UInt64) :
    Except Failure (List EncodedFrame) × VtEncoder × τ :=
  match nv12ToPixelBuffer vt t frame with
  | (.error e, t) => (.error e, self, t)
  | (.ok pb, t) =>
    match vt.encodeFrame t pb (ptsTime pts) ⟨90000 / 60, 90000⟩ with
    | (status, t) =>
      if status ≠ 0 then
        (.error (.err ("VTCompressionSessionEncodeFrame failed: OSStatus ".toList ++
          displayI32 status)), self, t)
      else self.drain vt t

def finish (self : VtEncoder) (t : τ) : Except Failure (List EncodedFrame) × VtEncoder × τ :=
  self.drain vt (vt.completeFrames t)

end VtEncoder

end HorizonCast
