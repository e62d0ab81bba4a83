import HorizonCast.Lib.Filling
import HorizonCast.Lib.Interval
import HorizonCast.Lib.Text
import HorizonCast.Spec.Basic
import HorizonCast.Spec.Clock

/-! Captured frames: how the capture backend makes them NV12 (`hc-capture/src/frame.rs`,
`convert.rs`, `scap_backend.rs`), and how the Windows encoder copies them into its buffer
(`hc-encode/src/lib.rs`, `mediafoundation.rs`, `capture_encode_loop` of `hc-app`). An
index out of bounds is `none`. -/

namespace HorizonCast

open Text Filling Interval

/-! ### Frames -/

/-- NV12 (4:2:0 planar, Y plane + interleaved UV plane) frame data. -/
structure Nv12Planes where
  y : Bytes
  /-- Bytes per row of the Y plane (may exceed `width` due to alignment padding). -/
  yStride : UInt32
  uv : Bytes
  uvStride : UInt32
  deriving DecidableEq, Repr

structure CapturedFrame where
  width : UInt32
  height : UInt32
  /-- Time since capture started. -/
  pts : Duration
  planes : Nv12Planes

/-! ### Conversion -/

def clampU8 (v : ℤ) : UInt8 := UInt8.ofNat (min v.toNat 255)

/-- `n & !1`. -/
def evenDown (n : UInt32) : UInt32 := n &&& ~~~1

/-- The Y byte of the pixel at `i`. -/
def luma (src : Bytes) (i : ℕ) : Option UInt8 := do
  let b : ℤ := (← src[i]?).toNat
  let g : ℤ := (← src[i + 1]?).toNat
  let r : ℤ := (← src[i + 2]?).toNat
  some (clampU8 (Int.shiftRight (66 * r + 129 * g + 25 * b + 128) 8 + 16))

/-- The U and V bytes of the pixels `pxs`, four of them: those of a block. -/
def chroma (src : Bytes) (pxs : List ℕ) : Option (List UInt8) := do
  let bs ← pxs.mapM fun px => src[px]?
  let gs ← pxs.mapM fun px => src[px + 1]?
  let rs ← pxs.mapM fun px => src[px + 2]?
  let mean (channel : List UInt8) : ℤ := ((channel.map UInt8.toNat).sum / 4 : ℕ)
  let u := clampU8 (Int.shiftRight (-38 * mean rs - 74 * mean gs + 112 * mean bs + 128) 8 + 128)
  let v := clampU8 (Int.shiftRight (112 * mean rs - 94 * mean gs - 18 * mean bs + 128) 8 + 128)
  some [u, v]

/-- Convert a BGRA buffer to NV12 planes. Odd `width`/`height` are rounded down to even
so 4:2:0 subsampling stays in bounds. -/
def bgraToNv12 (src : Bytes) (width height srcStride : UInt32) : Option Nv12Planes := do
  let w := (evenDown width).toNat
  let h := (evenDown height).toNat
  let stride := srcStride.toNat
  let yPlane ← (List.range h).mapM fun row =>
    (List.range w).mapM fun col => luma src (row * stride + col * 4)
  let uvPlane ← (List.range (h / 2)).mapM fun yb =>
    (List.range (w / 2)).mapM fun xb =>
      chroma src ([(0, 0), (0, 1), (1, 0), (1, 1)].map fun (dy, dx) =>
        (yb * 2 + dy) * stride + (xb * 2 + dx) * 4)
  some {
    y := yPlane.flatten
    yStride := evenDown width
    uv := (uvPlane.map List.flatten).flatten
    uvStride := evenDown width }

inductive Channel where
  | b | g | r
  deriving DecidableEq

/-- The values of an `i32`. -/
def i32 : Range := ⟨-2 ^ 31, 2 ^ 31 - 1⟩

/-- `((66 * r + 129 * g + 25 * b + 128) >> 8) + 16`, operation by operation. -/
def lumaExpr : Expr Channel :=
  .shr (.scale 66 (.var .r) + .scale 129 (.var .g) + .scale 25 (.var .b) + .lit 128) 8 + .lit 16

/-- The sum of a channel over the four pixels of a block, in the order of the loops, over 4. -/
def meanExpr (c : Channel) : Expr (Channel × Fin 4) :=
  .quot (.lit 0 + .var (c, 0) + .var (c, 1) + .var (c, 2) + .var (c, 3)) 4

/-- `((-38 * r - 74 * g + 112 * b + 128) >> 8) + 128`. -/
def uExpr : Expr (Channel × Fin 4) :=
  .shr (.scale (-38) (meanExpr .r) - .scale 74 (meanExpr .g) + .scale 112 (meanExpr .b) +
    .lit 128) 8 + .lit 128

/-- `((112 * r - 94 * g - 18 * b + 128) >> 8) + 128`. -/
def vExpr : Expr (Channel × Fin 4) :=
  .shr (.scale 112 (meanExpr .r) - .scale 94 (meanExpr .g) - .scale 18 (meanExpr .b) +
    .lit 128) 8 + .lit 128

/-- Where the pixels of the block in row `yb` and column `xb` start. -/
def blockPixels (stride yb xb : ℕ) : List ℕ :=
  [(0, 0), (0, 1), (1, 0), (1, 1)].map fun (dy, dx) =>
    (yb * 2 + dy) * stride + (xb * 2 + dx) * 4

/-- `uv_plane[o] = u; uv_plane[o + 1] = v`. -/
def writePair (uvPlane : Buffer UInt8) (o : ℕ) : List UInt8 → Option (Buffer UInt8)
  | [u, v] => do
    let uvPlane ← uvPlane.write o u
    uvPlane.write (o + 1) v
  | _ => none

/-- The loops of `bgra_to_nv12` as they fill its two planes, byte by byte. -/
def writePlanes (src : Bytes) (width height srcStride : UInt32) :
    Option (Buffer UInt8 × Buffer UInt8) := do
  let w := (evenDown width).toNat
  let h := (evenDown height).toNat
  let stride := srcStride.toNat
  let yPlane ← (List.range h).foldlM (fun yPlane row => do
    let srcRow := row * stride
    let yRow := row * w
    (List.range w).foldlM (fun yPlane col => do
      yPlane.write (yRow + col) (← luma src (srcRow + col * 4))) yPlane)
    (Buffer.blank (w * h) 0)
  let uvPlane ← (List.range (h / 2)).foldlM (fun uvPlane yb => do
    (List.range (w / 2)).foldlM (fun uvPlane xb => do
      let o := yb * w + xb * 2
      writePair uvPlane o (← chroma src (blockPixels stride yb xb))) uvPlane)
    (Buffer.blank (w * (h / 2)) 0)
  some (yPlane, uvPlane)

/-- A frame of `scap`, of the kinds that are looked at. -/
inductive Frame where
  | yuv (width height : Int32) (luminanceBytes : Bytes) (luminanceStride : Int32)
      (chrominanceBytes : Bytes) (chrominanceStride : Int32)
  | bgra (width height : Int32) (data : Bytes)
  | other

/-- `n.max(0) as u32`. -/
def maxZero (n : Int32) : UInt32 := UInt32.ofNat n.toInt.toNat

/-- `*` at `u32`; `none` is the overflow panic of a debug build. -/
def u32Mul (build : Build) (a b : UInt32) : Option UInt32 :=
  if a.toNat * b.toNat < 2 ^ 32 ∨ build = .release then some (a * b) else none

/-- Convert a `scap` frame to our NV12 `CapturedFrame`; `some none` for a format we don't
handle. -/
def toNv12 (build : Build) (frame : Frame) (pts : Duration) : Option (Option CapturedFrame) :=
  match frame with
  | .yuv width height luminanceBytes luminanceStride chrominanceBytes chrominanceStride =>
    some (some {
      width := maxZero width
      height := maxZero height
      pts
      planes := {
        y := luminanceBytes
        yStride := maxZero luminanceStride
        uv := chrominanceBytes
        uvStride := maxZero chrominanceStride } })
  | .bgra width height data => do
    let stride ← u32Mul build (maxZero width) 4
    let planes ← bgraToNv12 data (maxZero width) (maxZero height) stride
    some (some {
      width := evenDown (maxZero width)
      height := evenDown (maxZero height)
      pts
      planes })
  | .other => some none

/-! ### The encoder's input -/

structure EncoderConfig where
  width : UInt32
  height : UInt32
  fps : UInt32
  bitrateKbps : UInt32
  /-- Keyframe (IDR) interval in frames. -/
  keyframeInterval : UInt32
  deriving DecidableEq, Repr

/-- The configuration that `capture_encode_loop` makes of the first frame. -/
def EncoderConfig.ofFirst (first : CapturedFrame) (fps bitrateKbps : UInt32) : EncoderConfig where
  width := first.width
  height := first.height
  fps
  bitrateKbps
  keyframeInterval := UInt32.ofNat (max (min (fps.toNat * 2) (2 ^ 32 - 1)) 1)

/-- What an encoder keeps of its configuration for its input. -/
structure MfEncoder where
  frameDuration100ns : ℤ
  width : UInt32
  height : UInt32
  deriving DecidableEq, Repr

def MfEncoder.new (config : EncoderConfig) : MfEncoder where
  frameDuration100ns := (10000000 : ℤ).tdiv (max config.fps.toNat 1)
  width := config.width
  height := config.height

/-- What Media Foundation answers: the error of each call that fails, and what stands in
a new buffer. -/
structure MediaFoundation where
  createMemoryBuffer : Option Str := none
  lock : Option Str := none
  setCurrentLength : Option Str := none
  unlock : Option Str := none
  createSample : Option Str := none
  addBuffer : Option Str := none
  setSampleTime : Option Str := none
  setSampleDuration : Option Str := none
  memory : ℕ → UInt8

/-- How a call can fail: an error that is returned, a panic, or a write outside the
buffer, which leaves the behaviour undefined. -/
inductive Failure where
  | err (message : Str)
  | panic
  | overrun
  deriving DecidableEq, Repr

structure Sample where
  buffer : Bytes
  time : ℤ
  duration : ℤ
  deriving DecidableEq, Repr

def mfCall (context : Str) (error : Option Str) : Except Failure Unit :=
  match error with
  | none => .ok ()
  | some e => .error (.err (context ++ ": ".toList ++ e))

def orPanic {α : Type} : Option α → Except Failure α
  | none => .error .panic
  | some a => .ok a

/-- `dst[o..o + row].copy_from_slice(&src[s..s + row]); o += row`. -/
def copyRow (row : ℕ) (src : Bytes) (s : ℕ) (dst : Bytes) (o : ℕ) : Option (Bytes × ℕ) := do
  let _ ← slice dst o (o + row)
  let srcRow ← slice src s (s + row)
  some (dst.take o ++ srcRow ++ dst.drop (o + row), o + row)

/-- The copy of `rows` rows, from the buffer and the position in it. -/
def copyRows (rows row stride : ℕ) (src : Bytes) (out : Bytes × ℕ) : Option (Bytes × ℕ) :=
  (List.range rows).foldlM (fun (dst, o) r => copyRow row src (r * stride) dst o) out

/-- Copy Y plane then UV plane, tightening any stride padding to `width`. -/
def MfEncoder.copyPlanes (self : MfEncoder) (p : Nv12Planes) (dst : Bytes) : Option Bytes := do
  let yRows := self.height.toNat
  let row := self.width.toNat
  let (dst, o) ← copyRows yRows row p.yStride.toNat p.y (dst, 0)
  let (dst, _) ← copyRows (yRows / 2) row p.uvStride.toNat p.uv (dst, o)
  some dst

/-- `(pts as i64).saturating_mul(1000) / 9`. -/
def time100ns (pts : UInt64) : ℤ :=
  (max (-2 ^ 63) (min (2 ^ 63 - 1) (pts.toInt64.toInt * 1000))).tdiv 9

/-- Build an NV12 input sample (contiguous Y then UV) stamped with `pts` (90 kHz). The
buffer has the size that was asked for, a `u32`, and is written as one of `total` bytes.
The products of two `u32` fit a `usize`. -/
def MfEncoder.makeInputSample (self : MfEncoder) (build : Build) (mf : MediaFoundation)
    (frame : CapturedFrame) (pts : UInt64) : Except Failure Sample := do
  let yRows := self.height.toNat
  let row := self.width.toNat
  let total ← orPanic (usizeAdd build (row * yRows) (row * (yRows / 2)))
  mfCall "MFCreateMemoryBuffer".toList mf.createMemoryBuffer
  mfCall "buffer Lock".toList mf.lock
  if total % 2 ^ 32 < total then throw .overrun
  let buffer ← orPanic (self.copyPlanes frame.planes ((List.range total).map mf.memory))
  mfCall "SetCurrentLength".toList mf.setCurrentLength
  mfCall "buffer Unlock".toList mf.unlock
  mfCall "MFCreateSample".toList mf.createSample
  mfCall "AddBuffer".toList mf.addBuffer
  mfCall "SetSampleTime".toList mf.setSampleTime
  mfCall "SetSampleDuration".toList mf.setSampleDuration
  return { buffer, time := time100ns pts, duration := self.frameDuration100ns }

end HorizonCast
