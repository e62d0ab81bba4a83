import HorizonCast.Lib.NalUnits
import HorizonCast.Spec.Nv12

/-! Encoded access units: how those of VideoToolbox are put into Annex-B framing
(`hc-encode/src/macos.rs`), and how those of Media Foundation are read
(`hc-encode/src/mediafoundation.rs`). An index out of bounds is `none`. -/

namespace HorizonCast

open Text NalUnits

/-- One encoded H.264 access unit (Annex-B, with start codes), carrying its 90 kHz PTS and
keyframe flag. -/
structure EncodedFrame where
  /-- Annex-B bytes (SPS/PPS prepended on keyframes). -/
  data : Bytes
  /-- 90 kHz presentation timestamp. -/
  pts : UInt64
  /-- Whether this access unit is an IDR keyframe. -/
  keyframe : Bool
  deriving DecidableEq, Repr

/-! ### VideoToolbox -/

structure CMTime where
  value : Int64
  timescale : Int32

/-- What the calls on a sample buffer answer. -/
structure CMSampleBuffer where
  presentationTimeStamp : CMTime
  /-- The bytes of the data buffer; `none` when there is none or no pointer to it. -/
  avcc : Option Bytes
  /-- The parameter sets of the format description; `none` when there is none. -/
  parameterSets : Option (List Bytes)

def PTS_TIMESCALE : ℤ := 90000

def cmtimeTo90k (t : CMTime) : UInt64 :=
  if t.timescale.toInt ≤ 0 then 0
  else
    let v := ((t.value.toInt * PTS_TIMESCALE).tdiv t.timescale.toInt).toNat
    if v < 2 ^ 64 then UInt64.ofNat v else 0

/-- `u32::from_be_bytes` of the four bytes at `i`. -/
def readU32 (buf : Bytes) (i : ℕ) : Option ℕ := do
  some (fromBe32 (← buf[i]?) (← buf[i + 1]?) (← buf[i + 2]?) (← buf[i + 3]?))

/-- What `avcc_nal_types` yields from position `i` on. -/
def avccNalTypes (avcc : Bytes) (i : ℕ) : Option (List UInt8) :=
  if _h : i + 4 ≤ avcc.length then do
    let len ← readU32 avcc i
    let header := i + 4
    let rest ← avccNalTypes avcc (header + len)
    if header < avcc.length then some (((← avcc[header]?) &&& 0x1F) :: rest) else some rest
  else some []
termination_by avcc.length - i

/-- AVCC (4-byte big-endian length prefixes) → Annex-B (00 00 00 01 start codes), from
position `i` on and behind `out`. -/
def avccToAnnexB (avcc : Bytes) (i : ℕ) (out : Bytes) : Option Bytes :=
  if _h : i + 4 ≤ avcc.length then do
    let nalLen ← readU32 avcc i
    let start := i + 4
    if start + nalLen > avcc.length then some out
    else
      let unit ← slice avcc start (start + nalLen)
      avccToAnnexB avcc (start + nalLen) (out ++ [0, 0, 0, 1] ++ unit)
  else some out
termination_by avcc.length - i

/-- SPS/PPS from the format description so the TV can decode at the join. -/
def parameterSetBytes (sample : CMSampleBuffer) : Bytes :=
  (sample.parameterSets.getD []).flatMap fun set => [0, 0, 0, 1] ++ set

def sampleToEncoded (sample : CMSampleBuffer) : Option (Option EncodedFrame) :=
  let pts := cmtimeTo90k sample.presentationTimeStamp
  match sample.avcc with
  | none => some none
  | some avcc => do
    -- Detect an IDR by NAL type 5 (more robust than poking sample attachments).
    let keyframe := (← avccNalTypes avcc 0).any (· == 5)
    let out := if keyframe then parameterSetBytes sample else []
    let data ← avccToAnnexB avcc 0 out
    some (some { data, pts, keyframe })

/-! ### Media Foundation -/

/-- What the calls on an output sample answer. -/
structure IMFSample where
  /-- The CleanPoint attribute. -/
  cleanPoint : Option UInt32
  /-- The sample time, an `i64` of 100 ns units. -/
  sampleTime : Option ℤ
  convertToContiguousBuffer : Option Str := none
  lock : Option Str := none
  bytes : Bytes

/-- 100 ns sample time → 90 kHz PTS; 0 when there is no sample time. -/
def samplePts (sampleTime : Option ℤ) : UInt64 :=
  (sampleTime.map fun t => UInt64.ofNat (min (t.toNat * 9) (2 ^ 64 - 1) / 1000)).getD 0

def readAccessUnit (sample : IMFSample) : Except Failure EncodedFrame := do
  let keyframe := (sample.cleanPoint.map fun v => v != 0).getD false
  let pts := samplePts sample.sampleTime
  mfCall "ConvertToContiguousBuffer".toList sample.convertToContiguousBuffer
  mfCall "out buffer Lock".toList sample.lock
  return { data := sample.bytes, pts, keyframe }

end HorizonCast
