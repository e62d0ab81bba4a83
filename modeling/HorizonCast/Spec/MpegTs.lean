import HorizonCast.Spec.Basic

/-! The MPEG-TS muxer (`hc-net/src/mpegts.rs`): H.264 and AAC access units in,
188-byte transport packets out. A byte buffer is a `List UInt8`, and the integer
fields keep the source's widths. -/

namespace HorizonCast

def TS_PACKET_LEN : ℕ := 188
def SYNC_BYTE : UInt8 := 0x47
def PID_PAT : UInt16 := 0x0000
def PID_PMT : UInt16 := 0x1000
def PID_VIDEO : UInt16 := 0x0100
def PID_AUDIO : UInt16 := 0x0101
def STREAM_TYPE_H264 : UInt8 := 0x1B
def STREAM_TYPE_AAC : UInt8 := 0x0F
def STREAM_ID_VIDEO : UInt8 := 0xE0
def STREAM_ID_AUDIO : UInt8 := 0xC0

/-- Which continuity counter a packet takes. -/
inductive Cc where
  | video | audio | pat | pmt
  deriving DecidableEq, Repr

structure MpegTsMuxer where
  videoCc : UInt8 := 0
  audioCc : UInt8 := 0
  patCc : UInt8 := 0
  pmtCc : UInt8 := 0
  deriving DecidableEq, Repr

def MpegTsMuxer.new : MpegTsMuxer := {}

/-- The counter `which` names. -/
def MpegTsMuxer.slot (m : MpegTsMuxer) : Cc → UInt8
  | .video => m.videoCc
  | .audio => m.audioCc
  | .pat => m.patCc
  | .pmt => m.pmtCc

def MpegTsMuxer.setSlot (m : MpegTsMuxer) (which : Cc) (v : UInt8) : MpegTsMuxer :=
  match which with
  | .video => { m with videoCc := v }
  | .audio => { m with audioCc := v }
  | .pat => { m with patCc := v }
  | .pmt => { m with pmtCc := v }

/-- `UInt8` addition wraps, as `wrapping_add` does. -/
def MpegTsMuxer.takeCc (m : MpegTsMuxer) (which : Cc) : UInt8 × MpegTsMuxer :=
  (m.slot which &&& 0x0F, m.setSlot which ((m.slot which + 1) &&& 0x0F))

def tsHeader (pid : UInt16) (pusi : Bool) (afc cc : UInt8) : Bytes :=
  [SYNC_BYTE,
   (pusi.toUInt8 <<< 6) ||| ((pid >>> 8).toUInt8 &&& 0x1F),
   (pid &&& 0xFF).toUInt8,
   (afc <<< 4) ||| (cc &&& 0x0F)]

/-- Five bytes holding the low 33 bits of `ts`, three groups of them closed by a marker bit. -/
def encodeTimestamp (pre : UInt8) (ts : UInt64) : Bytes :=
  [(pre <<< 4) ||| (((ts >>> 30) &&& 0x07).toUInt8 <<< 1) ||| 1,
   ((ts >>> 22) &&& 0xFF).toUInt8,
   (((ts >>> 15) &&& 0x7F).toUInt8 <<< 1) ||| 1,
   ((ts >>> 7) &&& 0xFF).toUInt8,
   ((ts &&& 0x7F).toUInt8 <<< 1) ||| 1]

def encodePcr (base : UInt64) : Bytes :=
  [((base >>> 25) &&& 0xFF).toUInt8,
   ((base >>> 17) &&& 0xFF).toUInt8,
   ((base >>> 9) &&& 0xFF).toUInt8,
   ((base >>> 1) &&& 0xFF).toUInt8,
   ((base &&& 0x1).toUInt8 <<< 7) ||| 0x7E,
   0x00]

/-- `u16::to_be_bytes`. -/
def u16ToBeBytes (n : UInt16) : Bytes := [(n >>> 8).toUInt8, n.toUInt8]

/-- `u32::to_be_bytes`. -/
def u32ToBeBytes (n : UInt32) : Bytes :=
  [(n >>> 24).toUInt8, (n >>> 16).toUInt8, (n >>> 8).toUInt8, n.toUInt8]

/-- `u16::try_from(n).unwrap_or(0)`. -/
def u16TryFrom (n : ℕ) : UInt16 := if n ≤ 0xFFFF then UInt16.ofNat n else 0

def buildPes (streamId : UInt8) (pts : UInt64) (payload : Bytes) : Bytes :=
  let lengthField := u16TryFrom (8 + payload.length)
  [0x00, 0x00, 0x01, streamId] ++ u16ToBeBytes lengthField ++ [0x80, 0x80, 0x05] ++
    encodeTimestamp 0b0010 pts ++ payload

/-- One round of the shift register. -/
def crc32Shift (crc : UInt32) : UInt32 :=
  if crc &&& 0x80000000 ≠ 0 then (crc <<< 1) ^^^ 0x04C11DB7 else crc <<< 1

def crc32Byte (crc : UInt32) (byte : UInt8) : UInt32 :=
  Nat.repeat crc32Shift 8 (crc ^^^ (byte.toUInt32 <<< 24))

def crc32Mpeg (data : Bytes) : UInt32 := data.foldl crc32Byte 0xFFFFFFFF

def patSection : Bytes :=
  let s : Bytes :=
    [0x00, 0xB0, 0x0D, 0x00, 0x01, 0xC1, 0x00, 0x00, 0x00, 0x01,
     (0xE0 : UInt8) ||| (PID_PMT >>> 8).toUInt8, (PID_PMT &&& 0xFF).toUInt8]
  s ++ u32ToBeBytes (crc32Mpeg s)

def pmtSection : Bytes :=
  let s : Bytes :=
    [0x02, 0xB0, 0x17, 0x00, 0x01, 0xC1, 0x00, 0x00,
     (0xE0 : UInt8) ||| (PID_VIDEO >>> 8).toUInt8, (PID_VIDEO &&& 0xFF).toUInt8, 0xF0, 0x00,
     STREAM_TYPE_H264, (0xE0 : UInt8) ||| (PID_VIDEO >>> 8).toUInt8, (PID_VIDEO &&& 0xFF).toUInt8,
     0xF0, 0x00,
     STREAM_TYPE_AAC, (0xE0 : UInt8) ||| ( PID_AUDIO >>> 8).toUInt8, ( PID_AUDIO &&& 0xFF).toUInt8,
     0xF0, 0x00]
  s ++ u32ToBeBytes (crc32Mpeg s)

/-- The 188 bytes start out as `0xFF`; header, pointer field and section overwrite the front. -/
def MpegTsMuxer.psiPacket (m : MpegTsMuxer) (pid : UInt16) (sect : Bytes) (which : Cc) :
    Bytes × MpegTsMuxer :=
  let (cc, m) := m.takeCc which
  let front := tsHeader pid true 0b01 cc ++ [0x00] ++ sect
  (front ++ List.replicate (TS_PACKET_LEN - front.length) 0xFF, m)

/-- One turn of the loop in `write_payload`: the packet, and how many bytes of
`rest` (the payload from `offset` on) it takes. -/
def payloadPacket (pid : UInt16) (first : Bool) (cc : UInt8) (pcr : Option UInt64)
    (rest : Bytes) : Bytes × ℕ :=
  let remaining := rest.length
  let needPcr := first && pcr.isSome
  if !needPcr && decide (184 ≤ remaining) then
    (tsHeader pid first 0b01 cc ++ rest.take 184, 184)
  else
    let pcrBytes := if needPcr then 6 else 0
    let maxPayload := TS_PACKET_LEN - 4 - 1 - 1 - pcrBytes
    let take := min remaining maxPayload
    let afLen := 183 - take
    let front := tsHeader pid first 0b11 cc ++ [UInt8.ofNat afLen] ++
      [if needPcr then 0x10 else 0x00] ++ (if needPcr then encodePcr (pcr.getD 0) else [])
    (front ++ List.replicate (TS_PACKET_LEN - take - front.length) 0xFF ++ rest.take take, take)

/-- The loop of `write_payload`, one packet a turn, on the payload from `offset` on.
Each turn takes at least one byte, so `fuel = rest.length` is enough. -/
def MpegTsMuxer.writeLoop (pid : UInt16) (kind : Cc) (pcr : Option UInt64) :
    ℕ → MpegTsMuxer → Bool → Bytes → List Bytes × MpegTsMuxer
  | 0, m, _, _ => ([], m)
  | fuel + 1, m, first, rest =>
    if rest = [] then ([], m)
    else
      let (cc, m) := m.takeCc kind
      let (pkt, take) := payloadPacket pid first cc pcr rest
      let (pkts, m) := writeLoop pid kind pcr fuel m false (rest.drop take)
      (pkt :: pkts, m)

/-- The packets of `write_payload`, before they are appended to one buffer. -/
def MpegTsMuxer.writePackets (m : MpegTsMuxer) (pid : UInt16) (kind : Cc) (payload : Bytes)
    (pcr : Option UInt64) : List Bytes × MpegTsMuxer :=
  writeLoop pid kind pcr payload.length m true payload

def MpegTsMuxer.writePayload (m : MpegTsMuxer) (pid : UInt16) (kind : Cc) (payload : Bytes)
    (pcr : Option UInt64) : Bytes × MpegTsMuxer :=
  let (pkts, m) := m.writePackets pid kind payload pcr
  (pkts.flatten, m)

def MpegTsMuxer.pushAccessUnit (m : MpegTsMuxer) (annexb : Bytes) (pts : UInt64)
    (keyframe : Bool) : Bytes × MpegTsMuxer :=
  let (psi, m) :=
    if keyframe then
      let (pat, m) := m.psiPacket PID_PAT patSection .pat
      let (pmt, m) := m.psiPacket PID_PMT pmtSection .pmt
      (pat ++ pmt, m)
    else ([], m)
  let pes := buildPes STREAM_ID_VIDEO pts annexb
  let (ts, m) := m.writePayload PID_VIDEO .video pes (some pts)
  (psi ++ ts, m)

def MpegTsMuxer.pushAudioAccessUnit (m : MpegTsMuxer) (adts : Bytes) (pts : UInt64) :
    Bytes × MpegTsMuxer :=
  let pes := buildPes STREAM_ID_AUDIO pts adts
  m.writePayload PID_AUDIO .audio pes none

/-! ### Runs -/

/-- A call on the muxer. -/
inductive Push where
  | video (annexb : Bytes) (pts : UInt64) (keyframe : Bool)
  | audio (adts : Bytes) (pts : UInt64)
  deriving DecidableEq, Repr

def MpegTsMuxer.push (m : MpegTsMuxer) : Push → Bytes × MpegTsMuxer
  | .video annexb pts keyframe => m.pushAccessUnit annexb pts keyframe
  | .audio adts pts => m.pushAudioAccessUnit adts pts

/-- The output of each call of a run, in order, and the muxer after it. -/
def MpegTsMuxer.run : MpegTsMuxer → List Push → List Bytes × MpegTsMuxer
  | m, [] => ([], m)
  | m, c :: cs =>
    let (out, m) := m.push c
    let (outs, m) := run m cs
    (out :: outs, m)

end HorizonCast
