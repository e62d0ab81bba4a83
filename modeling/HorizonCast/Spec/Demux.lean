import HorizonCast.Spec.MpegTs
import HorizonCast.Lib.Reassembly

/-! What a receiver makes of the transport stream, written from the format and
not from the muxer. `demux` knows the PID it wants; `receive` starts with no
state and learns the PIDs from the PAT and the PMT. -/

namespace HorizonCast

open Reassembly

def byteAt (b : Bytes) (i : ℕ) : UInt8 := b.getD i 0

/-! ### Packets -/

def packetPid (pkt : Bytes) : UInt16 :=
  ((byteAt pkt 1 &&& 0x1F).toUInt16 <<< 8) ||| (byteAt pkt 2).toUInt16

def packetPusi (pkt : Bytes) : Bool := byteAt pkt 1 &&& 0x40 != 0

/-- `adaptation_field_control`. -/
def packetAfc (pkt : Bytes) : UInt8 := (byteAt pkt 3 >>> 4) &&& 0x03

def packetCc (pkt : Bytes) : ℕ := (byteAt pkt 3 &&& 0x0F).toNat

/-- The packet less its header and, when there is one, its adaptation field. -/
def packetPayload (pkt : Bytes) : Bytes :=
  if packetAfc pkt = 0b01 then pkt.drop 4
  else if packetAfc pkt = 0b11 then pkt.drop (4 + 1 + (byteAt pkt 4).toNat)
  else []

/-- The packets of one PID. -/
def packetsOn (pid : UInt16) (pkts : List Bytes) : List Bytes :=
  pkts.filter fun pkt => packetPid pkt == pid

def fragment (pkt : Bytes) : Fragment UInt8 := ⟨packetPusi pkt, packetPayload pkt⟩

/-! ### PES packets -/

/-- An access unit as it is received: its bytes and its 33-bit time. -/
structure AccessUnit where
  data : Bytes
  pts : ℕ
  deriving DecidableEq, Repr

/-- The low 33 bits of a time, which is all a PES header has room for. -/
def clock33 (pts : UInt64) : ℕ := pts.toNat % 2 ^ 33

/-- The elementary stream a call belongs to. -/
def Push.stream : Push → Cc
  | .video .. => .video
  | .audio .. => .audio

def Push.keyframe : Push → Bool
  | .video _ _ keyframe => keyframe
  | .audio .. => false

/-- The access unit a call pushes, its time read by `time`. -/
def Push.unit (time : UInt64 → ℕ) : Push → AccessUnit
  | .video annexb pts _ => ⟨annexb, time pts⟩
  | .audio adts pts => ⟨adts, time pts⟩

/-- The access units pushed on one stream. -/
def unitsOn (which : Cc) (time : UInt64 → ℕ) (calls : List Push) : List AccessUnit :=
  (calls.filter fun c => c.stream = which).map (Push.unit time)

def decodeTimestamp (b : Bytes) : ℕ :=
  (byteAt b 0 >>> 1 &&& 0x07).toNat * 2 ^ 30 + (byteAt b 1).toNat * 2 ^ 22 +
    (byteAt b 2 >>> 1 &&& 0x7F).toNat * 2 ^ 15 + (byteAt b 3).toNat * 2 ^ 7 +
    (byteAt b 4 >>> 1 &&& 0x7F).toNat

/-- The start code and the PTS flag are checked; the header's own length says where it ends. -/
def parsePes (pes : Bytes) : Option AccessUnit :=
  if pes.take 3 = [0x00, 0x00, 0x01] ∧ byteAt pes 7 &&& 0x80 ≠ 0 then
    some ⟨pes.drop (9 + (byteAt pes 8).toNat), decodeTimestamp (pes.drop 9)⟩
  else none

/-- The access units on `pid`: a PES packet starts at each PUSI and runs to the next. -/
def demuxPackets (pid : UInt16) (pkts : List Bytes) : List AccessUnit :=
  (reassemble ((packetsOn pid pkts).map fragment)).2.filterMap parsePes

def demux (pid : UInt16) (stream : Bytes) : List AccessUnit :=
  demuxPackets pid (blocks TS_PACKET_LEN stream)

/-- The PES packets on `pid`, each running to the next PUSI. -/
def pesPackets (pid : UInt16) (stream : Bytes) : List Bytes :=
  (reassemble ((packetsOn pid (blocks TS_PACKET_LEN stream)).map fragment)).2

/-- `PES_packet_length`. -/
def pesLength (pes : Bytes) : ℕ := (byteAt pes 4).toNat * 256 + (byteAt pes 5).toNat

/-- How long a PES packet on `pid` is to be, once its first six bytes are there. A length
of 0 leaves that open, on the video PID only. -/
def pesSize (pid : UInt16) (pes : Bytes) : Option ℕ :=
  if 6 ≤ pes.length then
    if pesLength pes = 0 ∧ pid = PID_VIDEO then none else some (6 + pesLength pes)
  else none

/-- As `demux`, with each PES packet ended by its own length. -/
def demuxByLength (pid : UInt16) (stream : Bytes) : List AccessUnit :=
  (collect (pesSize pid) none
    ((packetsOn pid (blocks TS_PACKET_LEN stream)).map fragment)).filterMap parsePes

/-! ### Program tables -/

/-- A 13-bit PID field, three reserved bits above it. -/
def pidField (hi lo : UInt8) : UInt16 := ((hi &&& 0x1F).toUInt16 <<< 8) ||| lo.toUInt16

/-- A 12-bit length field, four other bits above it. -/
def lengthField (hi lo : UInt8) : ℕ := (hi &&& 0x0F).toNat * 256 + lo.toNat

/-- The section at the start of a PSI payload, less its CRC, when its length and
its CRC-32 check. -/
def checkedSection (payload : Bytes) : Option Bytes :=
  let sect := payload.drop (1 + (byteAt payload 0).toNat)
  let len := 3 + lengthField (byteAt sect 1) (byteAt sect 2)
  if 12 ≤ len ∧ len ≤ sect.length ∧
      u32ToBeBytes (crc32Mpeg (sect.take (len - 4))) = (sect.take len).drop (len - 4) then
    some (sect.take (len - 4))
  else none

def sectionIn (pkt : Bytes) : Option Bytes :=
  if packetPusi pkt then checkedSection (packetPayload pkt) else none

/-- The PMT PID of the first program of a PAT. -/
def patPmtPid (sect : Bytes) : Option UInt16 :=
  if byteAt sect 0 = 0x00 then
    ((blocks 4 (sect.drop 8)).find? fun e => e.take 2 ≠ [0, 0]).map fun e =>
      pidField (byteAt e 2) (byteAt e 3)
  else none

/-- The stream types and PIDs of a PMT's elementary-stream loop. -/
def esLoop : ℕ → Bytes → List (UInt8 × UInt16)
  | 0, _ => []
  | fuel + 1, b =>
    if b.length < 5 then []
    else (byteAt b 0, pidField (byteAt b 1) (byteAt b 2)) ::
      esLoop fuel (b.drop (5 + lengthField (byteAt b 3) (byteAt b 4)))

structure Program where
  pcrPid : UInt16
  streams : List (UInt8 × UInt16)
  deriving DecidableEq, Repr

def pmtProgram (sect : Bytes) : Option Program :=
  if byteAt sect 0 = 0x02 then
    some ⟨pidField (byteAt sect 8) (byteAt sect 9),
      esLoop sect.length (sect.drop (12 + lengthField (byteAt sect 10) (byteAt sect 11)))⟩
  else none

/-! ### A receiver that joins at any time -/

/-- Skip packets until a PAT, and then the PMT it points to, have been read. -/
def acquire : Option UInt16 → List Bytes → Option (Program × List Bytes)
  | _, [] => none
  | pmtPid, pkt :: pkts =>
    if packetPid pkt = PID_PAT then
      match (sectionIn pkt).bind patPmtPid with
      | some pid => acquire (some pid) pkts
      | none => acquire pmtPid pkts
    else if pmtPid = some (packetPid pkt) then
      match (sectionIn pkt).bind pmtProgram with
      | some program => some (program, pkts)
      | none => acquire pmtPid pkts
    else acquire pmtPid pkts

/-- What is received: the PID of the clock, and for each elementary stream of
the program its type and its access units. -/
structure Reception where
  pcrPid : UInt16
  streams : List (UInt8 × List AccessUnit)
  deriving DecidableEq, Repr

def receive (stream : Bytes) : Option Reception :=
  (acquire none (blocks TS_PACKET_LEN stream)).map fun (program, pkts) =>
    ⟨program.pcrPid, program.streams.map fun (type, pid) => (type, demuxPackets pid pkts)⟩

/-- What the chunks of `calls` should give: nothing before the first keyframe,
and from it on every access unit. -/
def fromKeyframe (time : UInt64 → ℕ) (calls : List Push) : Option Reception :=
  match calls.dropWhile fun c => !c.keyframe with
  | [] => none
  | c :: cs => some ⟨PID_VIDEO, [(STREAM_TYPE_H264, unitsOn .video time (c :: cs)),
      (STREAM_TYPE_AAC, unitsOn .audio time (c :: cs))]⟩

end HorizonCast
