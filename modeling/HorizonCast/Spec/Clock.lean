import HorizonCast.Spec.Demux

/-! Capture times as stream times (`hc-core/src/clock.rs`), and the program clock
reference that a receiver reads from a packet. -/

namespace HorizonCast

/-! ### Capture times -/

/-- `std::time::Duration`, in nanoseconds: its seconds fit a `u64`. -/
structure Duration where
  asNanos : ℕ
  bounded : asNanos < 2 ^ 64 * 10 ^ 9
  deriving DecidableEq

namespace Duration

instance : LE Duration := ⟨fun a b => a.asNanos ≤ b.asNanos⟩

def saturatingSub (t base : Duration) : Duration :=
  ⟨t.asNanos - base.asNanos, (Nat.sub_le _ _).trans_lt t.bounded⟩

end Duration

/-- `*` at `u128`, which wraps in a release build. -/
def u128Mul (a b : ℕ) : ℕ := a * b % 2 ^ 128

/-- `u64::try_from(n).unwrap_or(u64::MAX)`. -/
def u64TryFromOrMax (n : ℕ) : UInt64 := UInt64.ofNat (min n (2 ^ 64 - 1))

structure PtsClock where
  base : Option Duration := none

namespace PtsClock

def new : PtsClock := {}

/-- 90 kHz PTS for a sample captured at time `t`. The first call anchors the zero point. -/
def pts (self : PtsClock) (t : Duration) : UInt64 × PtsClock :=
  let base := self.base.getD t
  let rel := t.saturatingSub base
  (u64TryFromOrMax (u128Mul rel.asNanos 9 / 100000), { base := some base })

/-- The timestamps of a sequence of samples. -/
def run : PtsClock → List Duration → List UInt64 × PtsClock
  | self, [] => ([], self)
  | self, t :: ts =>
    let (pts, self) := self.pts t
    let (rest, self) := run self ts
    (pts :: rest, self)

end PtsClock

/-- The ticks of 90 kHz from `base` to `t`, none before it, as far as 64 bits go.
This and `streamTime` say what the clock is for; they are not translated from the
source. -/
def Duration.ticksSince (base t : Duration) : ℕ :=
  min (90000 * (t.asNanos - base.asNanos) / 10 ^ 9) (2 ^ 64 - 1)

/-- The stream time of `t` when `times` were captured. -/
def streamTime (times : List Duration) (t : Duration) : ℕ :=
  (times.head?.map fun base => base.ticksSince t).getD 0

/-! ### The clock in the stream -/

/-- The base of a clock reference, 33 bits at 90 kHz, and its 9-bit extension. -/
def decodePcr (b : Bytes) : ℕ × ℕ :=
  ((byteAt b 0).toNat * 2 ^ 25 + (byteAt b 1).toNat * 2 ^ 17 + (byteAt b 2).toNat * 2 ^ 9 +
      (byteAt b 3).toNat * 2 + (byteAt b 4 >>> 7).toNat,
    (byteAt b 4 &&& 0x01).toNat * 2 ^ 8 + (byteAt b 5).toNat)

/-- The clock reference of a packet, when its adaptation field has one. -/
def packetPcr (pkt : Bytes) : Option (ℕ × ℕ) :=
  if packetAfc pkt &&& 0b10 ≠ 0 ∧ 7 ≤ (byteAt pkt 4).toNat ∧ byteAt pkt 5 &&& 0x10 ≠ 0 then
    some (decodePcr (pkt.drop 6))
  else none

/-- The time of a video access unit. -/
def Push.videoPts : Push → Option UInt64
  | .video _ pts _ => some pts
  | .audio .. => none

/-- What a receiver reads from the packets of one video access unit: its time, the
same in the PES header and as the clock reference of the first packet, with no
other clock reference. -/
def UnitAt (time : ℕ) (unit : Bytes) : Prop :=
  (demux PID_VIDEO unit).map AccessUnit.pts = [time] ∧
    ∃ first rest, packetsOn PID_VIDEO (Reassembly.blocks TS_PACKET_LEN unit) = first :: rest ∧
      packetPusi first = true ∧ packetPcr first = some (time, 0) ∧
      ∀ pkt ∈ rest, packetPcr pkt = none

/-- No packet outside the video PID has a clock reference. -/
def OnlyVideoPcr (out : Bytes) : Prop :=
  ∀ pkt ∈ Reassembly.blocks TS_PACKET_LEN out, packetPid pkt ≠ PID_VIDEO → packetPcr pkt = none

/-- The outputs of the video calls of a run. -/
def videoUnits (calls : List Push) (outs : List Bytes) : List Bytes :=
  (calls.zip outs).filterMap fun (c, out) => c.videoPts.map fun _ => out

end HorizonCast
