import HorizonCast.Lib.Text
import Mathlib.Data.Fin.Basic
import Mathlib.Order.Lex
import Mathlib.Tactic.Linarith

/-! Cast targets and their addresses (`hc-core/src/types.rs`, and `IpAddr` of the
standard library). -/

namespace HorizonCast

open Text

/-! ### Addresses -/

/-- `IpAddr`: the bits of the address, most significant octet first. -/
inductive IpAddr where
  | v4 (bits : Fin (2 ^ 32))
  | v6 (bits : Fin (2 ^ 128))
  deriving DecidableEq, Repr

namespace IpAddr

/-- Every IPv4 address comes before every IPv6 address; within a family the
order is that of the octets. -/
def key : IpAddr → ℕ
  | v4 bits => bits
  | v6 bits => 2 ^ 32 + bits

theorem key_injective : Function.Injective key := by
  intro a b h
  cases a <;> cases b <;> simp only [key] at h
  · rw [Fin.ext h]
  · omega
  · omega
  · rw [Fin.ext (Nat.add_left_cancel h)]

instance : LinearOrder IpAddr := LinearOrder.lift' key key_injective

def octets (bits : ℕ) : List ℕ :=
  [bits / 2 ^ 24, bits / 2 ^ 16 % 256, bits / 2 ^ 8 % 256, bits % 256]

def segments (bits : ℕ) : List ℕ :=
  (List.range 8).map fun i => bits / 2 ^ (16 * (7 - i)) % 2 ^ 16

/-- `::ffff:a.b.c.d`. -/
def toIpv4Mapped (bits : ℕ) : Option ℕ :=
  if bits / 2 ^ 32 = 0xFFFF then some (bits % 2 ^ 32) else none

/-- Start and length of the first longest run of zero segments. -/
def longestZeros (segments : List ℕ) : ℕ × ℕ :=
  (segments.zipIdx.foldl (fun (longest, current) (segment, i) =>
    if segment = 0 then
      let current := if current.2 = 0 then (i, 1) else (current.1, current.2 + 1)
      (if longest.2 < current.2 then current else longest, current)
    else (longest, (0, 0))) ((0, 0), (0, 0))).1

def showV4 (bits : ℕ) : Str := List.intercalate ['.'] ((octets bits).map decimal)

def showSegments (segments : List ℕ) : Str :=
  List.intercalate [':'] (segments.map (Nat.toDigits 16))

/-- `to_string` of an address. -/
def toText : IpAddr → Str
  | v4 bits => showV4 bits
  | v6 bits =>
    match toIpv4Mapped bits with
    | some ipv4 => "::ffff:".toList ++ showV4 ipv4
    | none =>
      let segments := segments bits
      let (start, len) := longestZeros segments
      if 1 < len then
        showSegments (segments.take start) ++ "::".toList ++
          showSegments (segments.drop (start + len))
      else showSegments segments

end IpAddr

/-! ### Devices -/

/-- A casting transport that a device can speak. -/
inductive Protocol where
  | airPlayMirror
  | airPlayVideo
  | dlna
  | miracast
  | cast
  deriving DecidableEq, Repr

/-- A discovered cast target on the local network. -/
structure Device where
  id : Str
  name : Str
  address : IpAddr
  port : UInt16
  protocols : List Protocol
  dlnaControlUrl : Option Str
  dlnaLocation : Option Str
  deriving DecidableEq, Repr

end HorizonCast
