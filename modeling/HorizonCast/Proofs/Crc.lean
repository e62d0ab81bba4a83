import HorizonCast.Lib.Gf2
import HorizonCast.Spec.Demux

/-! The checksum of a program table section. The loop over bytes and bits is a shift
register over GF(2), and what it leaves is the remainder of the section, its leading bits
inverted, by the polynomial of MPEG-2. -/

namespace HorizonCast

open Polynomial Gf2

/-! ### The register -/

/-- The polynomial of MPEG-2, without its leading coefficient. -/
def crcPoly : BitVec 32 := 0x04C11DB7#32

theorem crc32Shift_toBitVec (crc : UInt32) :
    (crc32Shift crc).toBitVec = shift crcPoly crc.toBitVec := by
  have hmask : (crc &&& 0x80000000).toBitVec =
      if crc.toBitVec.msb then BitVec.twoPow 32 31 else 0#32 := by
    rw [BitVec.msb_eq_getLsbD_last]
    exact BitVec.and_twoPow crc.toBitVec 31
  have hmsb : crc &&& 0x80000000 ≠ 0 ↔ crc.toBitVec.msb = true := by
    rw [Ne, ← UInt32.toBitVec_inj, hmask]
    cases crc.toBitVec.msb <;> decide
  unfold crc32Shift shift
  by_cases h : crc.toBitVec.msb = true
  · rw [if_pos (hmsb.mpr h), if_pos h]
    rfl
  · rw [if_neg (fun hne => h (hmsb.mp hne)), if_neg h]
    rfl

theorem crc32Byte_toBitVec (crc : UInt32) (byte : UInt8) :
    (crc32Byte crc byte).toBitVec = absorb crcPoly crc.toBitVec byte.toBitVec := by
  have hshifts : ∀ (k : ℕ) (c : UInt32), (Nat.repeat crc32Shift k c).toBitVec =
      Nat.repeat (shift crcPoly) k c.toBitVec := by
    intro k c
    induction k with
    | zero => rfl
    | succ k ih => rw [Nat.repeat, crc32Shift_toBitVec, ih, Nat.repeat]
  rw [crc32Byte, hshifts, absorb]
  rfl

/-- The loop over the bytes is the register over GF(2). -/
theorem crc32_toBitVec (data : Bytes) (crc : UInt32) :
    (data.foldl crc32Byte crc).toBitVec =
      (data.map UInt8.toBitVec).foldl (absorb crcPoly) crc.toBitVec := by
  induction data generalizing crc with
  | nil => rfl
  | cons byte data ih =>
    rw [List.foldl_cons, ih, crc32Byte_toBitVec, List.map_cons, List.foldl_cons]

/-! ### The remainder -/

/-- The bits of a byte string, the leading one of each byte first. -/
def bitsOf (d : Bytes) : List Bool := (d.map UInt8.toBitVec).flatMap wordBits

theorem bitsOf_be (n : UInt32) : bitsOf (u32ToBeBytes n) = wordBits n.toBitVec := by
  have hword : ∀ w : BitVec 32, w = (w >>> 24).setWidth 8 ++ ((w >>> 16).setWidth 8 ++
      ((w >>> 8).setWidth 8 ++ w.setWidth 8)) := by
    intro w
    apply BitVec.eq_of_getLsbD_eq
    intro i hi
    simp only [BitVec.getLsbD_append, BitVec.getLsbD_setWidth, BitVec.getLsbD_ushiftRight]
    split_ifs with h24 h16 h8
    · simp [h8]
    · simp [show i - 8 < 8 by omega, show 8 + (i - 8) = i by omega]
    · simp [show i - 16 < 8 by omega, show 16 + (i - 16) = i by omega]
    · simp [show i - 24 < 8 by omega, show 24 + (i - 24) = i by omega]
  have hbytes : n.toBitVec = (n >>> 24).toUInt8.toBitVec ++ ((n >>> 16).toUInt8.toBitVec ++
      ((n >>> 8).toUInt8.toBitVec ++ n.toUInt8.toBitVec)) := hword n.toBitVec
  rw [hbytes, wordBits_append, wordBits_append, wordBits_append]
  simp [bitsOf, u32ToBeBytes]

theorem bitsOf_cons (b : UInt8) (d : Bytes) : bitsOf (b :: d) = wordBits b.toBitVec ++ bitsOf d :=
  rfl

/-- Byte strings are told apart by their bits. -/
theorem bitsOf_injective {s t : Bytes} (h : bitsOf s = bitsOf t) : s = t := by
  have hne : ∀ (b : UInt8) (d : Bytes), bitsOf (b :: d) ≠ [] := by
    intro b d hnil
    have hlen := congrArg List.length (List.append_eq_nil_iff.mp hnil).1
    rw [length_wordBits] at hlen
    cases hlen
  induction s generalizing t with
  | nil =>
    cases t with
    | nil => rfl
    | cons c t => exact absurd h.symm (hne c t)
  | cons b s ih =>
    cases t with
    | nil => exact absurd h (hne b s)
    | cons c t =>
      rw [bitsOf_cons, bitsOf_cons] at h
      obtain ⟨hword, hrest⟩ := List.append_inj h (by rw [length_wordBits, length_wordBits])
      have hbyte : b = c := by
        apply UInt8.toBitVec_inj.mp
        exact ofWord_injective (congrArg ofBits hword)
      rw [hbyte, ih hrest]

/-- The checksum of a section followed by four bytes is 0 when they are its checksum, and
not otherwise. -/
theorem crc32_check (d : Bytes) {t : Bytes} (ht : t.length = 4) :
    crc32Mpeg (d ++ t) = 0 ↔ u32ToBeBytes (crc32Mpeg d) = t := by
  have hcleared : (t.map UInt8.toBitVec).foldl (absorb crcPoly) (crc32Mpeg d).toBitVec = 0#32 ↔
      bitsOf t = wordBits (crc32Mpeg d).toBitVec :=
    run_eq_zero_iff crcPoly (by decide) (by decide) (by decide) (by rw [List.length_map, ht])
  rw [crc32Mpeg, List.foldl_append, ← crc32Mpeg, ← UInt32.toBitVec_inj, crc32_toBitVec]
  refine hcleared.trans ?_
  rw [← bitsOf_be]
  constructor
  · intro h
    exact (bitsOf_injective h).symm
  · rintro rfl
    rfl

example : crc32Mpeg patSection = 0 ∧ crc32Mpeg pmtSection = 0 :=
  ⟨(crc32_check _ rfl).mpr rfl, (crc32_check _ rfl).mpr rfl⟩

/-- The checksum is the remainder of the bits of `d` and 32 zeros, the 32 leading ones
inverted, and a receiver that goes on over the checksum is left with 0. -/
theorem crc32_remainder (d : Bytes) :
    (∀ crc : UInt32, crc32Mpeg d = crc ↔ ofWord crc.toBitVec =
      ofBits (invertLeading 32 (bitsOf d ++ List.replicate 32 false)) %ₘ
        (X ^ 32 + ofWord 0x04C11DB7#32)) ∧
    crc32Mpeg (d ++ u32ToBeBytes (crc32Mpeg d)) = 0 := by
  have hmod := run_eq_mod crcPoly (by decide : 0 < 8) (by decide) (d.map UInt8.toBitVec)
  have hcrc : ofWord (crc32Mpeg d).toBitVec =
      ofBits (invertLeading 32 (bitsOf d ++ List.replicate 32 false)) %ₘ
        (X ^ 32 + ofWord 0x04C11DB7#32) := by
    rw [crc32Mpeg, crc32_toBitVec]
    exact hmod
  constructor
  · intro crc
    rw [← hcrc]
    constructor
    · rintro rfl
      rfl
    · intro h
      exact UInt32.toBitVec_inj.mp (ofWord_injective h.symm)
  · exact (crc32_check d rfl).mpr rfl

example : crc32Mpeg [0x31, 0x32, 0x33, 0x34, 0x35, 0x36, 0x37, 0x38, 0x39] = 0x0376E6E7 := by
  decide +kernel

end HorizonCast
