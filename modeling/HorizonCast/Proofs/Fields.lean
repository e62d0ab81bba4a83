import HorizonCast.Spec.Demux
import Mathlib.Tactic.IntervalCases

/-! The bit fields of a packet and of a PES header read back as they were
written. Fields of one byte are checked over all its values. -/

namespace HorizonCast

/-- The PID each counter counts. -/
def Cc.pid : Cc → UInt16
  | .video => PID_VIDEO
  | .audio => PID_AUDIO
  | .pat => PID_PAT
  | .pmt => PID_PMT

theorem Cc.pid_injective {a b : Cc} (h : a.pid = b.pid) : a = b := by
  revert h
  cases a <;> cases b <;> decide

theorem Cc.pid_beq (a b : Cc) : (a.pid == b.pid) = decide (a = b) := by
  cases a <;> cases b <;> decide

/-! ### One byte -/

/-- A property of bytes that holds of all 256 of them. -/
theorem byte_forall {p : UInt8 → Prop} (h : ∀ i : Fin 256, p (UInt8.ofNat i.val)) (b : UInt8) :
    p b := by
  simpa using h ⟨b.toNat, b.toNat_lt⟩

theorem nibble_toNat (v : UInt8) : (v &&& 0x0F).toNat = v.toNat % 16 :=
  byte_forall (p := fun v => (v &&& 0x0F).toNat = v.toNat % 16) (by decide +kernel) v

/-- The fourth header byte holds `adaptation_field_control` above the counter. -/
theorem afc_cc_byte {afc : UInt8} (hafc : afc = 0b01 ∨ afc = 0b11) (cc : UInt8) :
    ((afc <<< 4) ||| (cc &&& 0x0F)) >>> 4 &&& 0x03 = afc ∧
      (((afc <<< 4) ||| (cc &&& 0x0F)) &&& 0x0F).toNat = cc.toNat % 16 := by
  revert cc
  rcases hafc with rfl | rfl <;> exact byte_forall (by decide +kernel)

/-! ### The packet header -/

@[simp] theorem tsHeader_length (pid : UInt16) (pusi : Bool) (afc cc : UInt8) :
    (tsHeader pid pusi afc cc).length = 4 := rfl

theorem tsHeader_pid (which : Cc) (pusi : Bool) (afc cc : UInt8) (b : Bytes) :
    packetPid (tsHeader which.pid pusi afc cc ++ b) = which.pid := by
  change
    ((((pusi.toUInt8 <<< 6) ||| ((which.pid >>> 8).toUInt8 &&& 0x1F)) &&& 0x1F).toUInt16 <<< 8) |||
    (which.pid &&& 0xFF).toUInt8.toUInt16 = which.pid
  cases which <;> cases pusi <;> decide

theorem tsHeader_pusi (which : Cc) (pusi : Bool) (afc cc : UInt8) (b : Bytes) :
    packetPusi (tsHeader which.pid pusi afc cc ++ b) = pusi := by
  change (((pusi.toUInt8 <<< 6) ||| ((which.pid >>> 8).toUInt8 &&& 0x1F)) &&& 0x40 != 0) = pusi
  cases which <;> cases pusi <;> decide

theorem tsHeader_cc (pid : UInt16) (pusi : Bool) (afc cc : UInt8) (b : Bytes)
    (hafc : afc = 0b01 ∨ afc = 0b11) :
    packetCc (tsHeader pid pusi afc cc ++ b) = cc.toNat % 16 := by
  exact (afc_cc_byte hafc cc).2

/-- A packet with no adaptation field is all payload after the header. -/
theorem payload_of_header (pid : UInt16) (pusi : Bool) (cc : UInt8) (b : Bytes) :
    packetPayload (tsHeader pid pusi 0b01 cc ++ b) = b := by
  have hafc : packetAfc (tsHeader pid pusi 0b01 cc ++ b) = 0b01 :=
    (afc_cc_byte (.inl rfl) cc).1
  rw [packetPayload, if_pos hafc]
  exact List.drop_left' rfl

/-- The adaptation field ends where its length byte says. -/
theorem payload_of_adaptation (pid : UInt16) (pusi : Bool) (cc afLen : UInt8) (field b : Bytes)
    (hlen : field.length = afLen.toNat) :
    packetPayload (tsHeader pid pusi 0b11 cc ++ [afLen] ++ field ++ b) = b := by
  have hafc : packetAfc (tsHeader pid pusi 0b11 cc ++ [afLen] ++ field ++ b) = 0b11 :=
    (afc_cc_byte (.inr rfl) cc).1
  have hbyte : byteAt (tsHeader pid pusi 0b11 cc ++ [afLen] ++ field ++ b) 4 = afLen := rfl
  rw [packetPayload, if_neg (by rw [hafc]; decide), if_pos hafc, hbyte]
  apply List.drop_left'
  simp only [List.length_append, tsHeader_length, List.length_singleton, hlen]

/-! ### Timestamps -/

theorem low_toNat (x : UInt64) (k : ℕ) (hk : k ≤ 8) :
    (x &&& UInt64.ofNat (2 ^ k - 1)).toUInt8.toNat = x.toNat % 2 ^ k := by
  have hpow : 2 ^ k ≤ 2 ^ 8 := Nat.pow_le_pow_right (by decide) hk
  have hmod := Nat.mod_lt x.toNat (Nat.two_pow_pos k)
  rw [UInt64.toNat_toUInt8, UInt64.toNat_and,
    UInt64.toNat_ofNat_of_lt' (by change _ < 2 ^ 64; omega),
    Nat.and_two_pow_sub_one_eq_mod, Nat.mod_eq_of_lt (by omega)]

theorem shiftRight_toNat (x : UInt64) (k : ℕ) (hk : k < 64) :
    (x >>> UInt64.ofNat k).toNat = x.toNat / 2 ^ k := by
  rw [UInt64.toNat_shiftRight, UInt64.toNat_ofNat_of_lt' (by change k < 2 ^ 64; omega),
    Nat.mod_eq_of_lt hk, Nat.shiftRight_eq_div_pow]

/-- The three bits above the marker, under the `0010` prefix. -/
theorem group3 (b : UInt8) : b.toNat < 8 →
    (((0b0010 : UInt8) <<< 4 ||| b <<< 1 ||| 1) >>> 1 &&& 0x07).toNat = b.toNat :=
  byte_forall (p := fun b => b.toNat < 8 →
    (((0b0010 : UInt8) <<< 4 ||| b <<< 1 ||| 1) >>> 1 &&& 0x07).toNat = b.toNat)
    (by decide +kernel) b

/-- The seven bits above the marker. -/
theorem group7 (b : UInt8) : b.toNat < 128 →
    ((b <<< 1 ||| 1) >>> 1 &&& 0x7F).toNat = b.toNat :=
  byte_forall (p := fun b => b.toNat < 128 →
    ((b <<< 1 ||| 1) >>> 1 &&& 0x7F).toNat = b.toNat) (by decide +kernel) b

/-- The five bytes give back the low 33 bits. -/
theorem decodeTimestamp_encode (ts : UInt64) (b : Bytes) :
    decodeTimestamp (encodeTimestamp 0b0010 ts ++ b) = ts.toNat % 2 ^ 33 := by
  -- the five fields of the encoder, as digits of `ts`
  have h30 : ((ts >>> 30) &&& 0x07).toUInt8.toNat = ts.toNat / 2 ^ 30 % 2 ^ 3 :=
    (low_toNat _ 3 (by decide)).trans (by rw [← shiftRight_toNat ts 30 (by decide)]; rfl)
  have h22 : ((ts >>> 22) &&& 0xFF).toUInt8.toNat = ts.toNat / 2 ^ 22 % 2 ^ 8 :=
    (low_toNat _ 8 (by decide)).trans (by rw [← shiftRight_toNat ts 22 (by decide)]; rfl)
  have h15 : ((ts >>> 15) &&& 0x7F).toUInt8.toNat = ts.toNat / 2 ^ 15 % 2 ^ 7 :=
    (low_toNat _ 7 (by decide)).trans (by rw [← shiftRight_toNat ts 15 (by decide)]; rfl)
  have h7 : ((ts >>> 7) &&& 0xFF).toUInt8.toNat = ts.toNat / 2 ^ 7 % 2 ^ 8 :=
    (low_toNat _ 8 (by decide)).trans (by rw [← shiftRight_toNat ts 7 (by decide)]; rfl)
  have h0 : (ts &&& 0x7F).toUInt8.toNat = ts.toNat % 2 ^ 7 := low_toNat ts 7 (by decide)
  change (((0b0010 : UInt8) <<< 4 ||| (((ts >>> 30) &&& 0x07).toUInt8 <<< 1) ||| 1) >>> 1 &&&
      0x07).toNat * 2 ^ 30 + ((ts >>> 22) &&& 0xFF).toUInt8.toNat * 2 ^ 22 +
    (((((ts >>> 15) &&& 0x7F).toUInt8 <<< 1) ||| 1) >>> 1 &&& 0x7F).toNat * 2 ^ 15 +
    ((ts >>> 7) &&& 0xFF).toUInt8.toNat * 2 ^ 7 +
    ((((ts &&& 0x7F).toUInt8 <<< 1) ||| 1) >>> 1 &&& 0x7F).toNat = _
  rw [group3 _ (by omega), group7 _ (by omega), group7 _ (by omega), h30, h22, h15, h7, h0]
  omega

end HorizonCast
