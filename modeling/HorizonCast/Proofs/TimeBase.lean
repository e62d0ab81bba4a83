import HorizonCast.Proofs.FrameCopy
import HorizonCast.Spec.Encode

/-! The timestamp of a frame on its way through Media Foundation: 90 kHz into units of 100 ns
and back, both rounded down. -/

namespace HorizonCast

open Text

/-! ### Arithmetic -/

/-- Where nothing saturates, the sample time is the time in 100 ns, rounded down. -/
theorem time100ns_eq {pts : UInt64} (h : pts.toNat ≤ (2 ^ 63 - 1) / 1000) :
    time100ns pts = (pts.toNat * 1000 / 9 : ℕ) := by
  have hint : pts.toInt64.toInt = pts.toNat := by
    have hlt : 2 * pts.toBitVec.toNat < 2 ^ 64 := by
      change 2 * pts.toNat < 2 ^ 64
      omega
    exact BitVec.toInt_eq_toNat_of_lt hlt
  have hfits : max (-2 ^ 63 : ℤ) (min (2 ^ 63 - 1) ((pts.toNat : ℤ) * 1000)) =
      (pts.toNat * 1000 : ℕ) := by
    omega
  rw [time100ns, hint, hfits]
  rfl

/-- The way there and back keeps the multiples of 9 and takes one off the other numbers. -/
theorem samplePts_time100ns {pts : UInt64} (h : pts.toNat ≤ (2 ^ 63 - 1) / 1000) :
    (samplePts (some (time100ns pts))).toNat =
      if 9 ∣ pts.toNat then pts.toNat else pts.toNat - 1 := by
  have hback : pts.toNat * 1000 / 9 * 9 / 1000 =
      if 9 ∣ pts.toNat then pts.toNat else pts.toNat - 1 := by
    split_ifs with hdvd
    · obtain ⟨q, hq⟩ := hdvd
      omega
    · -- 1000 is one more than a multiple of 9, so the first division is not exact either
      have hrest : pts.toNat * 1000 % 9 = pts.toNat % 9 := by omega
      have hpos : 0 < pts.toNat % 9 := Nat.pos_of_ne_zero fun h => hdvd (Nat.dvd_of_mod_eq_zero h)
      have hdiv := Nat.div_add_mod (pts.toNat * 1000) 9
      omega
  have hfits : min (pts.toNat * 1000 / 9 * 9) (2 ^ 64 - 1) = pts.toNat * 1000 / 9 * 9 := by
    omega
  rw [time100ns_eq h, samplePts, Option.map_some, Option.getD_some, Int.toNat_natCast, hfits, hback,
    UInt64.toNat_ofNat']
  have hlt := pts.toNat_lt
  split_ifs
  all_goals exact Nat.mod_eq_of_lt (by omega)

/-! ### Samples -/

theorem bind_eq_ok {α β : Type} {x : Except Failure α} {f : α → Except Failure β} {b : β} :
    (x >>= f) = .ok b ↔ ∃ a, x = .ok a ∧ f a = .ok b := by
  cases x with
  | error e =>
    constructor
    · intro h
      cases h
    · rintro ⟨a, ha, -⟩
      cases ha
  | ok a =>
    constructor
    · exact fun h => ⟨a, rfl, h⟩
    · rintro ⟨a', ha, h⟩
      cases ha
      exact h

theorem makeInputSample_time {self : MfEncoder} {build : Build} {mf : MediaFoundation}
    {frame : CapturedFrame} {pts : UInt64} {sample : Sample}
    (h : self.makeInputSample build mf frame pts = .ok sample) : sample.time = time100ns pts := by
  unfold MfEncoder.makeInputSample at h
  simp only [bind_eq_ok] at h
  obtain ⟨total, -, -, -, -, -, h⟩ := h
  split_ifs at h
  · cases h
  · simp only [bind_eq_ok] at h
    obtain ⟨buffer, -, -, -, -, -, -, -, -, -, -, -, -, -, h⟩ := h
    cases h
    rfl

theorem readAccessUnit_pts {sample : IMFSample} {unit : EncodedFrame}
    (h : readAccessUnit sample = .ok unit) : unit.pts = samplePts sample.sampleTime := by
  simp only [readAccessUnit, bind_eq_ok] at h
  obtain ⟨-, -, -, -, h⟩ := h
  cases h
  rfl

/-- A timestamp comes back from an encoder that keeps the sample time just when it is a
multiple of 9. -/
theorem timestamp_kept_iff {self : MfEncoder} {build : Build} {mf : MediaFoundation}
    {frame : CapturedFrame} {pts : UInt64} {input : Sample} {output : IMFSample}
    {unit : EncodedFrame} (hpts : pts.toNat ≤ (2 ^ 63 - 1) / 1000)
    (hinput : self.makeInputSample build mf frame pts = .ok input)
    (htime : output.sampleTime = some input.time) (hunit : readAccessUnit output = .ok unit) :
    unit.pts = pts ↔ 9 ∣ pts.toNat := by
  rw [readAccessUnit_pts hunit, htime, makeInputSample_time hinput, ← UInt64.toNat_inj,
    samplePts_time100ns hpts]
  split_ifs with hdvd
  · exact iff_of_true rfl hdvd
  · refine iff_of_false ?_ hdvd
    -- zero is a multiple of 9, so one is really taken off
    omega

/-- The encoder of two by two pixels. -/
def smallEncoder : MfEncoder := .new (.ofFirst (blankFrame 2 2) 60 4000)

/-- An output sample with no bytes. -/
def outputAt (time : ℤ) : IMFSample where
  cleanPoint := some 1
  sampleTime := some time
  bytes := []

theorem timestamp_kept_second :
    ∃ unit, readAccessUnit (outputAt 10000000) = .ok unit ∧ unit.pts = 90000 := by
  have hinput : smallEncoder.makeInputSample .release { memory := fun _ => 0 } (blankFrame 2 2)
      90000 = .ok ⟨List.replicate 6 0, 10000000, 166666⟩ := by decide +kernel
  have htime : (outputAt 10000000).sampleTime = some 10000000 := rfl
  have hunit : readAccessUnit (outputAt 10000000) = .ok ⟨[], 90000, true⟩ := by decide +kernel
  exact ⟨_, hunit, (timestamp_kept_iff (by decide) hinput htime hunit).mpr (by decide)⟩

/-- The second frame at 60 frames a second. -/
theorem timestamp_shifted :
    smallEncoder.makeInputSample .release { memory := fun _ => 0 } (blankFrame 2 2) 1500 =
        .ok ⟨List.replicate 6 0, 166666, 166666⟩ ∧
      readAccessUnit (outputAt 166666) = .ok ⟨[], 1499, true⟩ := by
  decide +kernel

end HorizonCast
