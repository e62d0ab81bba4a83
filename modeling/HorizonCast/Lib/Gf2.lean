import Mathlib.Algebra.CharP.Two
import Mathlib.Algebra.Polynomial.Div
import Mathlib.Algebra.Polynomial.Degree.Operations
import Mathlib.Algebra.Polynomial.Coeff
import Mathlib.Algebra.Field.ZMod
import Mathlib.RingTheory.Coprime.Lemmas

/-! Bit strings as polynomials over GF(2), and the shift register that divides by a
polynomial. The register always holds a remainder: of what it held first, moved up by the
bits that were read, and of those bits themselves. -/

namespace Gf2

noncomputable section

open Polynomial

/-! ### Bit strings -/

/-- The polynomial whose coefficients are the bits, the leading one first. -/
def ofBits : List Bool → (ZMod 2)[X]
  | [] => 0
  | b :: bits => (if b then X ^ bits.length else 0) + ofBits bits

theorem ofBits_append (a b : List Bool) : ofBits (a ++ b) = ofBits a * X ^ b.length + ofBits b := by
  induction a with
  | nil => simp [ofBits]
  | cons c a ih =>
    rw [List.cons_append, ofBits, ih, ofBits, add_mul, List.length_append, add_assoc]
    congr 1
    split_ifs
    · rw [pow_add]
    · rw [zero_mul]

theorem coeff_ofBits (bits : List Bool) (i : ℕ) :
    (ofBits bits).coeff i = if bits.reverse.getD i false then 1 else 0 := by
  induction bits with
  | nil => simp [ofBits]
  | cons b bits ih =>
    rw [ofBits, coeff_add, ih, List.reverse_cons]
    rcases lt_trichotomy i bits.length with hi | rfl | hi
    · have hne : i ≠ bits.length := by omega
      cases b <;> simp [List.getD, List.getElem?_append_left, hi, coeff_X_pow, hne]
    · cases b <;> simp [List.getD]
    · have hne : i ≠ bits.length := by omega
      rw [List.getD, List.getD, List.getElem?_eq_none (by simpa using hi.le),
        List.getElem?_eq_none (by simpa using hi)]
      cases b <;> simp [coeff_X_pow, hne]

/-- Strings of one length are told apart by their polynomials. -/
theorem ofBits_injective {a b : List Bool} (hlen : a.length = b.length)
    (h : ofBits a = ofBits b) : a = b := by
  rw [← List.reverse_inj]
  apply List.ext_getElem (by simpa using hlen)
  intro i hi hi'
  have hcoeff := congrArg (fun p => coeff p i) h
  simp only [coeff_ofBits, List.getD, List.getElem?_eq_getElem hi, List.getElem?_eq_getElem hi',
    Option.getD_some] at hcoeff
  cases ha : a.reverse[i] <;> cases hb : b.reverse[i] <;> simp_all

theorem degree_ofBits_lt (bits : List Bool) : (ofBits bits).degree < bits.length := by
  rw [degree_lt_iff_coeff_zero]
  intro i hi
  rw [coeff_ofBits, List.getD, List.getElem?_eq_none (by simpa using hi)]
  rfl

theorem ofBits_zeros (n : ℕ) : ofBits (List.replicate n false) = 0 := by
  induction n with
  | zero => rfl
  | succ n ih => rw [List.replicate_succ, ofBits, ih, if_neg (by simp), add_zero]

theorem ofBits_not (bits : List Bool) :
    ofBits (bits.map not) = ofBits bits + ofBits (List.replicate bits.length true) := by
  induction bits with
  | nil => simp [ofBits]
  | cons b bits ih =>
    rw [List.map_cons, ofBits, ih, ofBits, List.length_cons, List.replicate_succ, ofBits,
      List.length_map, List.length_replicate]
    cases b
    · simp only [Bool.not_false, Bool.false_eq_true, if_true, if_false]
      ring
    · simp only [Bool.not_true, Bool.false_eq_true, if_true, if_false]
      rw [add_add_add_comm, CharTwo.add_self_eq_zero]

/-- A bit string with its `k` leading bits inverted. -/
def invertLeading (k : ℕ) (bits : List Bool) : List Bool :=
  (bits.take k).map not ++ bits.drop k

theorem ofBits_invertLeading {k : ℕ} {bits : List Bool} (hk : k ≤ bits.length) :
    ofBits (invertLeading k bits) =
      ofBits bits + ofBits (List.replicate k true) * X ^ (bits.length - k) := by
  have hsplit : ofBits bits =
      ofBits (bits.take k) * X ^ (bits.length - k) + ofBits (bits.drop k) := by
    conv_lhs => rw [← List.take_append_drop k bits]
    rw [ofBits_append, List.length_drop]
  rw [invertLeading, ofBits_append, ofBits_not, List.length_take, min_eq_left hk, hsplit,
    List.length_drop]
  ring

/-! ### Words -/

section Words

variable {n : ℕ}

/-- The bits of a word, the leading one first. -/
def wordBits (w : BitVec n) : List Bool := List.ofFn fun i : Fin n => w.getMsbD i

def ofWord (w : BitVec n) : (ZMod 2)[X] := ofBits (wordBits w)

theorem length_wordBits (w : BitVec n) : (wordBits w).length = n := List.length_ofFn

theorem wordBits_append {k : ℕ} (a : BitVec n) (b : BitVec k) :
    wordBits (a ++ b) = wordBits a ++ wordBits b := by
  apply List.ext_getElem
  · simp [length_wordBits]
  · intro i hi hi'
    simp only [wordBits, List.getElem_ofFn, List.getElem_append, List.length_ofFn,
      BitVec.getMsbD_append]
    by_cases h : i < n <;> simp [h]

theorem coeff_ofWord (w : BitVec n) (i : ℕ) :
    (ofWord w).coeff i = if w.getLsbD i then 1 else 0 := by
  have hbit : (wordBits w).reverse.getD i false = w.getLsbD i := by
    by_cases hi : i < n
    · rw [List.getD, List.getElem?_reverse (by rw [length_wordBits]; exact hi), length_wordBits,
        wordBits, List.getElem?_ofFn, dif_pos (by omega)]
      simp only [Option.getD_some, BitVec.getMsbD]
      rw [show n - 1 - (n - 1 - i) = i by omega]
      simp
      omega
    · rw [BitVec.getLsbD_of_ge w i (by omega), List.getD, List.getElem?_eq_none]
      · rfl
      · rw [List.length_reverse, length_wordBits]
        omega
  rw [ofWord, coeff_ofBits, hbit]

/-- A word is told by its polynomial. -/
theorem ofWord_injective {v w : BitVec n} (h : ofWord v = ofWord w) : v = w := by
  apply BitVec.eq_of_getLsbD_eq
  intro i _
  have hi := congrArg (fun p => coeff p i) h
  simp only [coeff_ofWord] at hi
  cases hv : v.getLsbD i <;> cases hw : w.getLsbD i <;> simp_all

theorem ofWord_zero : ofWord (0#n) = 0 := by
  ext i
  simp [coeff_ofWord]

theorem ofWord_xor (v w : BitVec n) : ofWord (v ^^^ w) = ofWord v + ofWord w := by
  ext i
  rw [coeff_add, coeff_ofWord, coeff_ofWord, coeff_ofWord, BitVec.getLsbD_xor]
  cases v.getLsbD i <;> cases w.getLsbD i <;> decide

theorem degree_ofWord_lt (w : BitVec n) : (ofWord w).degree < n := by
  rw [degree_lt_iff_coeff_zero]
  intro i hi
  rw [coeff_ofWord, BitVec.getLsbD_of_ge w i hi, if_neg Bool.false_ne_true]

theorem ofWord_allOnes : ofWord (BitVec.allOnes n) = ofBits (List.replicate n true) := by
  ext i
  rw [coeff_ofWord, coeff_ofBits, List.reverse_replicate, BitVec.getLsbD_allOnes]
  by_cases hi : i < n <;> simp [List.getD, hi]

/-- The leading bit is what a shift by one loses. -/
theorem ofWord_shift (hn : 0 < n) (w : BitVec n) :
    X * ofWord w = ofWord (w <<< 1) + if w.msb then X ^ n else 0 := by
  have hmsb : w.msb = w.getLsbD (n - 1) := BitVec.msb_eq_getLsbD_last w
  ext i
  rw [coeff_add, coeff_ofWord, BitVec.getLsbD_shiftLeft]
  cases i with
  | zero =>
    rw [mul_coeff_zero, coeff_X_zero, zero_mul]
    cases w.msb <;> simp [coeff_X_pow, hn.ne]
  | succ i =>
    rw [coeff_X_mul, coeff_ofWord, Nat.add_sub_cancel]
    rcases lt_trichotomy (i + 1) n with hi | hi | hi
    · cases w.msb <;> simp [coeff_X_pow, hi, hi.ne]
    · have hlast : n - 1 = i := by omega
      rw [hmsb, hlast, hi]
      cases w.getLsbD i <;> simp
    · have hout : w.getLsbD i = false := BitVec.getLsbD_of_ge w i (by omega)
      cases w.msb <;> simp [coeff_X_pow, hout, hi.ne', show ¬ i + 1 < n by omega]

/-- A narrow word at the top of a wide one. -/
theorem ofWord_top {m : ℕ} (hmn : m ≤ n) (b : BitVec m) :
    ofWord (b.setWidth n <<< (n - m)) = ofWord b * X ^ (n - m) := by
  ext i
  rw [coeff_ofWord, BitVec.getLsbD_shiftLeft, BitVec.getLsbD_setWidth, coeff_mul_X_pow']
  by_cases hlow : n - m ≤ i
  · rw [if_pos hlow, coeff_ofWord]
    by_cases hi : i < n
    · simp [hi, show ¬ i < n - m by omega, show i - (n - m) < n by omega]
    · simp [hi, BitVec.getLsbD_of_ge b (i - (n - m)) (by omega)]
  · simp [hlow, show i < n - m by omega]

end Words

/-! ### The register -/

section Register

variable {n m : ℕ} (g : BitVec n)

/-- The polynomial to divide by, its leading coefficient left out of `g`. -/
def modulus : (ZMod 2)[X] := X ^ n + ofWord g

theorem modulus_monic : (modulus g).Monic := monic_X_pow_add (degree_ofWord_lt g)

theorem degree_modulus : (modulus g).degree = n := by
  rw [modulus, degree_add_eq_left_of_degree_lt, degree_X_pow]
  rw [degree_X_pow]
  exact degree_ofWord_lt g

/-- A word is the remainder of whatever differs from it by a multiple of the modulus. -/
theorem ofWord_eq_mod {p : (ZMod 2)[X]} {w : BitVec n} (h : modulus g ∣ p + ofWord w) :
    ofWord w = p %ₘ modulus g := by
  obtain ⟨q, hq⟩ := h
  have hp : ofWord w + modulus g * q = p := by
    rw [← hq, add_comm p, CharTwo.add_cancel_left]
  refine (div_modByMonic_unique q (ofWord w) (modulus_monic g) ⟨hp, ?_⟩).2.symm
  rw [degree_modulus]
  exact degree_ofWord_lt w

/-- One round of the register: the leading bit decides whether the modulus is taken off. -/
def shift (w : BitVec n) : BitVec n := if w.msb then (w <<< 1) ^^^ g else w <<< 1

/-- The register takes in a word of `m` bits at its top. -/
def absorb (w : BitVec n) (b : BitVec m) : BitVec n :=
  Nat.repeat (shift g) m (w ^^^ (b.setWidth n <<< (n - m)))

theorem shift_residue (hn : 0 < n) (w : BitVec n) :
    modulus g ∣ X * ofWord w + ofWord (shift g w) := by
  rw [ofWord_shift hn, shift, modulus]
  split_ifs
  · rw [ofWord_xor, add_add_add_comm, CharTwo.add_self_eq_zero, zero_add]
  · rw [add_zero, CharTwo.add_self_eq_zero]
    exact dvd_zero _

/-- What holds up to the modulus: `p` and `q` leave the same remainder. -/
theorem residue_trans {p q r : (ZMod 2)[X]} (h : modulus g ∣ p + q) (h' : modulus g ∣ q + r) :
    modulus g ∣ p + r := by
  have hsum := dvd_add h h'
  rwa [add_assoc p q, CharTwo.add_cancel_left] at hsum

theorem shifts_residue (hn : 0 < n) (k : ℕ) (w : BitVec n) :
    modulus g ∣ X ^ k * ofWord w + ofWord (Nat.repeat (shift g) k w) := by
  induction k with
  | zero =>
    rw [pow_zero, one_mul, Nat.repeat, CharTwo.add_self_eq_zero]
    exact dvd_zero _
  | succ k ih =>
    refine residue_trans g ?_ (shift_residue g hn (Nat.repeat (shift g) k w))
    rw [pow_succ', mul_assoc, ← mul_add]
    exact ih.mul_left X

/-- The bits that are read come in `n` places above the register. -/
theorem absorb_residue (hm : 0 < m) (hmn : m ≤ n) (w : BitVec n) (b : BitVec m) :
    modulus g ∣ (X ^ m * ofWord w + X ^ n * ofWord b) + ofWord (absorb g w b) := by
  have h := shifts_residue g (by omega : 0 < n) m (w ^^^ (b.setWidth n <<< (n - m)))
  have hpow : (X ^ m * X ^ (n - m) : (ZMod 2)[X]) = X ^ n := by
    rw [← pow_add, Nat.add_sub_cancel' hmn]
  have htop : X ^ m * ofWord (w ^^^ (b.setWidth n <<< (n - m))) =
      X ^ m * ofWord w + X ^ n * ofWord b := by
    rw [ofWord_xor, ofWord_top hmn, mul_add, ← hpow]
    ring
  rwa [htop] at h

theorem ofBits_words (b : BitVec m) (bs : List (BitVec m)) :
    ofBits ((b :: bs).flatMap wordBits) =
      ofWord b * X ^ (m * bs.length) + ofBits (bs.flatMap wordBits) := by
  rw [List.flatMap_cons, ofBits_append, ofWord, List.length_flatMap]
  simp [length_wordBits, Nat.mul_comm]

/-- The register after a whole string. -/
theorem run_residue (hm : 0 < m) (hmn : m ≤ n) (bs : List (BitVec m)) (w : BitVec n) :
    modulus g ∣ (X ^ (m * bs.length) * ofWord w + X ^ n * ofBits (bs.flatMap wordBits)) +
      ofWord (bs.foldl (absorb g) w) := by
  induction bs generalizing w with
  | nil => simp [ofBits, CharTwo.add_self_eq_zero]
  | cons b bs ih =>
    rw [List.foldl_cons]
    refine residue_trans g ?_ (ih (absorb g w b))
    have hstep := (absorb_residue g hm hmn w b).mul_left (X ^ (m * bs.length))
    rw [ofBits_words, List.length_cons, Nat.mul_succ, pow_add]
    have hsplit : X ^ (m * bs.length) * X ^ m * ofWord w + X ^ n *
          (ofWord b * X ^ (m * bs.length) + ofBits (bs.flatMap wordBits)) +
        (X ^ (m * bs.length) * ofWord (absorb g w b) + X ^ n * ofBits (bs.flatMap wordBits)) =
        X ^ (m * bs.length) * (X ^ m * ofWord w + X ^ n * ofWord b + ofWord (absorb g w b)) +
          (X ^ n * ofBits (bs.flatMap wordBits) + X ^ n * ofBits (bs.flatMap wordBits)) := by
      ring
    rw [hsplit, CharTwo.add_self_eq_zero, add_zero]
    exact hstep

/-- From all ones, the register ends as the remainder of the string, followed by `n` zeros,
with its `n` leading bits inverted. -/
theorem run_eq_mod (hm : 0 < m) (hmn : m ≤ n) (bs : List (BitVec m)) :
    ofWord (bs.foldl (absorb g) (BitVec.allOnes n)) =
      ofBits (invertLeading n (bs.flatMap wordBits ++ List.replicate n false)) %ₘ modulus g := by
  have h := run_residue g hm hmn bs (BitVec.allOnes n)
  apply ofWord_eq_mod
  have hlen : (bs.flatMap wordBits).length = m * bs.length := by
    simp [List.length_flatMap, length_wordBits, Nat.mul_comm]
  have hinvert : ofBits (invertLeading n (bs.flatMap wordBits ++ List.replicate n false)) =
      X ^ (m * bs.length) * ofWord (BitVec.allOnes n) +
        X ^ n * ofBits (bs.flatMap wordBits) := by
    rw [ofBits_invertLeading (by simp), ofBits_append, ofBits_zeros, ofWord_allOnes,
      List.length_append, List.length_replicate, Nat.add_sub_cancel, hlen]
    ring
  rwa [hinvert]

theorem coprime_modulus (hg : g.getLsbD 0 = true) (hn : 0 < n) :
    IsCoprime (modulus g) (X : (ZMod 2)[X]) := by
  have hone : (modulus g).coeff 0 = 1 := by
    rw [modulus, coeff_add, coeff_X_pow, if_neg hn.ne, coeff_ofWord, if_pos hg, zero_add]
  have hsplit := divX_mul_X_add (modulus g)
  rw [hone, C_1] at hsplit
  refine ⟨1, (modulus g).divX, ?_⟩
  rw [one_mul]
  nth_rewrite 1 [← hsplit]
  rw [add_right_comm, CharTwo.add_self_eq_zero, zero_add]

/-- A register is cleared by the bits that it holds and by no others. -/
theorem run_eq_zero_iff (hg : g.getLsbD 0 = true) (hm : 0 < m) (hmn : m ≤ n) {w : BitVec n}
    {bs : List (BitVec m)} (hlen : m * bs.length = n) :
    bs.foldl (absorb g) w = 0#n ↔ bs.flatMap wordBits = wordBits w := by
  have hbits : (bs.flatMap wordBits).length = n := by
    simpa [List.length_flatMap, length_wordBits, Nat.mul_comm] using hlen
  have hrun := run_residue g hm hmn bs w
  rw [hlen, ← mul_add] at hrun
  constructor
  · intro hzero
    rw [hzero, ofWord_zero, add_zero] at hrun
    have hcoprime : IsCoprime (modulus g) (X ^ n : (ZMod 2)[X]) :=
      (coprime_modulus g hg (by omega)).pow_right
    have hdvd := hcoprime.dvd_of_dvd_mul_left hrun
    -- The sum has a smaller degree than the modulus that divides it.
    have hdegree : (ofWord w + ofBits (bs.flatMap wordBits)).degree < (modulus g).degree := by
      rw [degree_modulus]
      refine lt_of_le_of_lt (degree_add_le _ _) (max_lt (degree_ofWord_lt w) ?_)
      have hlt := degree_ofBits_lt (bs.flatMap wordBits)
      rwa [hbits] at hlt
    have hsum : ofWord w + ofBits (bs.flatMap wordBits) = 0 := by
      rw [← (modByMonic_eq_self_iff (modulus_monic g)).mpr hdegree]
      exact (modByMonic_eq_zero_iff_dvd (modulus_monic g)).mpr hdvd
    rw [CharTwo.add_eq_zero] at hsum
    exact (ofBits_injective (by rw [length_wordBits, hbits]) hsum).symm
  · intro h
    rw [h, ← ofWord, CharTwo.add_self_eq_zero, mul_zero, zero_add] at hrun
    apply ofWord_injective
    rw [ofWord_zero]
    have hmod := ofWord_eq_mod g (p := 0) (by rwa [zero_add])
    rwa [zero_modByMonic] at hmod

end Register

end

end Gf2
