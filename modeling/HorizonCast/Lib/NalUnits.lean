import Mathlib.Algebra.Group.Nat.Defs
import Mathlib.Data.List.Infix
import Mathlib.Tactic.TypeStar

/-! NAL units in the two framings that H.264 streams come in: each behind its length
(AVCC), or each behind a start code (Annex B). -/

namespace NalUnits

/-- The low five bits of the first byte of a unit. -/
def nalType (header : UInt8) : UInt8 := header &&& 0x1F

/-- The first byte of a unit says it is of the type. -/
def HasType (t : UInt8) (unit : List UInt8) : Prop := unit.head?.map nalType = some t

instance (t : UInt8) (unit : List UInt8) : Decidable (HasType t unit) :=
  inferInstanceAs (Decidable (_ = _))

/-! ### Lengths -/

/-- A number below 2^32 as four bytes, the most significant first. -/
def be32 (n : ℕ) : List UInt8 :=
  [UInt8.ofNat (n / 2 ^ 24), UInt8.ofNat (n / 2 ^ 16), UInt8.ofNat (n / 2 ^ 8), UInt8.ofNat n]

def fromBe32 (b0 b1 b2 b3 : UInt8) : ℕ :=
  b0.toNat * 2 ^ 24 + b1.toNat * 2 ^ 16 + b2.toNat * 2 ^ 8 + b3.toNat

theorem fromBe32_lt (b0 b1 b2 b3 : UInt8) : fromBe32 b0 b1 b2 b3 < 2 ^ 32 := by
  have h0 := b0.toNat_lt
  have h1 := b1.toNat_lt
  have h2 := b2.toNat_lt
  have h3 := b3.toNat_lt
  unfold fromBe32
  omega

theorem fromBe32_ofNat {n : ℕ} (h : n < 2 ^ 32) :
    fromBe32 (UInt8.ofNat (n / 2 ^ 24)) (UInt8.ofNat (n / 2 ^ 16)) (UInt8.ofNat (n / 2 ^ 8))
      (UInt8.ofNat n) = n := by
  simp only [fromBe32, UInt8.toNat_ofNat']
  omega

theorem be32_fromBe32 (b0 b1 b2 b3 : UInt8) : be32 (fromBe32 b0 b1 b2 b3) = [b0, b1, b2, b3] := by
  have h0 := b0.toNat_lt
  have h1 := b1.toNat_lt
  have h2 := b2.toNat_lt
  have h3 := b3.toNat_lt
  have hbyte : ∀ (n : ℕ) (b : UInt8), n % 256 = b.toNat → UInt8.ofNat n = b := by
    intro n b h
    apply UInt8.toNat_inj.mp
    rw [UInt8.toNat_ofNat']
    exact h
  rw [be32, hbyte _ b0, hbyte _ b1, hbyte _ b2, hbyte _ b3]
  all_goals
    unfold fromBe32
    omega

/-- Units, each behind its length. -/
def lengthPrefixed (units : List (List UInt8)) : List UInt8 :=
  units.flatMap fun u => be32 u.length ++ u

theorem lengthPrefixed_cons (u : List UInt8) (units : List (List UInt8)) :
    lengthPrefixed (u :: units) = be32 u.length ++ u ++ lengthPrefixed units := rfl

/-- There is no whole unit at the front: the length is cut short, or the unit is. -/
def Truncated (rest : List UInt8) : Prop :=
  ∀ b0 b1 b2 b3 tail, rest = b0 :: b1 :: b2 :: b3 :: tail → tail.length < fromBe32 b0 b1 b2 b3

/-- The whole units at the front of a buffer, and the rest that begins with none. -/
structure HasUnits (buf : List UInt8) (units : List (List UInt8)) (rest : List UInt8) : Prop where
  short : ∀ u ∈ units, u.length < 2 ^ 32
  truncated : Truncated rest
  eq : buf = lengthPrefixed units ++ rest

theorem exists_units (buf : List UInt8) : ∃ units rest, HasUnits buf units rest := by
  induction hn : buf.length using Nat.strong_induction_on generalizing buf with
  | _ n ih =>
    by_cases hcut : Truncated buf
    · exact ⟨[], buf, ⟨by simp, hcut, rfl⟩⟩
    · simp only [Truncated, not_forall, not_lt, exists_prop] at hcut
      obtain ⟨b0, b1, b2, b3, tail, rfl, hle⟩ := hcut
      have hshort : (tail.drop (fromBe32 b0 b1 b2 b3)).length < n := by
        rw [← hn, List.length_drop]
        simp only [List.length_cons]
        omega
      obtain ⟨units, rest, hunits⟩ := ih _ hshort _ rfl
      have hunit : (tail.take (fromBe32 b0 b1 b2 b3)).length = fromBe32 b0 b1 b2 b3 := by
        rw [List.length_take, Nat.min_eq_left hle]
      refine ⟨tail.take (fromBe32 b0 b1 b2 b3) :: units, rest, ?_, hunits.truncated, ?_⟩
      · intro u hu
        rcases List.mem_cons.mp hu with rfl | hu
        · rw [hunit]
          exact fromBe32_lt b0 b1 b2 b3
        · exact hunits.short u hu
      · rw [lengthPrefixed_cons, hunit, be32_fromBe32, List.append_assoc, ← hunits.eq,
          List.append_assoc, List.take_append_drop]
        rfl

/-! ### Start codes -/

def startCode : List UInt8 := [0, 0, 0, 1]

/-- Units, each behind a start code. -/
def byteStream (units : List (List UInt8)) : List UInt8 := units.flatMap (startCode ++ ·)

theorem byteStream_cons (u : List UInt8) (units : List (List UInt8)) :
    byteStream (u :: units) = 0 :: 0 :: 0 :: 1 :: (u ++ byteStream units) := rfl

/-- The bytes of a unit: those before the next `00 00 00` or `00 00 01`. -/
def takeUnit : List UInt8 → List UInt8
  | [] => []
  | b :: rest =>
    if [0, 0, 0] <+: b :: rest ∨ [0, 0, 1] <+: b :: rest then [] else b :: takeUnit rest

/-- The units of a byte stream: what stands behind each `00 00 01`. -/
def split : List UInt8 → List (List UInt8)
  | [] => []
  | b :: rest =>
    if [0, 0, 1] <+: b :: rest then takeUnit (rest.drop 2) :: split rest else split rest

/-- A unit as emulation prevention leaves it. -/
structure Protected (u : List UInt8) : Prop where
  noZeros : ¬ [0, 0, 0] <:+: u
  noStart : ¬ [0, 0, 1] <:+: u
  lastNotZero : u.getLast? ≠ some 0

theorem Protected.tail {b : UInt8} {u : List UInt8} (h : Protected (b :: u)) : Protected u where
  noZeros hz := h.noZeros (hz.trans (List.suffix_cons b u).isInfix)
  noStart hz := h.noStart (hz.trans (List.suffix_cons b u).isInfix)
  lastNotZero hz := h.lastNotZero (by rw [List.getLast?_cons, hz, Option.getD_some])

/-- No zeros or start code begin inside a protected unit, whatever follows it. -/
theorem Protected.no_prefix {b : UInt8} {u : List UInt8} (h : Protected (b :: u))
    (more : List UInt8) :
    ¬ [0, 0, 0] <+: b :: (u ++ more) ∧ ¬ [0, 0, 1] <+: b :: (u ++ more) := by
  have hlast := h.lastNotZero
  match u with
  | [] =>
    have hb : b ≠ 0 := fun hb => hlast (by rw [hb]; rfl)
    simp [List.cons_prefix_cons, Ne.symm hb]
  | [c] =>
    have hc : c ≠ 0 := fun hc => hlast (by rw [hc]; rfl)
    simp [List.cons_prefix_cons, Ne.symm hc]
  | c :: d :: u =>
    -- three bytes of the unit are there, so the prefix would lie within it
    have hwithin : ∀ z, [0, 0, z] <+: b :: c :: d :: (u ++ more) →
        [0, 0, z] <:+: b :: c :: d :: u := by
      intro z hz
      simp only [List.cons_prefix_cons, List.nil_prefix, and_true] at hz
      obtain ⟨rfl, rfl, rfl⟩ := hz
      exact (List.prefix_append [0, 0, z] u).isInfix
    exact ⟨fun hz => h.noZeros (hwithin 0 hz), fun hz => h.noStart (hwithin 1 hz)⟩

/-- What follows a unit in a byte stream: the end, or a start code. -/
def Next (more : List UInt8) : Prop := more = [] ∨ startCode <+: more

theorem next_byteStream (units : List (List UInt8)) : Next (byteStream units) := by
  cases units with
  | nil => exact .inl rfl
  | cons u units => exact .inr ⟨u ++ byteStream units, rfl⟩

theorem takeUnit_append {u more : List UInt8} (hu : Protected u) (hmore : Next more) :
    takeUnit (u ++ more) = u := by
  induction u with
  | nil =>
    rcases hmore with rfl | ⟨tail, rfl⟩
    · rfl
    · exact if_pos (.inl ⟨1 :: tail, rfl⟩)
  | cons b u ih =>
    obtain ⟨hzeros, hstart⟩ := hu.no_prefix more
    rw [List.cons_append, takeUnit, if_neg (not_or.mpr ⟨hzeros, hstart⟩), ih hu.tail]

theorem split_append {u : List UInt8} (hu : Protected u) (more : List UInt8) :
    split (u ++ more) = split more := by
  induction u with
  | nil => rfl
  | cons b u ih =>
    obtain ⟨-, hstart⟩ := hu.no_prefix more
    rw [List.cons_append, split, if_neg hstart, ih hu.tail]

theorem split_startCode (tail : List UInt8) :
    split (0 :: 0 :: 0 :: 1 :: tail) = takeUnit tail :: split tail := by
  simp [split, List.cons_prefix_cons]

/-- Splitting a byte stream of protected units gives them back. -/
theorem split_byteStream {units : List (List UInt8)} (h : ∀ u ∈ units, Protected u) :
    split (byteStream units) = units := by
  induction units with
  | nil => rfl
  | cons u units ih =>
    have hu := h u (by simp)
    rw [byteStream_cons, split_startCode, takeUnit_append hu (next_byteStream units),
      split_append hu, ih fun v hv => h v (by simp [hv])]

/-! ### Types of units in a byte stream -/

/-- A start code stands before a header of the type. -/
def StartsUnit (t : UInt8) (l : List UInt8) : Prop := ∃ x, nalType x = t ∧ [0, 0, 1, x] <:+: l

theorem nalType_zero : nalType 0 = 0 := by decide

theorem hasType_cons {t x : UInt8} {l : List UInt8} : HasType t (x :: l) ↔ nalType x = t :=
  Option.some_inj

theorem hasType_takeUnit {t : UInt8} (ht : t ≠ 0) {l : List UInt8} :
    HasType t (takeUnit l) ↔ HasType t l := by
  cases l with
  | nil => exact Iff.rfl
  | cons x l =>
    rw [takeUnit]
    split_ifs with hend
    · -- the unit is empty, and its header would be zero
      have hx : x = 0 := by
        rcases hend with h | h
        all_goals exact (List.cons_prefix_cons.mp h).1.symm
      rw [hasType_cons, hx, nalType_zero]
      simp [HasType, Ne.symm ht]
    · rw [hasType_cons, hasType_cons]

theorem hasType_iff {t : UInt8} {l : List UInt8} :
    HasType t l ↔ ∃ x, nalType x = t ∧ [x] <+: l := by
  cases l with
  | nil => simp [HasType]
  | cons y l => simp [hasType_cons, List.cons_prefix_cons]

/-- Which types the units of a byte stream have can be told without splitting it. -/
theorem exists_hasType_split {t : UInt8} (ht : t ≠ 0) (l : List UInt8) :
    (∃ u ∈ split l, HasType t u) ↔ StartsUnit t l := by
  induction l with
  | nil => simp [split, StartsUnit]
  | cons b l ih =>
    have hwithin : StartsUnit t (b :: l) ↔
        (∃ x, nalType x = t ∧ [0, 0, 1, x] <+: b :: l) ∨ StartsUnit t l := by
      simp only [StartsUnit, List.infix_cons_iff, and_or_left, exists_or]
    rw [hwithin, ← ih, split]
    split_ifs with hstart
    · obtain ⟨rfl, tail, rfl⟩ := List.cons_prefix_cons.mp hstart
      have hhead : (∃ x, nalType x = t ∧ [0, 0, 1, x] <+: 0 :: ([0, 1] ++ tail)) ↔
          HasType t tail := by
        rw [hasType_iff]
        simp [List.cons_prefix_cons]
      rw [hhead, List.exists_mem_cons_iff]
      exact or_congr_left (hasType_takeUnit ht)
    · have hnone : ¬ ∃ x, nalType x = t ∧ [0, 0, 1, x] <+: b :: l := by
        rintro ⟨x, -, hx⟩
        exact hstart (List.IsPrefix.trans ⟨[x], rfl⟩ hx)
      exact (or_iff_right hnone).symm

/-- A start code before a header that is not zero lies in a unit, or behind it. -/
theorem infix_append {x : UInt8} (hx : x ≠ 0) (u : List UInt8) {more : List UInt8}
    (hmore : Next more) :
    [0, 0, 1, x] <:+: u ++ more ↔ [0, 0, 1, x] <:+: u ∨ [0, 0, 1, x] <:+: more := by
  induction u with
  | nil => simp
  | cons b u ih =>
    -- the four bytes do not reach into a start code, which begins with three zeros
    have hfront : [0, 0, 1, x] <+: b :: (u ++ more) ↔ [0, 0, 1, x] <+: b :: u := by
      rcases hmore with rfl | ⟨tail, rfl⟩
      · rw [List.append_nil]
      · match u with
        | [] | [_] | [_, _] => simp [startCode, List.cons_prefix_cons, hx]
        | c :: d :: e :: u => simp [List.cons_prefix_cons]
    rw [List.cons_append, List.infix_cons_iff, ih, hfront, List.infix_cons_iff, or_assoc]

theorem startsUnit_startCode (t : UInt8) (tail : List UInt8) :
    StartsUnit t (0 :: 0 :: 0 :: 1 :: tail) ↔ HasType t tail ∨ StartsUnit t tail := by
  rw [hasType_iff, StartsUnit, StartsUnit, ← exists_or]
  refine exists_congr fun x => ?_
  rw [← and_or_left]
  simp [List.infix_cons_iff, List.cons_prefix_cons]

section Streams

variable {t : UInt8} (ht : t ≠ 0)

include ht

theorem startsUnit_append (u : List UInt8) {more : List UInt8} (hmore : Next more) :
    StartsUnit t (u ++ more) ↔ StartsUnit t u ∨ StartsUnit t more := by
  have hnonzero : ∀ x, nalType x = t → x ≠ 0 := by
    intro x hx hzero
    rw [hzero, nalType_zero] at hx
    exact ht hx.symm
  unfold StartsUnit
  rw [← exists_or]
  refine exists_congr fun x => ?_
  rw [← and_or_left]
  exact and_congr_right fun hx => infix_append (hnonzero x hx) u hmore

theorem hasType_append (u : List UInt8) {more : List UInt8} (hmore : Next more) :
    HasType t (u ++ more) ↔ HasType t u := by
  cases u with
  | nil =>
    rcases hmore with rfl | ⟨tail, rfl⟩
    · exact Iff.rfl
    · change HasType t (0 :: _) ↔ HasType t []
      rw [hasType_cons, nalType_zero]
      simp [HasType, Ne.symm ht]
  | cons x u => rw [List.cons_append, hasType_cons, hasType_cons]

/-- The types in a byte stream are those of its units, and those behind start codes within
them. -/
theorem startsUnit_byteStream (units : List (List UInt8)) :
    StartsUnit t (byteStream units) ↔
      (∃ u ∈ units, HasType t u) ∨ ∃ u ∈ units, StartsUnit t u := by
  induction units with
  | nil => simp [byteStream, StartsUnit]
  | cons u units ih =>
    have hnext := next_byteStream units
    rw [byteStream_cons, startsUnit_startCode t, hasType_append ht u hnext,
      startsUnit_append ht u hnext, ih, List.exists_mem_cons_iff, List.exists_mem_cons_iff,
      ← or_assoc, or_or_or_comm]

end Streams

end NalUnits
