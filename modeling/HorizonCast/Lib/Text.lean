import Mathlib.Data.List.Basic
import Mathlib.Data.List.DropRight
import Mathlib.Data.String.Basic

/-! String slices and the operations of the Rust standard library on them. A
`str` is the list of its characters; the operations follow the documented
behaviour, Unicode white space and numeric parsing included. -/

namespace Text

abbrev Str := List Char

/-! ### Bytes -/

/-- `std::str::from_utf8`: the characters, when the bytes are valid UTF-8. -/
def fromUtf8 (b : List UInt8) : Option Str := (String.fromUTF8? ⟨b.toArray⟩).map String.toList

/-- `str::as_bytes`. -/
def asBytes (s : Str) : List UInt8 := s.flatMap String.utf8EncodeChar

/-! ### White space and case -/

/-- `char::is_whitespace`: the characters with the property `White_Space`. -/
def isWhitespace (c : Char) : Bool :=
  let n := c.toNat
  decide (0x09 ≤ n ∧ n ≤ 0x0D) || n == 0x20 || n == 0x85 || n == 0xA0 || n == 0x1680 ||
    decide (0x2000 ≤ n ∧ n ≤ 0x200A) || n == 0x2028 || n == 0x2029 || n == 0x202F ||
    n == 0x205F || n == 0x3000

/-- `str::trim`. -/
def trim (s : Str) : Str :=
  ((s.dropWhile isWhitespace).reverse.dropWhile isWhitespace).reverse

theorem trim_eq (s : Str) : trim s = (s.dropWhile isWhitespace).rdropWhile isWhitespace := rfl

/-- What `trim` takes away is white space. -/
theorem trim_split (s : Str) :
    ∃ a b, s = a ++ (trim s ++ b) ∧ (∀ c ∈ a, isWhitespace c) ∧ ∀ c ∈ b, isWhitespace c := by
  refine ⟨s.takeWhile isWhitespace, (s.dropWhile isWhitespace).rtakeWhile isWhitespace, ?_,
    fun c => List.mem_takeWhile_imp, fun c => List.mem_rtakeWhile_imp⟩
  rw [trim_eq, List.rdropWhile_append_rtakeWhile, List.takeWhile_append_dropWhile]

theorem head_trim {s : Str} {c : Char} (h : (trim s).head? = some c) : isWhitespace c = false := by
  have hne : s.dropWhile isWhitespace ≠ [] := by
    intro hnil
    simp [trim_eq, hnil] at h
  have hhead : (s.dropWhile isWhitespace).head? = some c := by
    obtain ⟨t, ht⟩ := List.rdropWhile_prefix isWhitespace (s.dropWhile isWhitespace)
    rw [← ht, List.head?_append, ← trim_eq, h, Option.some_or]
  rw [List.head?_eq_some_head hne, Option.some.injEq] at hhead
  rw [← hhead]
  exact List.head_dropWhile_not _ hne

theorem last_trim {s : Str} {c : Char} (h : (trim s).getLast? = some c) :
    isWhitespace c = false := by
  have hne : trim s ≠ [] := by
    intro hnil
    simp [hnil] at h
  rw [List.getLast?_eq_some_getLast hne, Option.some.injEq] at h
  rw [← h]
  exact Bool.eq_false_iff.mpr (List.rdropWhile_last_not _ _ hne)

/-- White space around a text that neither starts nor ends with it. -/
theorem trim_pad {a t b : Str} (ha : ∀ c ∈ a, isWhitespace c) (hb : ∀ c ∈ b, isWhitespace c)
    (hhead : ∀ c, t.head? = some c → isWhitespace c = false)
    (hlast : ∀ c, t.getLast? = some c → isWhitespace c = false) : trim (a ++ (t ++ b)) = t := by
  have hfront : (t ++ b).dropWhile isWhitespace = if t = [] then [] else t ++ b := by
    cases t with
    | nil => simpa using hb
    | cons c t => simp [hhead c rfl]
  rw [trim_eq, List.dropWhile_append_of_pos ha, hfront]
  split_ifs with hnil
  · rw [hnil]
    rfl
  · rw [List.rdropWhile, List.reverse_append, List.dropWhile_append_of_pos (by simpa using hb)]
    have hback : t.reverse.dropWhile isWhitespace = t.reverse := by
      cases hrev : t.reverse with
      | nil => rfl
      | cons c r =>
        have hc : t.getLast? = some c := by rw [← List.head?_reverse, hrev]; rfl
        simp [hlast c hc]
    rw [hback, List.reverse_reverse]

theorem trim_eq_nil {s : Str} (h : ∀ c ∈ s, isWhitespace c) : trim s = [] := by
  have hpad := trim_pad (t := []) (b := []) h nofun nofun nofun
  rwa [List.append_nil, List.append_nil] at hpad

/-- A text without white space. -/
theorem trim_eq_self {s : Str} (h : ∀ c ∈ s, isWhitespace c = false) : trim s = s := by
  have hpad := trim_pad (a := []) (t := s) (b := []) nofun nofun
    (fun c hc => h c (List.mem_of_head? hc)) fun c hc => h c (List.mem_of_getLast? hc)
  rwa [List.nil_append, List.append_nil] at hpad

theorem mem_of_mem_trim {s : Str} {c : Char} (h : c ∈ trim s) : c ∈ s := by
  obtain ⟨a, b, hs, -, -⟩ := trim_split s
  rw [hs]
  simp [h]

theorem mem_trim_of_mem {s : Str} {c : Char} (h : c ∈ s) (hc : isWhitespace c = false) :
    c ∈ trim s := by
  obtain ⟨a, b, hs, ha, hb⟩ := trim_split s
  rw [hs, List.mem_append, List.mem_append] at h
  rcases h with h | h | h
  · simp [ha c h] at hc
  · exact h
  · simp [hb c h] at hc

/-- White space at the end adds nothing. -/
theorem trim_append_white (s : Str) {b : Str} (hb : ∀ c ∈ b, isWhitespace c) :
    trim (s ++ b) = trim s := by
  obtain ⟨x, y, hs, hx, hy⟩ := trim_split s
  have hsplit : s ++ b = x ++ (trim s ++ (y ++ b)) := by
    conv_lhs => rw [hs]
    simp only [List.append_assoc]
  rw [hsplit]
  apply trim_pad hx _ (fun c => head_trim) fun c => last_trim
  intro c hc
  rcases List.mem_append.mp hc with hc | hc
  · exact hy c hc
  · exact hb c hc

theorem toLower_of_isWhitespace {c : Char} (h : isWhitespace c = true) : c.toLower = c := by
  have hupper : ¬ (65 ≤ c.toNat ∧ c.toNat ≤ 90) := by
    intro hc
    unfold isWhitespace at h
    simp only [Bool.or_eq_true, decide_eq_true_eq, beq_iff_eq] at h
    omega
  unfold Char.toLower
  rw [dif_neg]
  simpa [UInt32.le_iff_toNat_le] using hupper

/-- `str::eq_ignore_ascii_case`. -/
def eqIgnoreAsciiCase (s t : Str) : Bool := s.map Char.toLower == t.map Char.toLower

/-! ### Splitting -/

/-- `str::split_once` at a character. -/
def splitOnce (sep : Char) : Str → Option (Str × Str)
  | [] => none
  | c :: s => if c = sep then some ([], s) else (splitOnce sep s).map fun (a, b) => (c :: a, b)

/-- `str::splitn` at a character: at most `n` pieces, the last one unsplit. -/
def splitn : ℕ → Char → Str → List Str
  | 0, _, _ => []
  | 1, _, s => [s]
  | n + 2, sep, s =>
    match splitOnce sep s with
    | none => [s]
    | some (a, b) => a :: splitn (n + 1) sep b

/-- `str::split` at a separator of two characters. -/
def splitPair (a b : Char) : Str → List Str
  | [] => [[]]
  | [c] => [[c]]
  | c :: d :: s =>
    if c = a ∧ d = b then [] :: splitPair a b s
    else
      match splitPair a b (d :: s) with
      | [] => [[c]]
      | line :: lines => (c :: line) :: lines

/-- `str::split` at a character. -/
def split (sep : Char) : Str → List Str
  | [] => [[]]
  | c :: s =>
    if c = sep then [] :: split sep s
    else
      match split sep s with
      | [] => [[c]]
      | p :: ps => (c :: p) :: ps

theorem head?_split (sep : Char) (s : Str) :
    (split sep s).head? = some (s.takeWhile (· ≠ sep)) := by
  induction s with
  | nil => rfl
  | cons c s ih =>
    rw [split]
    by_cases hc : c = sep
    · simp [hc]
    · obtain ⟨ps, hps⟩ := List.head?_eq_some_iff.mp ih
      simp [hc, hps]

theorem split_ne_nil (sep : Char) (s : Str) : split sep s ≠ [] := by
  intro h
  have hhead := head?_split sep s
  simp [h] at hhead

theorem split_append_sep (sep : Char) (s t : Str) :
    split sep (s ++ sep :: t) = split sep s ++ split sep t := by
  induction s with
  | nil => simp [split]
  | cons c s ih =>
    rw [List.cons_append, split, split]
    split_ifs with hc
    · rw [ih, List.cons_append]
    · rw [ih]
      cases hs : split sep s with
      | nil => exact absurd hs (split_ne_nil sep s)
      | cons p ps => rfl

theorem splitOnce_eq_none {sep : Char} {s : Str} : splitOnce sep s = none ↔ sep ∉ s := by
  induction s with
  | nil => simp [splitOnce]
  | cons c s ih =>
    rw [splitOnce]
    by_cases hc : c = sep
    · simp [hc]
    · simp [hc, ih, Ne.symm hc]

theorem splitOnce_eq_some {sep : Char} {s a b : Str} :
    splitOnce sep s = some (a, b) ↔ s = a ++ sep :: b ∧ sep ∉ a := by
  induction s generalizing a with
  | nil => simp [splitOnce]
  | cons c s ih =>
    rw [splitOnce]
    by_cases hc : c = sep
    · cases a with
      | nil => simp [hc]
      | cons d a => simp +contextual [hc, eq_comm]
    · cases a with
      | nil => simp [hc]
      | cons d a =>
        rw [if_neg hc, Option.map_eq_some_iff]
        constructor
        · rintro ⟨⟨a', b'⟩, hsplit, heq⟩
          obtain ⟨⟨rfl, rfl⟩, rfl⟩ := Prod.mk.inj heq |>.imp_left List.cons.inj
          obtain ⟨rfl, hmem⟩ := ih.mp hsplit
          exact ⟨rfl, by simp [hmem, Ne.symm hc]⟩
        · rintro ⟨heq, hmem⟩
          obtain ⟨rfl, rfl⟩ := List.cons.inj heq
          exact ⟨(a, b), ih.mpr ⟨rfl, List.not_mem_of_not_mem_cons hmem⟩, rfl⟩

/-- `str::starts_with`. -/
def startsWith (s pre : Str) : Bool := pre.isPrefixOf s

/-- `str::contains`. -/
def contains (s pat : Str) : Bool :=
  match s with
  | [] => pat.isEmpty
  | c :: s => pat.isPrefixOf (c :: s) || contains s pat

theorem contains_iff {s pat : Str} : contains s pat = true ↔ pat <:+: s := by
  induction s with
  | nil => simp [contains]
  | cons c s ih =>
    rw [contains, Bool.or_eq_true, List.isPrefixOf_iff_prefix, ih, List.infix_cons_iff]

/-- What occurs in the image of a text is the image of what occurs in it. -/
theorem infix_map_iff {f : Char → Char} {pat s : Str} :
    pat <:+: s.map f ↔ ∃ part, part <:+: s ∧ part.map f = pat := by
  constructor
  · rintro ⟨a, b, h⟩
    obtain ⟨l, r, rfl, hl, -⟩ := List.map_eq_append_iff.mp h.symm
    obtain ⟨x, part, rfl, -, hpart⟩ := List.map_eq_append_iff.mp hl
    exact ⟨part, ⟨x, r, rfl⟩, hpart⟩
  · rintro ⟨part, hpart, rfl⟩
    exact hpart.map f

theorem infix_dropWhile {pat : Str} (hne : pat ≠ []) (hpat : ∀ c ∈ pat, isWhitespace c = false)
    (s : Str) : pat <:+: s.dropWhile isWhitespace ↔ pat <:+: s := by
  induction s with
  | nil => rfl
  | cons c s ih =>
    cases hc : isWhitespace c with
    | false => rw [List.dropWhile_cons_of_neg (by simp [hc])]
    | true =>
      have hstart : ¬ pat <+: c :: s := by
        intro hpre
        obtain ⟨d, pat, rfl⟩ := List.exists_cons_of_ne_nil hne
        have hd := hpat d List.mem_cons_self
        rw [(List.cons_prefix_cons.mp hpre).1, hc] at hd
        cases hd
      rw [List.dropWhile_cons_of_pos hc, ih, List.infix_cons_iff, or_iff_right hstart]

/-- Trimming takes away no occurrence of a pattern without white space. -/
theorem contains_trim {pat : Str} (hne : pat ≠ []) (hpat : ∀ c ∈ pat, isWhitespace c = false)
    (s : Str) : contains (trim s) pat = contains s pat := by
  rw [Bool.eq_iff_iff, contains_iff, contains_iff, trim, ← List.reverse_infix,
    List.reverse_reverse, infix_dropWhile (by simpa) (by simpa), List.reverse_infix,
    infix_dropWhile hne hpat]

/-! ### Numbers -/

/-- `str::parse` at an unsigned type whose largest value is `max`: an optional
`+`, then at least one digit and nothing else, and no overflow. -/
def parseUnsigned (max : ℕ) (s : Str) : Option ℕ :=
  let digits := if s.head? = some '+' then s.tail else s
  if digits ≠ [] ∧ digits.all Char.isDigit then
    let n := digits.foldl (fun n c => n * 10 + (c.toNat - '0'.toNat)) 0
    if n ≤ max then some n else none
  else none

theorem parseUnsigned_le {max n : ℕ} {s : Str} (h : parseUnsigned max s = some n) : n ≤ max := by
  unfold parseUnsigned at h
  dsimp only at h
  by_cases hdigits : (if s.head? = some '+' then s.tail else s) ≠ [] ∧
      (if s.head? = some '+' then s.tail else s).all Char.isDigit = true
  · rw [if_pos hdigits] at h
    obtain ⟨hle, heq⟩ := Option.ite_none_right_eq_some.mp h
    cases heq
    exact hle
  · rw [if_neg hdigits] at h
    cases h

/-- A text of decimal digits. -/
def IsDigits (s : Str) : Prop := s ≠ [] ∧ s.all Char.isDigit

instance (s : Str) : Decidable (IsDigits s) := inferInstanceAs (Decidable (_ ∧ _))

/-- The number that decimal digits stand for. -/
def numeral (s : Str) : ℕ := s.foldl (fun n c => n * 10 + (c.toNat - '0'.toNat)) 0

theorem parseUnsigned_digits {s : Str} (h : IsDigits s) (max : ℕ) :
    parseUnsigned max s = if numeral s ≤ max then some (numeral s) else none := by
  have hplus : s.head? ≠ some '+' := by
    intro hhead
    have hdigit := List.all_eq_true.mp h.2 '+' (List.mem_of_head? hhead)
    exact absurd hdigit (by decide)
  unfold parseUnsigned
  simp only [if_neg hplus]
  exact if_pos h

/-- `to_string` of an unsigned integer. -/
def decimal (n : ℕ) : Str := Nat.toDigits 10 n

theorem digitChar_digit {d : ℕ} (hd : d < 10) :
    d.digitChar.isDigit = true ∧ d.digitChar.toNat - '0'.toNat = d := by
  have hall : ∀ d < 10, d.digitChar.isDigit = true ∧ d.digitChar.toNat - '0'.toNat = d := by decide
  exact hall d hd

/-- What `to_string` writes are digits that stand for the number. -/
theorem decimal_digits (n : ℕ) : IsDigits (decimal n) ∧ numeral (decimal n) = n := by
  induction n using Nat.strong_induction_on with
  | _ n ih =>
    unfold decimal
    rw [Nat.toDigits_eq_if (by decide)]
    split_ifs with hn
    · obtain ⟨hdigit, hvalue⟩ := digitChar_digit hn
      exact ⟨⟨by simp, by simpa using hdigit⟩, by simpa [numeral] using hvalue⟩
    · obtain ⟨⟨-, hall⟩, hvalue⟩ := ih (n / 10) (by omega)
      obtain ⟨hdigit, hlast⟩ := digitChar_digit (Nat.mod_lt n (by decide))
      refine ⟨⟨by simp, ?_⟩, ?_⟩
      · rw [List.all_append, Bool.and_eq_true]
        exact ⟨hall, by simpa using hdigit⟩
      · have hquot : numeral (Nat.toDigits 10 (n / 10)) = n / 10 := hvalue
        rw [numeral, List.foldl_append, ← numeral, hquot]
        simp only [List.foldl_cons, List.foldl_nil, hlast]
        omega

theorem isWhitespace_of_isDigit {c : Char} (h : c.isDigit = true) : isWhitespace c = false := by
  have hcode : 48 ≤ c.toNat ∧ c.toNat ≤ 57 := by
    simpa [Char.isDigit, UInt32.le_iff_toNat_le] using h
  unfold isWhitespace
  simp only [Bool.or_eq_false_iff, decide_eq_false_iff_not, beq_eq_false_iff_ne]
  omega

theorem trim_decimal (n : ℕ) : trim (decimal n) = decimal n :=
  trim_eq_self fun c hc => isWhitespace_of_isDigit
    (List.all_eq_true.mp (decimal_digits n).1.2 c hc)

/-- Numbers of `k` digits are told apart by their digits. -/
theorem digits_injective {b k m n : ℕ} (hm : m < b ^ k) (hn : n < b ^ k)
    (h : ∀ i < k, m / b ^ i % b = n / b ^ i % b) : m = n := by
  induction k generalizing m n with
  | zero =>
    rw [Nat.pow_zero] at hm hn
    omega
  | succ k ih =>
    rw [Nat.pow_succ'] at hm hn
    have hlast : m % b = n % b := by simpa using h 0 k.succ_pos
    have hrest : m / b = n / b := by
      apply ih (Nat.div_lt_of_lt_mul hm) (Nat.div_lt_of_lt_mul hn)
      intro i hi
      have hdigit := h (i + 1) (Nat.succ_lt_succ hi)
      rwa [Nat.pow_succ', ← Nat.div_div_eq_div_mul, ← Nat.div_div_eq_div_mul] at hdigit
    rw [← Nat.div_add_mod m b, hrest, hlast, Nat.div_add_mod]

theorem digitChar_injective {m n : ℕ} (hm : m < 16) (hn : n < 16)
    (h : m.digitChar = n.digitChar) : m = n := by
  have hall : ∀ m < 16, ∀ n < 16, m.digitChar = n.digitChar → m = n := by decide
  exact hall m hm n hn h

theorem toDigits_injective {b : ℕ} (hb : 1 < b) (hb16 : b ≤ 16) {m : ℕ} :
    ∀ {n : ℕ}, Nat.toDigits b m = Nat.toDigits b n → m = n := by
  induction m using Nat.strong_induction_on with
  | _ m ih =>
    intro n h
    have hne : ∀ k, (Nat.toDigits b k).length ≠ 0 := fun k hk =>
      Nat.toDigits_ne_nil (List.length_eq_zero_iff.mp hk)
    rw [Nat.toDigits_eq_if hb (n := m), Nat.toDigits_eq_if hb (n := n)] at h
    by_cases hm : m < b <;> by_cases hn : n < b
    · rw [if_pos hm, if_pos hn] at h
      exact digitChar_injective (by omega) (by omega) (List.singleton_inj.mp h)
    · rw [if_pos hm, if_neg hn] at h
      exact absurd (by simpa using congrArg List.length h) (hne (n / b)).symm
    · rw [if_neg hm, if_pos hn] at h
      exact absurd (by simpa using congrArg List.length h) (hne (m / b))
    · rw [if_neg hm, if_neg hn] at h
      obtain ⟨hquot, hrem⟩ := List.append_inj' h rfl
      have hq := ih (m / b) (Nat.div_lt_self (by omega) hb) hquot
      have hmod := Nat.mod_lt m (by omega : b > 0)
      have hmod' := Nat.mod_lt n (by omega : b > 0)
      have hr := digitChar_injective (by omega) (by omega) (List.singleton_inj.mp hrem)
      rw [← Nat.div_add_mod m b, ← Nat.div_add_mod n b, hq, hr]

theorem notMem_toDigits {b : ℕ} (hb : 1 < b) (hb16 : b ≤ 16) {c : Char}
    (hc : ∀ d < 16, d.digitChar ≠ c) (n : ℕ) : c ∉ Nat.toDigits b n := by
  induction n using Nat.strong_induction_on with
  | _ n ih =>
    rw [Nat.toDigits_eq_if hb]
    have hmod := Nat.mod_lt n (by omega : b > 0)
    split_ifs with hn
    · simpa using (hc n (by omega)).symm
    · simpa using ⟨ih (n / b) (Nat.div_lt_self (by omega) hb), (hc (n % b) (by omega)).symm⟩

/-! ### Joining -/

theorem append_sep_inj {α : Type*} {sep : α} {p : List α} :
    ∀ {q t u : List α}, sep ∉ p → sep ∉ q → p ++ sep :: t = q ++ sep :: u → p = q ∧ t = u := by
  induction p with
  | nil =>
    intro q t u _ hq h
    cases q with
    | nil => exact ⟨rfl, (List.cons.inj h).2⟩
    | cons d q => exact absurd (List.cons.inj h).1 (List.ne_of_not_mem_cons hq)
  | cons c p ih =>
    intro q t u hp hq h
    cases q with
    | nil => exact absurd (List.cons.inj h).1.symm (List.ne_of_not_mem_cons hp)
    | cons d q =>
      obtain ⟨rfl, hrest⟩ := List.cons.inj h
      obtain ⟨rfl, rfl⟩ := ih (List.not_mem_of_not_mem_cons hp) (List.not_mem_of_not_mem_cons hq)
        hrest
      exact ⟨rfl, rfl⟩

theorem intercalate_cons (sep : Char) (p q : Str) (ps : List Str) :
    List.intercalate [sep] (p :: q :: ps) = p ++ sep :: List.intercalate [sep] (q :: ps) := by
  simp [List.intercalate]

theorem intercalate_single (sep : Char) (p : Str) : List.intercalate [sep] [p] = p := by
  simp [List.intercalate]

/-- Fields without the separator can be told apart again. -/
theorem intercalate_injective {sep : Char} {ps : List Str} :
    ∀ {qs : List Str}, (∀ p ∈ ps, sep ∉ p) → (∀ q ∈ qs, sep ∉ q) → ps ≠ [] → qs ≠ [] →
      List.intercalate [sep] ps = List.intercalate [sep] qs → ps = qs := by
  induction ps with
  | nil => intro qs _ _ hne; exact absurd rfl hne
  | cons p ps ih =>
    intro qs hps hqs _ hne h
    have hp := hps p (by simp)
    cases qs with
    | nil => exact absurd rfl hne
    | cons q qs =>
      have hq := hqs q (by simp)
      cases ps with
      | nil =>
        cases qs with
        | nil => rwa [intercalate_single, intercalate_single, ← List.singleton_inj] at h
        | cons q' qs =>
          rw [intercalate_single, intercalate_cons] at h
          exact absurd (h ▸ by simp) hp
      | cons p' ps =>
        cases qs with
        | nil =>
          rw [intercalate_single, intercalate_cons] at h
          exact absurd (h ▸ by simp) hq
        | cons q' qs =>
          rw [intercalate_cons, intercalate_cons] at h
          obtain ⟨rfl, hrest⟩ := append_sep_inj hp hq h
          rw [ih (fun r hr => hps r (by simp [hr])) (fun r hr => hqs r (by simp [hr]))
            (List.cons_ne_nil _ _) (List.cons_ne_nil _ _) hrest]

theorem intercalate_append (sep : Char) {ps qs : List Str} (hps : ps ≠ []) (hqs : qs ≠ []) :
    List.intercalate [sep] (ps ++ qs) =
      List.intercalate [sep] ps ++ sep :: List.intercalate [sep] qs := by
  induction ps with
  | nil => exact absurd rfl hps
  | cons p ps ih =>
    cases ps with
    | nil =>
      obtain ⟨q, qs, rfl⟩ := List.exists_cons_of_ne_nil hqs
      rw [List.singleton_append, intercalate_cons, intercalate_single]
    | cons p' ps =>
      rw [List.cons_append, List.cons_append, intercalate_cons, intercalate_cons,
        ← List.cons_append, ih (List.cons_ne_nil _ _), List.append_assoc, List.cons_append]

theorem notMem_intercalate {c sep : Char} (hsep : c ≠ sep) {ps : List Str}
    (h : ∀ p ∈ ps, c ∉ p) : c ∉ List.intercalate [sep] ps := by
  induction ps with
  | nil => simp [List.intercalate]
  | cons p ps ih =>
    have hp := h p (by simp)
    cases ps with
    | nil => rwa [intercalate_single]
    | cons q ps =>
      rw [intercalate_cons, List.mem_append, List.mem_cons]
      rintro (hc | hc | hc)
      · exact hp hc
      · exact hsep hc
      · exact ih (fun r hr => h r (by simp [hr])) hc

end Text
