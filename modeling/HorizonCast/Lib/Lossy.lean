import HorizonCast.Lib.Delimited

/-! Bytes as text when they may not be UTF-8, and text as lines that end in either way. -/

namespace Text

/-! ### UTF-8 with replacements -/

/-- The length of the sequence that a first byte announces; 0 where none starts. -/
def utf8Width (b : UInt8) : ℕ :=
  if b < 0x80 then 1
  else if b < 0xC2 then 0
  else if b < 0xE0 then 2
  else if b < 0xF0 then 3
  else if b < 0xF5 then 4
  else 0

/-- The byte may come after those of an unfinished sequence. The second byte of a sequence
rules out overlong forms, surrogates and codes above the last. -/
def continues (pending : List UInt8) (b : UInt8) : Bool :=
  match pending with
  | [0xE0] => 0xA0 ≤ b && b ≤ 0xBF
  | [0xED] => 0x80 ≤ b && b ≤ 0x9F
  | [0xF0] => 0x90 ≤ b && b ≤ 0xBF
  | [0xF4] => 0x80 ≤ b && b ≤ 0x8F
  | _ => 0x80 ≤ b && b ≤ 0xBF

/-- The code of a whole sequence. -/
def codeOf : List UInt8 → ℕ
  | [a] => a.toNat
  | [a, b] => (a.toNat % 32) * 64 + b.toNat % 64
  | [a, b, c] => ((a.toNat % 16) * 64 + b.toNat % 64) * 64 + c.toNat % 64
  | [a, b, c, d] => (((a.toNat % 8) * 64 + b.toNat % 64) * 64 + c.toNat % 64) * 64 + d.toNat % 64
  | _ => 0

/-- U+FFFD, which stands for bytes that are not UTF-8. -/
def REPLACEMENT : Char := '\uFFFD'

/-- `String::from_utf8_lossy`, with the bytes of an unfinished sequence: each maximal
part of a sequence that goes wrong is replaced. -/
def lossy : List UInt8 → List UInt8 → Str
  | pending, [] => if pending = [] then [] else [REPLACEMENT]
  | pending, b :: bytes =>
    if pending ≠ [] ∧ continues pending b then
      if pending.length + 1 = utf8Width (pending.headD 0) then
        Char.ofNat (codeOf (pending ++ [b])) :: lossy [] bytes
      else lossy (pending ++ [b]) bytes
    else
      (if pending = [] then [] else [REPLACEMENT]) ++
        match utf8Width b with
        | 0 => REPLACEMENT :: lossy [] bytes
        | 1 => Char.ofNat b.toNat :: lossy [] bytes
        | _ => lossy [b] bytes

def fromUtf8Lossy (bytes : List UInt8) : Str := lossy [] bytes

example : fromUtf8Lossy [0xF0, 0x9F, 0x41, 0xE2, 0x82, 0xAC, 0xED, 0xA0] =
    [REPLACEMENT, 'A', '€', REPLACEMENT, REPLACEMENT] := by decide

/-! ### Lines -/

/-- A line without the carriage return of its end. -/
def dropCr (line : Str) : Str := if line.getLast? = some '\r' then line.dropLast else line

/-- `str::lines`: the lines end in `\n` or `\r\n`, the last one with or without. -/
def lines (s : Str) : List Str :=
  let pieces := split '\n' s
  pieces.dropLast.map dropCr ++ (pieces.getLast?.filter (· ≠ [])).toList

/-- How a line ends. -/
inductive LineEnd where
  | lf | crlf
  deriving DecidableEq, Repr

def LineEnd.text : LineEnd → Str
  | .lf => ['\n']
  | .crlf => ['\r', '\n']

/-- A text of lines, the last one without an end. -/
def writeLines (ls : List (Str × LineEnd)) (last : Str) : Str :=
  ls.flatMap (fun l => l.1 ++ l.2.text) ++ last

theorem split_of_notMem {sep : Char} {s : Str} (h : sep ∉ s) : split sep s = [s] := by
  induction s with
  | nil => rfl
  | cons c s ih =>
    rw [List.mem_cons, not_or] at h
    rw [split, if_neg (Ne.symm h.1), ih h.2]

theorem split_writeLines {ls : List (Str × LineEnd)} {last : Str} (hls : ∀ l ∈ ls, '\n' ∉ l.1)
    (hlast : '\n' ∉ last) : split '\n' (writeLines ls last) =
      ls.map (fun l => l.1 ++ l.2.text.dropLast) ++ [last] := by
  induction ls with
  | nil => exact split_of_notMem hlast
  | cons l ls ih =>
    have hl := hls l List.mem_cons_self
    have hend : l.2.text = l.2.text.dropLast ++ ['\n'] ∧ '\n' ∉ l.2.text.dropLast := by
      cases l.2 <;> exact ⟨rfl, by decide⟩
    have hcons : writeLines (l :: ls) last =
        (l.1 ++ l.2.text.dropLast) ++ '\n' :: writeLines ls last := by
      rw [writeLines, List.flatMap_cons, hend.1]
      simp [writeLines]
    rw [hcons, split_append_sep, split_of_notMem (by simp [hl, hend.2]),
      ih fun k hk => hls k (List.mem_cons_of_mem l hk)]
    rfl

/-- The lines that are read are those that were written, but for carriage returns at
the end of a line and an empty line at the end of the text. -/
theorem lines_writeLines {ls : List (Str × LineEnd)} {last : Str} (hls : ∀ l ∈ ls, '\n' ∉ l.1)
    (hlast : '\n' ∉ last) : lines (writeLines ls last) =
      ls.map (fun l => dropCr (l.1 ++ l.2.text.dropLast)) ++
        if last = [] then [] else [last] := by
  rw [lines, split_writeLines hls hlast]
  simp only [List.dropLast_concat, List.getLast?_concat, List.map_map]
  congr 1
  split_ifs with hempty <;> simp [Option.filter, hempty]

/-- `str::rsplit_once` at a character. -/
def rsplitOnce (sep : Char) (s : Str) : Option (Str × Str) :=
  (splitOnce sep s.reverse).map fun (a, b) => (b.reverse, a.reverse)

end Text
