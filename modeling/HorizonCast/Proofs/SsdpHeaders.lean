import HorizonCast.Lib.Collections
import HorizonCast.Spec.Ssdp

/-! What is read from a search response depends on its header lines alone, whatever their
order and whatever stands between them. A line is described by its text; the loop over
the lines then leaves in each field what the one line for that field gives. -/

namespace HorizonCast

open Collections Text

/-- The fields of a response. -/
inductive HeaderField where
  | location | usn | server | st
  deriving DecidableEq, Repr

/-- The names that fill a field, in lower case. -/
def HeaderField.names : HeaderField → List Str
  | .location => ["location".toList]
  | .usn => ["usn".toList]
  | .server => ["server".toList]
  | .st => ["st".toList, "nt".toList]

def SsdpResponse.value (resp : SsdpResponse) : HeaderField → Option Str
  | .location => resp.location
  | .usn => resp.usn
  | .server => resp.server
  | .st => resp.st

def SsdpResponse.setValue (resp : SsdpResponse) (v : Str) : HeaderField → SsdpResponse
  | .location => { resp with location := some v }
  | .usn => { resp with usn := some v }
  | .server => { resp with server := some v }
  | .st => { resp with st := some v }

theorem SsdpResponse.value_setValue (resp : SsdpResponse) (v : Str) (f g : HeaderField) :
    (resp.setValue v f).value g = if g = f then some v else resp.value g := by
  cases f <;> cases g <;> rfl

theorem SsdpResponse.eq_of_value {resp resp' : SsdpResponse}
    (h : ∀ f, resp.value f = resp'.value f) : resp = resp' := by
  cases resp
  cases resp'
  rw [SsdpResponse.mk.injEq]
  exact ⟨h .location, h .usn, h .server, h .st⟩

namespace Ssdp

/-! ### Lines -/

/-- The line gives `v` for the field: one of its names in any case, white space around
it, a colon, and a text that is `v` when trimmed. -/
def Carries (line : Str) (f : HeaderField) (v : Str) : Prop :=
  ∃ a name b text, line = a ++ (name ++ b) ++ ':' :: text ∧ (∀ c ∈ a, isWhitespace c) ∧
    (∀ c ∈ b, isWhitespace c) ∧ name.map Char.toLower ∈ f.names ∧ trim text = v ∧ v ≠ []

/-- The field that a name fills. -/
def fieldNamed (name : Str) : Option HeaderField :=
  if name = "location".toList then some .location
  else if name = "usn".toList then some .usn
  else if name = "server".toList then some .server
  else if name = "st".toList ∨ name = "nt".toList then some .st
  else none

theorem fieldNamed_eq_some {name : Str} {f : HeaderField} :
    fieldNamed name = some f ↔ name ∈ f.names := by
  constructor
  · intro h
    unfold fieldNamed at h
    split_ifs at h with hlocation husn hserver hst
    · cases h
      exact List.mem_singleton.mpr hlocation
    · cases h
      exact List.mem_singleton.mpr husn
    · cases h
      exact List.mem_singleton.mpr hserver
    · cases h
      exact List.mem_pair.mpr hst
  · intro h
    cases f with
    | location => rw [List.mem_singleton.mp h]; decide
    | usn => rw [List.mem_singleton.mp h]; decide
    | server => rw [List.mem_singleton.mp h]; decide
    | st => rcases List.mem_pair.mp h with h | h <;> rw [h] <;> decide

/-- What a line gives. -/
def headerOf (line : Str) : Option (HeaderField × Str) := do
  let (key, text) ← splitOnce ':' line
  let f ← fieldNamed ((trim key).map Char.toLower)
  if trim text = [] then none else some (f, trim text)

theorem parseLine_eq (resp : SsdpResponse) (line : Str) : parseLine resp line =
    match headerOf line with
    | none => resp
    | some (f, v) => resp.setValue v f := by
  unfold parseLine headerOf
  cases splitOnce ':' line with
  | none => rfl
  | some kv =>
    obtain ⟨key, text⟩ := kv
    simp only [Option.bind_eq_bind, Option.bind_some]
    by_cases hempty : trim text = []
    · simp only [if_pos hempty]
      cases fieldNamed ((trim key).map Char.toLower) <;> rfl
    · simp only [if_neg hempty, fieldNamed]
      split_ifs <;> rfl

/-- A name has neither white space nor a colon. -/
theorem name_chars {name : Str} {f : HeaderField} (h : name.map Char.toLower ∈ f.names) :
    ∀ c ∈ name, isWhitespace c = false ∧ c ≠ ':' := by
  have hlower : ∀ f : HeaderField, ∀ n ∈ f.names,
      n.all (fun c => !isWhitespace c && c != ':') = true := by
    intro f
    cases f <;> decide
  intro c hc
  have hall := List.all_eq_true.mp (hlower f _ h) c.toLower (List.mem_map_of_mem hc)
  rw [Bool.and_eq_true, Bool.not_eq_true', bne_iff_ne] at hall
  constructor
  · rw [Bool.eq_false_iff]
    intro hwhite
    rw [toLower_of_isWhitespace hwhite, hwhite] at hall
    cases hall.1
  · rintro rfl
    exact hall.2 rfl

/-- The code reads off a line what the line gives. -/
theorem headerOf_eq_some {line : Str} {f : HeaderField} {v : Str} :
    headerOf line = some (f, v) ↔ Carries line f v := by
  unfold headerOf
  simp only [Option.bind_eq_bind, Option.bind_eq_some_iff, Prod.exists, splitOnce_eq_some,
    fieldNamed_eq_some, Option.ite_none_left_eq_some, Option.some.injEq, Prod.mk.injEq]
  constructor
  · rintro ⟨key, text, ⟨rfl, -⟩, f', hname, hne, rfl, rfl⟩
    obtain ⟨a, b, hkey, ha, hb⟩ := trim_split key
    exact ⟨a, trim key, b, text, by rw [← hkey], ha, hb, hname, rfl, hne⟩
  · rintro ⟨a, name, b, text, rfl, ha, hb, hname, rfl, hne⟩
    have hchars := name_chars hname
    have htrim : trim (a ++ (name ++ b)) = name :=
      trim_pad ha hb (fun c hc => (hchars c (List.mem_of_mem_head? hc)).1)
        fun c hc => (hchars c (List.mem_of_getLast? hc)).1
    have hcolon : ∀ s : Str, (∀ c ∈ s, isWhitespace c) → ':' ∉ s := by
      intro s hs hmem
      exact absurd (hs ':' hmem) (by decide)
    refine ⟨_, text, ⟨rfl, ?_⟩, f, by rwa [htrim], hne, rfl, rfl⟩
    simp only [List.mem_append, not_or]
    exact ⟨hcolon a ha, fun hmem => (hchars ':' hmem).2 rfl, hcolon b hb⟩

/-- A carriage return at the end of a line makes no difference. -/
theorem parseLine_cr (resp : SsdpResponse) (line : Str) :
    parseLine resp (line ++ ['\r']) = parseLine resp line := by
  have hheader : headerOf (line ++ ['\r']) = headerOf line := by
    unfold headerOf
    cases hline : splitOnce ':' line with
    | none =>
      have hnone : splitOnce ':' (line ++ ['\r']) = none := by
        rw [splitOnce_eq_none] at hline ⊢
        simpa using hline
      rw [hnone]
    | some kv =>
      obtain ⟨key, text⟩ := kv
      obtain ⟨rfl, hkey⟩ := splitOnce_eq_some.mp hline
      have hsome : splitOnce ':' (key ++ ':' :: text ++ ['\r']) = some (key, text ++ ['\r']) :=
        splitOnce_eq_some.mpr ⟨by simp, hkey⟩
      have hcr : ∀ c ∈ ['\r'], isWhitespace c = true := by
        intro c hc
        rw [List.mem_singleton.mp hc]
        decide
      rw [hsome]
      simp only [Option.bind_eq_bind, Option.bind_some]
      rw [trim_append_white text hcr]
  rw [parseLine_eq, parseLine_eq, hheader]

theorem parseLine_dropCr (resp : SsdpResponse) (line : Str) :
    parseLine resp (dropCr line) = parseLine resp line := by
  unfold dropCr
  split_ifs with hlast
  · conv_rhs => rw [← List.dropLast_append_getLast? '\r' hlast]
    rw [parseLine_cr]
  · rfl

theorem writtenOnce_iff {ls : List Str} :
    WrittenOnce Carries ls ↔ ((ls.filterMap headerOf).map Prod.fst).Nodup := by
  unfold WrittenOnce List.Nodup
  rw [List.pairwise_map, List.pairwise_filterMap]
  refine iff_of_eq (congrArg (List.Pairwise · ls) ?_)
  funext line line'
  apply propext
  constructor
  · rintro h ⟨f, v⟩ hv ⟨g, w⟩ hw rfl
    exact h f v w (headerOf_eq_some.mp hv) (headerOf_eq_some.mp hw)
  · intro h f v w hv hw
    exact h (f, v) (headerOf_eq_some.mpr hv) (f, w) (headerOf_eq_some.mpr hw) rfl

/-! ### Responses -/

/-- The text of a search response: its lines, each with an end but the last one, and no
field given twice. -/
structure HeaderText where
  ended : List (Str × LineEnd)
  last : Str
  unbroken : ∀ line ∈ ended.map Prod.fst ++ [last], '\n' ∉ line
  once : WrittenOnce Carries (ended.map Prod.fst ++ [last])

def HeaderText.lines (t : HeaderText) : List Str := t.ended.map Prod.fst ++ [t.last]

def HeaderText.text (t : HeaderText) : Str := writeLines t.ended t.last

/-- The loop sees the lines as they were written. -/
theorem parse_writeLines {ended : List (Str × LineEnd)} {last : Str}
    (h : ∀ line ∈ ended.map Prod.fst ++ [last], '\n' ∉ line) :
    parseSsdpResponse (writeLines ended last) =
      (ended.map Prod.fst ++ [last]).foldl parseLine {} := by
  have hended : ∀ l ∈ ended, '\n' ∉ l.1 := fun l hl =>
    h l.1 (List.mem_append_left _ (List.mem_map_of_mem hl))
  have hloop : ∀ resp, (ended.map fun l => dropCr (l.1 ++ l.2.text.dropLast)).foldl parseLine resp =
      (ended.map Prod.fst).foldl parseLine resp := by
    intro resp
    rw [List.foldl_map, List.foldl_map]
    congr 1
    funext resp l
    rw [parseLine_dropCr]
    cases l.2 with
    | lf => rw [LineEnd.text, List.dropLast_singleton, List.append_nil]
    | crlf => exact parseLine_cr resp l.1
  rw [parseSsdpResponse, lines_writeLines hended (h last (by simp)), List.foldl_append, hloop,
    List.foldl_append]
  split_ifs with hempty
  · rw [hempty]
    rfl
  · rfl

/-- Each field holds what the one line that gives it gives. -/
theorem value_foldl {ls : List Str} (once : WrittenOnce Carries ls) (f : HeaderField) (v : Str) :
    (ls.foldl parseLine {}).value f = some v ↔ ∃ line ∈ ls, Carries line f v := by
  have wrote : ∀ (resp : SsdpResponse) (line : Str) (f : HeaderField) (v : Str),
      Carries line f v → (parseLine resp line).value f = some v := by
    intro resp line f v hv
    rw [parseLine_eq, headerOf_eq_some.mpr hv]
    exact (resp.value_setValue v f f).trans (if_pos rfl)
  have kept : ∀ (resp : SsdpResponse) (line : Str) (f : HeaderField),
      (∀ v, ¬ Carries line f v) → (parseLine resp line).value f = resp.value f := by
    intro resp line f hnot
    rw [parseLine_eq]
    cases hheader : headerOf line with
    | none => rfl
    | some fv =>
      obtain ⟨g, v⟩ := fv
      have hg : f ≠ g := by
        rintro rfl
        exact hnot v (headerOf_eq_some.mp hheader)
      exact (resp.value_setValue v g f).trans (if_neg hg)
  exact foldl_writes wrote kept (fun f => by cases f <;> rfl) once f v

theorem HeaderText.value (t : HeaderText) (f : HeaderField) (v : Str) :
    (parseSsdpResponse t.text).value f = some v ↔ ∃ line ∈ t.lines, Carries line f v := by
  rw [HeaderText.text, parse_writeLines t.unbroken]
  exact value_foldl t.once f v

/-- The text of a value names the device type of a renderer, in any case. -/
def NamesRenderer (v : Str) : Prop :=
  ∃ part, part <:+: v ∧ eqIgnoreAsciiCase part "mediarenderer".toList = true

theorem isMediaRenderer_iff (resp : SsdpResponse) : isMediaRenderer resp = true ↔
    ∃ f v, (f = .st ∨ f = .usn) ∧ resp.value f = some v ∧ NamesRenderer v := by
  have hnames : ∀ s : Option Str,
      (s.any fun v => contains (v.map Char.toLower) "mediarenderer".toList) = true ↔
        ∃ v, s = some v ∧ NamesRenderer v := by
    intro s
    rw [Option.any_eq_true]
    refine exists_congr fun v => and_congr_right fun _ => ?_
    rw [contains_iff, infix_map_iff]
    refine exists_congr fun part => and_congr_right fun _ => ?_
    rw [eqIgnoreAsciiCase, beq_iff_eq]
    rfl
  rw [isMediaRenderer, Bool.or_eq_true, hnames, hnames]
  constructor
  · rintro (⟨v, hv, hr⟩ | ⟨v, hv, hr⟩)
    · exact ⟨.st, v, .inl rfl, hv, hr⟩
    · exact ⟨.usn, v, .inr rfl, hv, hr⟩
  · rintro ⟨f, v, rfl | rfl, hv, hr⟩
    · exact .inl ⟨v, hv, hr⟩
    · exact .inr ⟨v, hv, hr⟩

/-- Two texts with the same header lines, in any order and among any other lines. -/
theorem parse_of_same_headers {t t' : HeaderText}
    (h : ∀ line, (∃ f v, Carries line f v) → (line ∈ t'.lines ↔ line ∈ t.lines)) :
    parseSsdpResponse t'.text = parseSsdpResponse t.text := by
  apply SsdpResponse.eq_of_value
  intro f
  apply Option.ext
  intro v
  rw [t'.value, t.value]
  constructor
  · rintro ⟨line, hline, hv⟩
    exact ⟨line, (h line ⟨f, v, hv⟩).mp hline, hv⟩
  · rintro ⟨line, hline, hv⟩
    exact ⟨line, (h line ⟨f, v, hv⟩).mpr hline, hv⟩

/-- A response holds exactly the values that its lines give, whatever the order of the
lines and whatever the lines without a value, and it is a renderer when its target or its
name has the device type. -/
theorem headers_order_free (t : HeaderText) :
    let resp := parseSsdpResponse t.text
    (∀ f v, resp.value f = some v ↔ ∃ line ∈ t.lines, Carries line f v) ∧
      (∀ ended last, (ended.map Prod.fst ++ [last]).Perm t.lines →
        parseSsdpResponse (writeLines ended last) = resp) ∧
      (∀ t' : HeaderText,
        (∀ line, (∃ f v, Carries line f v) → (line ∈ t'.lines ↔ line ∈ t.lines)) →
        parseSsdpResponse t'.text = resp) ∧
      (isMediaRenderer resp = true ↔ ∃ line ∈ t.lines, ∃ f v,
        (f = .st ∨ f = .usn) ∧ Carries line f v ∧ NamesRenderer v) := by
  refine ⟨t.value, ?_, fun t' => parse_of_same_headers, ?_⟩
  · intro ended last hperm
    let t' : HeaderText := {
      ended := ended
      last := last
      unbroken := fun line hline => t.unbroken line (hperm.mem_iff.mp hline)
      once := WrittenOnce.perm t.once hperm.symm }
    have hsame : ∀ line, (∃ f v, Carries line f v) → (line ∈ t'.lines ↔ line ∈ t.lines) :=
      fun line _ => hperm.mem_iff
    exact parse_of_same_headers hsame
  · rw [isMediaRenderer_iff]
    constructor
    · rintro ⟨f, v, hf, hv, hr⟩
      obtain ⟨line, hline, hv⟩ := (t.value f v).mp hv
      exact ⟨line, hline, f, v, hf, hv, hr⟩
    · rintro ⟨line, hline, f, v, hf, hv, hr⟩
      exact ⟨f, v, hf, (t.value f v).mpr ⟨line, hline, hv⟩, hr⟩

/-- A response with an odd case, odd spaces, a line without a value and mixed line ends. -/
theorem headers_order_free_response : ∃ t : HeaderText,
    t.text = "HTTP/1.1 200 OK\r\nnT :\tupnp\nlocation:\nUsn: uuid:7::MEDIArenderer \r\nEXT".toList ∧
      isMediaRenderer (parseSsdpResponse t.text) = true := by
  let t : HeaderText := {
    ended := [("HTTP/1.1 200 OK".toList, .crlf), ("nT :\tupnp".toList, .lf),
      ("location:".toList, .lf), ("Usn: uuid:7::MEDIArenderer ".toList, .crlf)]
    last := "EXT".toList
    unbroken := by decide
    once := writtenOnce_iff.mpr (by decide) }
  refine ⟨t, by decide, (headers_order_free t).2.2.2.mpr ?_⟩
  refine ⟨"Usn: uuid:7::MEDIArenderer ".toList, by decide, .usn,
    "uuid:7::MEDIArenderer".toList, .inr rfl, headerOf_eq_some.mp (by decide), ?_⟩
  exact ⟨"MEDIArenderer".toList, ⟨"uuid:7::".toList, [], by decide⟩, by decide⟩

end Ssdp

end HorizonCast
