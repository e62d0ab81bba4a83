import HorizonCast.Lib.Text

/-! What a pull parser reports of an XML document. A reference in the content of
an element is an event of its own, so the text around it comes in pieces. -/

namespace Xml

open Text

/-- An event with what a reader looks at: the local name of a tag, the raw
characters of a text, the name of a reference. Comments, declarations, self-closing
tags and the like are `other`; `error` is markup that is not well formed. -/
inductive Event where
  | start (localName : Str)
  | text (content : Str)
  | generalRef (name : Str)
  | stop (localName : Str)
  | other
  | error
  deriving DecidableEq, Repr

/-- The text read so far, as an event unless there is none. -/
def flush (acc : Str) : List Event := if acc = [] then [] else [.text acc]

/-- The events of the content of an element without markup, with the characters
read so far: of a reference when `inRef`, of a text otherwise. -/
def lexContent : Bool → Str → Str → List Event
  | false, acc, [] => flush acc
  | true, _, [] => [.error]
  | false, acc, c :: s =>
    if c = '&' then flush acc ++ lexContent true [] s else lexContent false (acc ++ [c]) s
  | true, acc, c :: s =>
    if c = ';' then .generalRef acc :: lexContent false [] s else lexContent true (acc ++ [c]) s

def contentEvents (s : Str) : List Event := lexContent false [] s

/-! ### Documents -/

/-- The local part of a qualified name: what follows the colon, if there is one. -/
def localName (name : Str) : Str :=
  if ':' ∈ name then (name.dropWhile (· ≠ ':')).tail else name

/-- The content of an element or of a document: a node, and what comes after it. -/
inductive Content where
  | done
  | element (name : Str) (inner after : Content)
  | selfClosing (name : Str) (after : Content)
  | text (run : Str) (after : Content)
  | ref (name : Str) (after : Content)
  | other (after : Content)
  deriving DecidableEq, Repr

namespace Content

/-- What the reader reports of the content. -/
def events : Content → List Event
  | done => []
  | element name inner after =>
    .start (localName name) :: (inner.events ++ .stop (localName name) :: after.events)
  | selfClosing _ after => .other :: after.events
  | text run after => .text run :: after.events
  | ref name after => .generalRef name :: after.events
  | other after => .other :: after.events

/-- The contents of the elements with a local name, in document order. -/
def elements (name : Str) : Content → List Content
  | done => []
  | element tag inner after =>
    (if localName tag = name then [inner] else elements name inner) ++ elements name after
  | selfClosing _ after | text _ after | ref _ after | other after => elements name after

/-- The content is one text run, or empty. -/
def isRun : Content → Bool
  | done | text _ done => true
  | _ => false

theorem error_notMem_events (c : Content) : .error ∉ c.events := by
  induction c with
  | done => exact List.not_mem_nil
  | element name inner after hinner hafter => simp [events, hinner, hafter]
  | selfClosing name after ih | text run after ih | ref name after ih | other after ih =>
    simp [events, ih]

theorem isRun_iff {c : Content} : c.isRun = true ↔ c = .done ∨ ∃ run, c = .text run .done := by
  constructor
  · intro h
    cases c with
    | done => exact .inl rfl
    | text run after =>
      cases after with
      | done => exact .inr ⟨run, rfl⟩
      | _ => cases h
    | _ => cases h
  · rintro (rfl | ⟨run, rfl⟩)
    · rfl
    · rfl

theorem elements_of_isRun {c : Content} (h : c.isRun = true) (name : Str) :
    c.elements name = [] := by
  rcases isRun_iff.mp h with rfl | ⟨run, rfl⟩
  · rfl
  · rfl

end Content

/-- The predefined entities. -/
def predefined : List (Str × Char) :=
  [("amp".toList, '&'), ("lt".toList, '<'), ("gt".toList, '>'), ("quot".toList, '"'),
    ("apos".toList, '\'')]

/-- The characters that an event of a content stands for. -/
def Event.chars : Event → Option Str
  | text content => some content
  | generalRef name => (predefined.lookup name).map fun c => [c]
  | _ => none

/-- The text that a content without markup stands for, if each of its references is
to a predefined entity. -/
def unescape (s : Str) : Option Str :=
  if '<' ∈ s then none else ((contentEvents s).mapM Event.chars).map List.flatten

/-- The line ends of XML 1.0: a carriage return, with a line feed after it or
without, is read as one line feed. -/
def normalizeEol : Str → Str
  | [] => []
  | c :: s =>
    if c = '\r' then
      if s.head? = some '\n' then normalizeEol s else '\n' :: normalizeEol s
    else c :: normalizeEol s

/-- The text that a run stands for. -/
def Content.run : Content → Str
  | .text run .done => normalizeEol run
  | _ => []

theorem cr_notMem_normalizeEol (s : Str) : '\r' ∉ normalizeEol s := by
  induction s with
  | nil => exact List.not_mem_nil
  | cons c s ih =>
    unfold normalizeEol
    split_ifs with hc hs
    · exact ih
    · simp [ih]
    · simp [ih, Ne.symm hc]

theorem mem_normalizeEol {c : Char} {s : Str} (h : c ∈ normalizeEol s) : c ∈ s ∨ c = '\n' := by
  induction s with
  | nil => cases h
  | cons d s ih =>
    unfold normalizeEol at h
    split_ifs at h with hd hs
    · rcases ih h with h | h
      · exact .inl (.tail _ h)
      · exact .inr h
    · rcases List.mem_cons.mp h with h | h
      · exact .inr h
      · rcases ih h with h | h
        · exact .inl (.tail _ h)
        · exact .inr h
    · rcases List.mem_cons.mp h with rfl | h
      · exact .inl (.head _)
      · rcases ih h with h | h
        · exact .inl (.tail _ h)
        · exact .inr h

theorem normalizeEol_append {s t : Str} (ht : t.head? ≠ some '\n') :
    normalizeEol (s ++ t) = normalizeEol s ++ normalizeEol t := by
  induction s with
  | nil => rfl
  | cons c s ih =>
    simp only [List.cons_append, normalizeEol]
    have hhead : (s ++ t).head? = some '\n' ↔ s.head? = some '\n' := by
      cases s with
      | nil => simpa using ht
      | cons => simp
    simp only [hhead, ih]
    split_ifs <;> rfl

theorem normalizeEol_append_left {s : Str} (h : '\r' ∉ s) (t : Str) :
    normalizeEol (s ++ t) = s ++ normalizeEol t := by
  induction s with
  | nil => rfl
  | cons c s ih =>
    rw [List.mem_cons, not_or] at h
    obtain ⟨hc, hs⟩ := h
    rw [List.cons_append, normalizeEol, if_neg (Ne.symm hc), ih hs, List.cons_append]

/-- Normalising the line ends of a text commutes with trimming it when there is
no carriage return inside. -/
theorem trim_normalizeEol {s : Str} (h : '\r' ∉ trim s) : trim (normalizeEol s) = trim s := by
  obtain ⟨a, b, hs, ha, hb⟩ := trim_split s
  have hws : ∀ {t : Str}, (∀ c ∈ t, isWhitespace c) → ∀ c ∈ normalizeEol t, isWhitespace c := by
    intro t ht c hc
    rcases mem_normalizeEol hc with hc | rfl
    · exact ht c hc
    · rfl
  by_cases hnil : trim s = []
  · rw [hnil] at hs ⊢
    refine trim_eq_nil (hws fun c hc => ?_)
    rw [hs, List.nil_append, List.mem_append] at hc
    exact hc.elim (ha c) (hb c)
  · have hhead : (trim s ++ b).head? ≠ some '\n' := by
      rw [List.head?_append, List.head?_eq_some_head hnil, Option.some_or]
      intro hlf
      have := head_trim ((List.head?_eq_some_head hnil).trans hlf)
      cases this
    have hnorm : normalizeEol s = normalizeEol a ++ (trim s ++ normalizeEol b) := by
      conv_lhs => rw [hs]
      rw [normalizeEol_append hhead, normalizeEol_append_left h]
    rw [hnorm]
    exact trim_pad (hws ha) (hws hb) (fun c => head_trim) fun c => last_trim

end Xml
