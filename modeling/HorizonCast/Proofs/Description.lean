import HorizonCast.Proofs.Escaping

/-! What `parse_device_description` reads from a description whose texts went
through `xml_escape`: the texts come back, trimmed, exactly when they contain
nothing that is escaped and no line end that XML rewrites. -/

namespace HorizonCast

open Text Xml

/-! ### Escaped content -/

/-- The characters of an event that is a text. -/
def textOf : Event → Option Str
  | .text content => some content
  | _ => none

/-- What the parser reads from the texts of an escaped content: each piece
between two references, trimmed. -/
def readPieces (t : Str) : List Str :=
  ((contentEvents (xmlEscape t)).filterMap textOf).map fun x => trim (normalizeEol x)

/-- The content of an element: texts without characters that are escaped, and
references. -/
def IsContent (e : Event) : Prop :=
  (∃ name, e = .generalRef name) ∨ ∃ x, e = .text x ∧ ∀ c ∈ x, c ∉ SPECIAL

theorem isContent_flush {acc : Str} (hacc : ∀ c ∈ acc, c ∉ SPECIAL) :
    ∀ e ∈ flush acc, IsContent e := by
  unfold flush
  split_ifs
  · nofun
  · intro e he
    rw [List.mem_singleton.mp he]
    exact .inr ⟨acc, rfl, hacc⟩

theorem isContent_lexContent (acc : Str) (hacc : ∀ c ∈ acc, c ∉ SPECIAL) (t : Str) :
    ∀ e ∈ lexContent false acc (xmlEscape t), IsContent e := by
  induction t generalizing acc with
  | nil => exact isContent_flush hacc
  | cons c t ih =>
    rw [xmlEscape_cons]
    by_cases hc : c ∈ SPECIAL
    · obtain ⟨name, -, hname⟩ := lexContent_special hc acc (xmlEscape t)
      rw [hname]
      intro e he
      rw [List.mem_append, List.mem_cons] at he
      rcases he with he | rfl | he
      · exact isContent_flush hacc e he
      · exact .inl ⟨name, rfl⟩
      · exact ih [] (by simp) e he
    · rw [lexContent_plain hc]
      refine ih _ fun d hd => ?_
      rcases List.mem_append.mp hd with hd | hd
      · exact hacc d hd
      · rwa [List.mem_singleton.mp hd]

/-- No piece read has a character that was escaped or a carriage return. -/
theorem clean_readPieces {t x : Str} (hx : x ∈ readPieces t) {c : Char} (hc : c ∈ x) :
    c ∉ SPECIAL ∧ c ≠ '\r' := by
  obtain ⟨y, hy, rfl⟩ := List.mem_map.mp hx
  obtain ⟨e, he, hey⟩ := List.mem_filterMap.mp hy
  have hcy := mem_of_mem_trim hc
  refine ⟨?_, ?_⟩
  · rcases isContent_lexContent [] (by simp) t e he with ⟨name, rfl⟩ | ⟨z, rfl, hz⟩
    · cases hey
    · cases hey
      rcases mem_normalizeEol hcy with hcy | rfl
      · exact hz c hcy
      · decide
  · rintro rfl
    exact cr_notMem_normalizeEol y hcy

theorem lexContent_unescaped {t : Str} (ht : ∀ c ∈ t, c ∉ SPECIAL) (acc : Str) :
    lexContent false acc (xmlEscape t) = flush (acc ++ t) := by
  induction t generalizing acc with
  | nil => rw [List.append_nil]; rfl
  | cons c t ih =>
    rw [xmlEscape_cons, lexContent_plain (ht c (by simp)), ih fun d hd => ht d (by simp [hd]),
      List.append_assoc, List.singleton_append]

/-- Nothing in the text is escaped, and trimmed it has no carriage return. -/
def Plain (t : Str) : Prop := (∀ c ∈ t, c ∉ SPECIAL) ∧ '\r' ∉ trim t

instance (t : Str) : Decidable (Plain t) :=
  @instDecidableAnd _ _ (List.decidableBAll _ t) inferInstance

theorem readPieces_plain {t : Str} (ht : Plain t) (hne : t ≠ []) : readPieces t = [trim t] := by
  unfold readPieces contentEvents
  rw [lexContent_unescaped ht.1, List.nil_append, flush, if_neg hne]
  simp [textOf, trim_normalizeEol ht.2]

/-- A text that is what the parser may have read is plain. -/
theorem plain_of_clean {t : Str} (h : ∀ c ∈ trim t, c ∉ SPECIAL ∧ c ≠ '\r') : Plain t := by
  refine ⟨fun c hc hspecial => ?_, fun hcr => (h _ hcr).2 rfl⟩
  have hws : isWhitespace c = false := by
    simp only [SPECIAL, List.mem_cons, List.not_mem_nil, or_false] at hspecial
    rcases hspecial with rfl | rfl | rfl | rfl | rfl <;> decide
  exact (h c (mem_trim_of_mem hc hws)).1 hspecial

/-! ### Documents -/

/-- The local names that the parse loop looks for. -/
def KNOWN_NAMES : List Str := [SERVICE, FRIENDLY_NAME, SERVICE_TYPE, CONTROL_URL]

/-- Events between elements that the parse loop skips. -/
def isSkipped : Event → Bool
  | .start localName | .stop localName => localName ∉ KNOWN_NAMES
  | .error => false
  | _ => true

structure Noise where
  events : List Event
  skipped : ∀ e ∈ events, isSkipped e = true

/-- An element whose content is an escaped text. -/
def element (localName content : Str) : List Event :=
  .start localName :: (contentEvents (xmlEscape content) ++ [.stop localName])

/-- A service with one type and one control URL, in either order. Its type is a
plain text, as URNs are. -/
structure Service where
  kind : Str
  plain : Plain kind
  control : Str
  kindFirst : Bool
  before : Noise
  between : Noise
  after : Noise

def Service.events (sv : Service) : List Event :=
  .start SERVICE :: (sv.before.events ++
    (if sv.kindFirst then
      element SERVICE_TYPE sv.kind ++ (sv.between.events ++ element CONTROL_URL sv.control)
    else
      element CONTROL_URL sv.control ++ (sv.between.events ++ element SERVICE_TYPE sv.kind)) ++
    (sv.after.events ++ [.stop SERVICE]))

def Service.isAvTransport (sv : Service) : Bool := contains (trim sv.kind) "AVTransport".toList

inductive Item where
  | noise (n : Noise)
  | friendlyName (name : Str)
  | service (sv : Service)

def Item.events : Item → List Event
  | noise n => n.events
  | friendlyName name => element FRIENDLY_NAME name
  | service sv => sv.events

/-- The unescaped text of a `friendlyName`. -/
def Item.name? : Item → Option Str
  | friendlyName name => some name
  | _ => none

/-- The unescaped control URL of an AVTransport service. -/
def Item.control? : Item → Option Str
  | service sv => if sv.isAvTransport then some sv.control else none
  | _ => none

/-! ### The parse loop -/

section

variable {xmlContent : Str → Option Str} (hcontent : ∀ t, xmlContent t = some (normalizeEol t))

theorem ne_known_names {localName : Str} (h : localName ∉ KNOWN_NAMES) :
    localName ≠ SERVICE ∧ localName ≠ FRIENDLY_NAME ∧ localName ≠ SERVICE_TYPE ∧
      localName ≠ CONTROL_URL := by
  rw [KNOWN_NAMES, List.mem_cons, List.mem_cons, List.mem_cons, List.mem_singleton, not_or, not_or,
    not_or] at h
  exact h

/-- The elements whose text the parse loop reads. -/
def FIELDS : List Str := [FRIENDLY_NAME, SERVICE_TYPE, CONTROL_URL]

theorem mem_known_names {localName : Str} :
    localName ∈ KNOWN_NAMES ↔ localName = SERVICE ∨ localName ∈ FIELDS := List.mem_cons

theorem service_notMem_fields : SERVICE ∉ FIELDS := by decide

namespace DescriptionParser

variable {p : DescriptionParser} {localName : Str}

theorem onStart_unknown (h : localName ∉ KNOWN_NAMES) : p.onStart localName = p := by
  obtain ⟨hservice, hname, htype, hcontrol⟩ := ne_known_names h
  rw [onStart, if_neg hservice, if_neg hname, if_neg fun h => htype h.1,
    if_neg fun h => hcontrol h.1]

theorem onEnd_unknown (h : localName ∉ KNOWN_NAMES) : p.onEnd localName = p := by
  obtain ⟨hservice, hname, htype, hcontrol⟩ := ne_known_names h
  rw [onEnd, if_neg hservice, if_neg fun h => h.elim hname fun h => h.elim htype hcontrol]

theorem onStart_service :
    p.onStart SERVICE = { p with inService := true, svcType := [], svcCtrl := [] } := by
  rw [onStart, if_pos rfl]

theorem onStart_serviceType (hin : p.inService = true) :
    p.onStart SERVICE_TYPE = { p with field := .serviceType } := by
  rw [onStart, if_neg (by decide), if_neg (by decide), if_pos ⟨rfl, hin⟩]

theorem onStart_controlUrl (hin : p.inService = true) :
    p.onStart CONTROL_URL = { p with field := .controlUrl } := by
  have hne : CONTROL_URL ≠ SERVICE_TYPE := by decide
  rw [onStart, if_neg (by decide), if_neg (by decide), if_neg fun h => hne h.1,
    if_pos ⟨rfl, hin⟩]

/-- A text is skipped when it is of no field. -/
theorem onText_none (hp : p.field = .none) (txt : Str) : p.onText txt = p := by
  simp only [onText, hp]

theorem onEnd_field (h : localName ∈ FIELDS) : p.onEnd localName = { p with field := .none } := by
  simp only [FIELDS, List.mem_cons, List.not_mem_nil, or_false] at h
  have hservice : localName ≠ SERVICE := by
    rcases h with rfl | rfl | rfl <;> decide
  rw [onEnd, if_neg hservice, if_pos h]

end DescriptionParser

theorem run_noise (n : Noise) {p : DescriptionParser} (hp : p.field = .none) (rest : List Event) :
    p.run xmlContent (n.events ++ rest) = p.run xmlContent rest := by
  obtain ⟨events, skipped⟩ := n
  dsimp only
  induction events with
  | nil => rfl
  | cons e es ih =>
    have he := skipped e (by simp)
    have hrest := ih fun e he => skipped e (by simp [he])
    rw [List.cons_append]
    cases e with
    | start localName =>
      rw [DescriptionParser.run, DescriptionParser.onStart_unknown (of_decide_eq_true he), hrest]
    | text content =>
      rw [DescriptionParser.run]
      cases xmlContent content with
      | none => exact hrest
      | some txt =>
        dsimp only
        rw [p.onText_none hp, hrest]
    | generalRef name => exact hrest
    | stop localName =>
      rw [DescriptionParser.run, DescriptionParser.onEnd_unknown (of_decide_eq_true he), hrest]
    | other => exact hrest
    | error => cases he

include hcontent in
/-- The events of a content hand their texts to `onText`, one by one. -/
theorem run_content {es : List Event} (hes : ∀ e ∈ es, IsContent e) (p : DescriptionParser)
    (rest : List Event) :
    p.run xmlContent (es ++ rest) =
      ((es.filterMap textOf).foldl (fun p x => p.onText (normalizeEol x)) p).run xmlContent
        rest := by
  induction es generalizing p with
  | nil => rfl
  | cons e es ih =>
    have hrest := ih fun e he => hes e (by simp [he])
    rcases hes e (by simp) with ⟨name, rfl⟩ | ⟨x, rfl, -⟩
    · exact hrest p
    · rw [List.cons_append, DescriptionParser.run, hcontent]
      exact hrest _

/-- A name is kept unless there is one already. -/
def DescriptionParser.addName (p : DescriptionParser) (name : Option Str) : DescriptionParser :=
  { p with desc := { p.desc with friendlyName := p.desc.friendlyName.or name } }

def DescriptionParser.addType (p : DescriptionParser) (t : Str) : DescriptionParser :=
  { p with svcType := p.svcType ++ t }

def DescriptionParser.addControl (p : DescriptionParser) (t : Str) : DescriptionParser :=
  { p with svcCtrl := p.svcCtrl ++ t }

theorem onText_friendly {p : DescriptionParser} (hp : p.field = .friendly) (txt : Str) :
    p.onText txt = p.addName ([trim txt].find? (· ≠ [])) := by
  obtain ⟨⟨name, url⟩, field, inService, svcType, svcCtrl⟩ := p
  dsimp only at hp
  subst hp
  cases name <;> by_cases htxt : trim txt = [] <;>
    simp [DescriptionParser.onText, DescriptionParser.addName, htxt]

/-- In a `friendlyName` the first piece that is not blank counts. -/
theorem foldl_friendly (xs : List Str) {p : DescriptionParser} (hp : p.field = .friendly) :
    xs.foldl (fun p x => p.onText (normalizeEol x)) p =
      p.addName ((xs.map fun x => trim (normalizeEol x)).find? (· ≠ [])) := by
  induction xs generalizing p with
  | nil => simp [DescriptionParser.addName]
  | cons x xs ih =>
    rw [List.foldl_cons, onText_friendly hp, ih (p := p.addName _) hp]
    by_cases hx : trim (normalizeEol x) = [] <;> simp [DescriptionParser.addName, hx]

theorem foldl_serviceType (xs : List Str) {p : DescriptionParser} (hp : p.field = .serviceType) :
    xs.foldl (fun p x => p.onText (normalizeEol x)) p =
      p.addType (xs.map fun x => trim (normalizeEol x)).flatten := by
  induction xs generalizing p with
  | nil => simp [DescriptionParser.addType]
  | cons x xs ih =>
    have hx : p.onText (normalizeEol x) = p.addType (trim (normalizeEol x)) := by
      simp only [DescriptionParser.onText, hp, DescriptionParser.addType]
    rw [List.foldl_cons, hx, ih (p := p.addType _) hp]
    simp [DescriptionParser.addType]

theorem foldl_controlUrl (xs : List Str) {p : DescriptionParser} (hp : p.field = .controlUrl) :
    xs.foldl (fun p x => p.onText (normalizeEol x)) p =
      p.addControl (xs.map fun x => trim (normalizeEol x)).flatten := by
  induction xs generalizing p with
  | nil => simp [DescriptionParser.addControl]
  | cons x xs ih =>
    have hx : p.onText (normalizeEol x) = p.addControl (trim (normalizeEol x)) := by
      simp only [DescriptionParser.onText, hp, DescriptionParser.addControl]
    rw [List.foldl_cons, hx, ih (p := p.addControl _) hp]
    simp [DescriptionParser.addControl]

/-! ### Elements, services and documents -/

include hcontent

theorem run_element (localName t : Str) (p : DescriptionParser) (rest : List Event) :
    p.run xmlContent (element localName t ++ rest) =
      (((contentEvents (xmlEscape t)).filterMap textOf).foldl
        (fun p x => p.onText (normalizeEol x)) (p.onStart localName)).run xmlContent
          (.stop localName :: rest) := by
  have hes : ∀ e ∈ contentEvents (xmlEscape t), IsContent e :=
    isContent_lexContent [] (by simp) t
  rw [element, List.cons_append, DescriptionParser.run, List.append_assoc,
    run_content hcontent hes]
  rfl

theorem run_friendlyName (t : Str) {p : DescriptionParser} (hp : p.field = .none)
    (rest : List Event) :
    p.run xmlContent (element FRIENDLY_NAME t ++ rest) =
      (p.addName ((readPieces t).find? (· ≠ []))).run xmlContent rest := by
  rw [run_element hcontent, show p.onStart FRIENDLY_NAME = { p with field := .friendly } from rfl,
    foldl_friendly _ rfl, DescriptionParser.run, DescriptionParser.onEnd_field (by decide)]
  cases p
  cases hp
  rfl

theorem run_serviceType (t : Str) {p : DescriptionParser} (hp : p.field = .none)
    (hin : p.inService = true) (rest : List Event) :
    p.run xmlContent (element SERVICE_TYPE t ++ rest) =
      (p.addType (readPieces t).flatten).run xmlContent rest := by
  rw [run_element hcontent, DescriptionParser.onStart_serviceType hin, foldl_serviceType _ rfl,
    DescriptionParser.run, DescriptionParser.onEnd_field (by decide)]
  cases p
  cases hp
  rfl

theorem run_controlUrl (t : Str) {p : DescriptionParser} (hp : p.field = .none)
    (hin : p.inService = true) (rest : List Event) :
    p.run xmlContent (element CONTROL_URL t ++ rest) =
      (p.addControl (readPieces t).flatten).run xmlContent rest := by
  rw [run_element hcontent, DescriptionParser.onStart_controlUrl hin, foldl_controlUrl _ rfl,
    DescriptionParser.run, DescriptionParser.onEnd_field (by decide)]
  cases p
  cases hp
  rfl

theorem run_typeAndControl (sv : Service) {p : DescriptionParser} (hp : p.field = .none)
    (hin : p.inService = true) (rest : List Event) :
    p.run xmlContent ((if sv.kindFirst then
        element SERVICE_TYPE sv.kind ++ (sv.between.events ++ element CONTROL_URL sv.control)
      else
        element CONTROL_URL sv.control ++ (sv.between.events ++ element SERVICE_TYPE sv.kind)) ++
          rest) =
      ((p.addType (readPieces sv.kind).flatten).addControl (readPieces sv.control).flatten).run
        xmlContent rest := by
  cases sv.kindFirst
  · rw [if_neg Bool.false_ne_true, List.append_assoc, List.append_assoc,
      run_controlUrl hcontent _ hp hin, run_noise _ (by exact hp),
      run_serviceType hcontent _ (by exact hp) (by exact hin)]
    rfl
  · rw [if_pos rfl, List.append_assoc, List.append_assoc, run_serviceType hcontent _ hp hin,
      run_noise _ (by exact hp), run_controlUrl hcontent _ (by exact hp) (by exact hin)]

/-- What the loop takes from a service as the control URL of an AVTransport. -/
def Service.readControl (sv : Service) : Option Str :=
  if contains (readPieces sv.kind).flatten "AVTransport".toList ∧
      (readPieces sv.control).flatten ≠ [] then some (readPieces sv.control).flatten
  else none

/-- A URL is kept unless there is one already. -/
def DescriptionParser.addUrl (p : DescriptionParser) (url : Option Str) : DescriptionParser :=
  { p with desc := { p.desc with avTransportControlUrl := p.desc.avTransportControlUrl.or url } }

omit hcontent in
theorem onEnd_service {p : DescriptionParser} (hin : p.inService = true) :
    p.onEnd SERVICE = { p.addUrl (if contains p.svcType "AVTransport".toList ∧ p.svcCtrl ≠ [] then
      some p.svcCtrl else none) with inService := false } := by
  obtain ⟨⟨name, url⟩, field, inService, svcType, svcCtrl⟩ := p
  dsimp only at hin
  subst hin
  rw [DescriptionParser.onEnd, if_pos rfl]
  dsimp only [DescriptionParser.addUrl]
  cases url <;> split_ifs <;> simp_all

theorem run_service (sv : Service) {p : DescriptionParser} (hp : p.field = .none)
    (rest : List Event) :
    p.run xmlContent (sv.events ++ rest) =
      { p.addUrl sv.readControl with
        inService := false
        svcType := (readPieces sv.kind).flatten
        svcCtrl := (readPieces sv.control).flatten }.run xmlContent rest := by
  rw [Service.events, List.cons_append, DescriptionParser.run, DescriptionParser.onStart_service,
    List.append_assoc, List.append_assoc, run_noise _ (by exact hp),
    run_typeAndControl hcontent sv (by exact hp) rfl, List.append_assoc,
    run_noise _ (by exact hp), List.singleton_append, DescriptionParser.run, onEnd_service (by rfl)]
  rfl

/-! ### Whole documents -/

/-- The name that the loop takes from an item. -/
def Item.readName : Item → Option Str
  | friendlyName name => (readPieces name).find? (· ≠ [])
  | _ => none

def Item.readControl : Item → Option Str
  | service sv => sv.readControl
  | _ => none

/-- The loop keeps the first name and the first URL that the items of a document
give. -/
theorem run_items (items : List Item) {p : DescriptionParser} (hp : p.field = .none) :
    (p.run xmlContent (items.flatMap Item.events)).desc =
      ⟨p.desc.friendlyName.or (items.findSome? Item.readName),
        p.desc.avTransportControlUrl.or (items.findSome? Item.readControl)⟩ := by
  induction items generalizing p with
  | nil => simp [DescriptionParser.run]
  | cons item items ih =>
    rw [List.flatMap_cons]
    cases item with
    | noise n =>
      rw [Item.events, run_noise n hp, ih hp]
      rfl
    | friendlyName name =>
      rw [Item.events, run_friendlyName hcontent name hp, ih (p := p.addName _) hp]
      simp only [List.findSome?_cons, Item.readName, Item.readControl, DescriptionParser.addName]
      cases (readPieces name).find? (· ≠ []) <;> simp
    | service sv =>
      rw [Item.events, run_service hcontent sv hp, ih (by exact hp)]
      simp only [List.findSome?_cons, Item.readName, Item.readControl, DescriptionParser.addUrl]
      cases sv.readControl <;> simp

theorem parse_items (items : List Item) :
    parseDeviceDescription xmlContent (items.flatMap Item.events) =
      ⟨items.findSome? Item.readName, items.findSome? Item.readControl⟩ := by
  rw [parseDeviceDescription, run_items hcontent items rfl]
  simp

end

/-! ### Texts that come back -/

theorem findSome?_transfer {α β γ : Type*} {f : α → Option β} {g : α → Option γ} {b : β} {c : γ}
    (hnone : ∀ a, f a = none → g a = none) (hsome : ∀ a, f a = some b → g a = some c)
    {l : List α} (h : l.findSome? f = some b) : l.findSome? g = some c := by
  induction l with
  | nil => cases h
  | cons a l ih =>
    rw [List.findSome?_cons] at h ⊢
    cases hf : f a with
    | none =>
      rw [hf] at h
      rw [hnone a hf]
      exact ih h
    | some b' =>
      rw [hf] at h
      cases h
      rw [hsome a hf]

theorem flatten_readPieces_plain {t : Str} (ht : Plain t) : (readPieces t).flatten = trim t := by
  by_cases hne : t = []
  · subst hne
    rfl
  · rw [readPieces_plain ht hne, List.flatten_singleton]

theorem ne_nil_of_trim {t : Str} (h : trim t ≠ []) : t ≠ [] := by
  rintro rfl
  exact h rfl

theorem readName_plain {s : Str} (hs : Plain s) (hne : trim s ≠ []) {items : List Item}
    (h : items.findSome? Item.name? = some s) :
    items.findSome? Item.readName = some (trim s) := by
  refine findSome?_transfer ?_ ?_ h
  · intro item hitem
    cases item with
    | friendlyName name => cases hitem
    | noise | service => rfl
  · intro item hitem
    cases item with
    | friendlyName name =>
      cases hitem
      rw [Item.readName, readPieces_plain hs (ne_nil_of_trim hne)]
      simp [hne]
    | noise | service => cases hitem

theorem readControl_plain {u : Str} (hu : Plain u) (hne : trim u ≠ []) {items : List Item}
    (h : items.findSome? Item.control? = some u) :
    items.findSome? Item.readControl = some (trim u) := by
  refine findSome?_transfer ?_ ?_ h
  · intro item hitem
    cases item with
    | service sv =>
      have hkind : ¬ sv.isAvTransport = true := by
        intro hav
        rw [Item.control?, if_pos hav] at hitem
        cases hitem
      rw [Item.readControl, Service.readControl, flatten_readPieces_plain sv.plain,
        if_neg fun hboth => hkind hboth.1]
    | noise | friendlyName => rfl
  · intro item hitem
    cases item with
    | service sv =>
      obtain ⟨hkind, heq⟩ := Option.ite_none_right_eq_some.mp hitem
      cases heq
      rw [Item.readControl, Service.readControl, flatten_readPieces_plain sv.plain,
        flatten_readPieces_plain hu, if_pos ⟨hkind, hne⟩]
    | noise | friendlyName => cases hitem

/-- What the parser reads as a name is clean. -/
theorem plain_of_readName {items : List Item} {s : Str}
    (h : items.findSome? Item.readName = some (trim s)) : Plain s := by
  obtain ⟨item, -, hitem⟩ := List.exists_of_findSome?_eq_some h
  cases item with
  | friendlyName name =>
    exact plain_of_clean fun c hc => clean_readPieces (List.mem_of_find?_eq_some hitem) hc
  | noise | service => cases hitem

theorem plain_of_readControl {items : List Item} {u : Str}
    (h : items.findSome? Item.readControl = some (trim u)) : Plain u := by
  obtain ⟨item, -, hitem⟩ := List.exists_of_findSome?_eq_some h
  cases item with
  | service sv =>
    obtain ⟨-, heq⟩ := Option.ite_none_right_eq_some.mp hitem
    refine plain_of_clean fun c hc => ?_
    rw [← Option.some.inj heq] at hc
    obtain ⟨x, hx, hcx⟩ := List.mem_flatten.mp hc
    exact clean_readPieces hx hcx
  | noise | friendlyName => cases hitem

/-- In a description of any shape whose first name is `s` and whose first
AVTransport control URL is `u`, both escaped, the parser returns them trimmed
exactly when both are plain. -/
theorem description_survives_iff {xmlContent : Str → Option Str}
    (hcontent : ∀ t, xmlContent t = some (normalizeEol t)) {items : List Item} {s u : Str}
    (hs : trim s ≠ []) (hu : trim u ≠ []) (hname : items.findSome? Item.name? = some s)
    (hcontrol : items.findSome? Item.control? = some u) :
    parseDeviceDescription xmlContent (items.flatMap Item.events) =
      ⟨some (trim s), some (trim u)⟩ ↔ Plain s ∧ Plain u := by
  rw [parse_items hcontent, DeviceDescription.mk.injEq]
  constructor
  · rintro ⟨hreadName, hreadControl⟩
    exact ⟨plain_of_readName hreadName, plain_of_readControl hreadControl⟩
  · rintro ⟨hps, hpu⟩
    exact ⟨readName_plain hps hs hname, readControl_plain hpu hu hcontrol⟩

/-- A description with a name and an AVTransport service. -/
def sampleItems (name : Str) : List Item :=
  [.friendlyName name, .service {
    kind := "urn:schemas-upnp-org:service:AVTransport:1".toList
    plain := by decide +kernel
    control := "/upnp/control/AVTransport1".toList
    kindFirst := true
    before := ⟨[.text "\n".toList], by decide⟩
    between := ⟨[], by decide⟩
    after := ⟨[], by decide⟩ }]

theorem description_survives_samsung :
    parseDeviceDescription (fun t => some (normalizeEol t))
        ((sampleItems " [TV] Samsung Q80\r\n".toList).flatMap Item.events) =
      ⟨some (trim " [TV] Samsung Q80\r\n".toList),
        some (trim "/upnp/control/AVTransport1".toList)⟩ :=
  (description_survives_iff (fun _ => rfl) (by decide +kernel) (by decide +kernel) rfl rfl).mpr
    ⟨by decide +kernel, by decide +kernel⟩

theorem description_cuts_ampersand :
    (sampleItems "Tom & Jerry".toList).findSome? Item.name? = some "Tom & Jerry".toList ∧
      (sampleItems "Tom & Jerry".toList).findSome? Item.control? =
        some "/upnp/control/AVTransport1".toList ∧
      parseDeviceDescription (fun t => some (normalizeEol t))
          ((sampleItems "Tom & Jerry".toList).flatMap Item.events) ≠
        ⟨some (trim "Tom & Jerry".toList), some (trim "/upnp/control/AVTransport1".toList)⟩ := by
  decide +kernel

end HorizonCast
