import HorizonCast.Proofs.Description

/-! Which service and which name `parse_device_description` chooses, for every document.
The loop is followed through the tree of the document: what its variables hold after a
content is determined by the elements in it that have one of the known names. -/

namespace HorizonCast

open Text Xml

/-! ### Descriptions -/

/-- The content is that of a description, or of a part of it inside or outside a service:
the fields hold one text run each, and a service holds no other service and no field
twice. -/
structure IsDescription (inService : Bool) (c : Content) : Prop where
  plain : ∀ name ∈ FIELDS, ∀ e ∈ c.elements name, e.isRun = true
  notNested : inService = true → c.elements SERVICE = []
  flat : ∀ s ∈ c.elements SERVICE, s.elements SERVICE = []
  single : ∀ s ∈ c.elements SERVICE, ∀ name ∈ [SERVICE_TYPE, CONTROL_URL],
    (s.elements name).length ≤ 1

/-- The text of a field of a service; a field that is not there has none. -/
def fieldText (name : Str) (s : Content) : Str := ((s.elements name).map Content.run).headD []

/-- The service is an AVTransport with a control URL. -/
def isUsable (s : Content) : Bool :=
  contains (fieldText SERVICE_TYPE s) "AVTransport".toList &&
    !(trim (fieldText CONTROL_URL s)).isEmpty

/-- The first name that is not blank. -/
def firstName (names : List Content) : Option Str :=
  (names.map fun e => trim e.run).find? (· ≠ [])

/-- The control URL of the first service that is usable. -/
def firstUrl (services : List Content) : Option Str :=
  (services.find? isUsable).map fun s => trim (fieldText CONTROL_URL s)

/-! ### The loop over a content -/

/-- What the loop has done over a content, given by its elements of each name. -/
structure Collects (p p' : DescriptionParser) (elements : Str → List Content) : Prop where
  field : p'.field = .none
  inService : p'.inService = p.inService
  name : p'.desc.friendlyName = p.desc.friendlyName.or (firstName (elements FRIENDLY_NAME))
  url : p'.desc.avTransportControlUrl =
    p.desc.avTransportControlUrl.or (firstUrl (elements SERVICE))
  kind : p.inService = true →
    p'.svcType = p.svcType ++ (elements SERVICE_TYPE).flatMap fun e => trim e.run
  control : p.inService = true →
    p'.svcCtrl = p.svcCtrl ++ (elements CONTROL_URL).flatMap fun e => trim e.run

namespace Collects

variable {p p' p'' : DescriptionParser} {elements elements' : Str → List Content}

theorem refl (hp : p.field = .none) : Collects p p fun _ => [] where
  field := hp
  inService := rfl
  name := by simp [firstName]
  url := by simp [firstUrl]
  kind _ := by simp
  control _ := by simp

theorem trans (h : Collects p p' elements) (h' : Collects p' p'' elements') :
    Collects p p'' fun name => elements name ++ elements' name where
  field := h'.field
  inService := h'.inService.trans h.inService
  name := by
    rw [h'.name, h.name, firstName, firstName, firstName, List.map_append, List.find?_append,
      Option.or_assoc]
  url := by
    rw [h'.url, h.url, firstUrl, firstUrl, firstUrl, List.find?_append, Option.map_or,
      Option.or_assoc]
  kind hin := by
    rw [h'.kind (h.inService.trans hin), h.kind hin, List.flatMap_append, List.append_assoc]
  control hin := by
    rw [h'.control (h.inService.trans hin), h.control hin, List.flatMap_append,
      List.append_assoc]

/-- The loop looks at the known names only. -/
theorem congr (h : Collects p p' elements)
    (heq : ∀ name ∈ KNOWN_NAMES, elements' name = elements name) : Collects p p' elements' where
  field := h.field
  inService := h.inService
  name := by rw [heq FRIENDLY_NAME (by decide), h.name]
  url := by rw [heq SERVICE (by decide), h.url]
  kind hin := by rw [heq SERVICE_TYPE (by decide), h.kind hin]
  control hin := by rw [heq CONTROL_URL (by decide), h.control hin]

end Collects

section Loop

variable {xmlContent : Str → Option Str} (hcontent : ∀ t, xmlContent t = some (normalizeEol t))

theorem run_append {es : List Event} (hes : .error ∉ es) (p : DescriptionParser)
    (rest : List Event) :
    p.run xmlContent (es ++ rest) = (p.run xmlContent es).run xmlContent rest := by
  induction es generalizing p with
  | nil => rfl
  | cons e es ih =>
    obtain ⟨he, hes⟩ := not_or.mp (List.mem_cons.not.mp hes)
    have hrest := fun p => ih hes p
    cases e with
    | text content =>
      rw [List.cons_append, DescriptionParser.run, DescriptionParser.run]
      cases xmlContent content with
      | none => exact hrest p
      | some txt => exact hrest _
    | error => exact absurd rfl he
    | start localName | stop localName => exact hrest _
    | generalRef name | other => exact hrest p

/-- An element is its start, its content and its end. -/
theorem run_elementContent (tag : Str) (inner after : Content) (p : DescriptionParser) :
    p.run xmlContent (Content.element tag inner after).events =
      (((p.onStart (localName tag)).run xmlContent inner.events).onEnd (localName tag)).run
        xmlContent after.events := by
  rw [Content.events, DescriptionParser.run, run_append inner.error_notMem_events]
  rfl

/-- Without a field to fill a text is skipped. -/
theorem run_text {p : DescriptionParser} (hp : p.field = .none) (run : Str) (es : List Event) :
    p.run xmlContent (.text run :: es) = p.run xmlContent es := by
  rw [DescriptionParser.run]
  cases xmlContent run with
  | none => rfl
  | some txt =>
    dsimp only
    rw [DescriptionParser.onText_none hp]

include hcontent in
theorem run_isRun {c : Content} (hc : c.isRun = true) (p : DescriptionParser) :
    p.run xmlContent c.events = p.onText c.run := by
  rcases Content.isRun_iff.mp hc with rfl | ⟨run, rfl⟩
  · -- an empty text is not different from none
    have hnil : trim [] = [] := rfl
    obtain ⟨⟨name, url⟩, field, inService, svcType, svcCtrl⟩ := p
    cases field <;> simp [Content.events, DescriptionParser.run, DescriptionParser.onText,
      Content.run, hnil]
  · rw [Content.events, DescriptionParser.run, hcontent]
    rfl

end Loop

/-! ### One field -/

section Field

variable {p : DescriptionParser} (hp : p.field = .none) (txt : Str)
include hp

theorem onField_friendlyName :
    ((p.onStart FRIENDLY_NAME).onText txt).onEnd FRIENDLY_NAME =
      p.addName ([trim txt].find? (· ≠ [])) := by
  rw [show p.onStart FRIENDLY_NAME = { p with field := .friendly } from rfl,
    onText_friendly rfl, DescriptionParser.onEnd_field (by decide)]
  cases p
  cases hp
  rfl

theorem onField_serviceType (hin : p.inService = true) :
    ((p.onStart SERVICE_TYPE).onText txt).onEnd SERVICE_TYPE = p.addType (trim txt) := by
  rw [DescriptionParser.onStart_serviceType hin, DescriptionParser.onEnd_field (by decide)]
  cases p
  cases hp
  rfl

theorem onField_controlUrl (hin : p.inService = true) :
    ((p.onStart CONTROL_URL).onText txt).onEnd CONTROL_URL = p.addControl (trim txt) := by
  rw [DescriptionParser.onStart_controlUrl hin, DescriptionParser.onEnd_field (by decide)]
  cases p
  cases hp
  rfl

omit hp in
theorem onStart_outside {name : Str} (hname : name ∈ [SERVICE_TYPE, CONTROL_URL])
    (hout : p.inService = false) : p.onStart name = p := by
  simp only [List.mem_cons, List.not_mem_nil, or_false] at hname
  rcases hname with rfl | rfl
  all_goals
    rw [DescriptionParser.onStart, if_neg (by decide), if_neg (by decide)]
    simp [hout]

/-- Outside a service the fields of services are skipped. -/
theorem onField_outside {name : Str} (hname : name ∈ [SERVICE_TYPE, CONTROL_URL])
    (hout : p.inService = false) : ((p.onStart name).onText txt).onEnd name = p := by
  rw [onStart_outside hname hout, DescriptionParser.onText_none hp,
    DescriptionParser.onEnd_field (List.mem_cons_of_mem _ hname), ← hp]

end Field

/-- The elements that an element adds: itself, or those within. -/
def ownElements (tag : Str) (inner : Content) (name : Str) : List Content :=
  if localName tag = name then [inner] else inner.elements name

theorem ownElements_self {tag name : Str} (h : localName tag = name) (inner : Content) :
    ownElements tag inner name = [inner] := if_pos h

theorem ownElements_within {tag name : Str} (h : localName tag ≠ name) (inner : Content) :
    ownElements tag inner name = inner.elements name := if_neg h

/-- A service is no field. -/
theorem ne_of_mem_fields {tag name : Str} (htag : localName tag = SERVICE) (hname : name ∈ FIELDS) :
    localName tag ≠ name := by
  rw [htag]
  rintro rfl
  exact service_notMem_fields hname

namespace IsDescription

variable {inService : Bool} {tag : Str} {inner after : Content}

theorem following (h : IsDescription inService (.element tag inner after)) :
    IsDescription inService after where
  plain name hname e he := h.plain name hname e (List.mem_append_right _ he)
  notNested hin := (List.append_eq_nil_iff.mp (h.notNested hin)).2
  flat s hs := h.flat s (List.mem_append_right _ hs)
  single s hs := h.single s (List.mem_append_right _ hs)

theorem mem_own {name : Str} {e : Content} (he : e ∈ ownElements tag inner name) :
    e ∈ (Content.element tag inner after).elements name := List.mem_append_left _ he

theorem mem_self {name : Str} (h : localName tag = name) :
    inner ∈ (Content.element tag inner after).elements name :=
  mem_own (by simp [ownElements_self h])

theorem mem_within {name : Str} {e : Content} (h : localName tag ≠ name)
    (he : e ∈ inner.elements name) : e ∈ (Content.element tag inner after).elements name :=
  mem_own (by rwa [ownElements_within h])

theorem field (h : IsDescription inService (.element tag inner after))
    (htag : localName tag ∈ FIELDS) : inner.isRun = true := h.plain _ htag inner (mem_self rfl)

theorem unknown (h : IsDescription inService (.element tag inner after))
    (htag : localName tag ∉ KNOWN_NAMES) : IsDescription inService inner where
  plain name hname e he := by
    refine h.plain name hname e (mem_within ?_ he)
    rintro rfl
    exact htag (mem_known_names.mpr (.inr hname))
  notNested hin := by
    have hnil : ownElements tag inner SERVICE = [] :=
      (List.append_eq_nil_iff.mp (h.notNested hin)).1
    rwa [ownElements_within (ne_known_names htag).1] at hnil
  flat s hs := h.flat s (mem_within (ne_known_names htag).1 hs)
  single s hs := h.single s (mem_within (ne_known_names htag).1 hs)

theorem outside (h : IsDescription inService (.element tag inner after))
    (htag : localName tag = SERVICE) : inService = false := by
  cases inService with
  | false => rfl
  | true =>
    have hmem : inner ∈ (Content.element tag inner after).elements SERVICE := mem_self htag
    rw [h.notNested rfl] at hmem
    cases hmem

theorem service (h : IsDescription inService (.element tag inner after))
    (htag : localName tag = SERVICE) : IsDescription true inner := by
  have hnone : inner.elements SERVICE = [] := h.flat inner (mem_self htag)
  refine ⟨fun name hname e he => h.plain name hname e (mem_within ?_ he), fun _ => hnone, ?_, ?_⟩
  · exact ne_of_mem_fields htag hname
  · simp [hnone]
  · simp [hnone]

end IsDescription

/-- The trimmed text of a field that is there at most once. -/
theorem flatMap_run {s : Content} {name : Str} (h : (s.elements name).length ≤ 1) :
    (s.elements name).flatMap (fun e => trim e.run) = trim (fieldText name s) := by
  unfold fieldText
  match s.elements name, h with
  | [], _ => rfl
  | [e], _ => exact List.append_nil _

/-- White space around its type does not keep a service from being used. -/
theorem firstUrl_singleton (s : Content) :
    firstUrl [s] = if contains (trim (fieldText SERVICE_TYPE s)) "AVTransport".toList ∧
      trim (fieldText CONTROL_URL s) ≠ [] then some (trim (fieldText CONTROL_URL s)) else none := by
  have hplain : ("AVTransport".toList.all fun c => !isWhitespace c) = true := by decide
  rw [contains_trim (by decide) fun c hc => by simpa using List.all_eq_true.mp hplain c hc]
  unfold firstUrl
  have husable : isUsable s = true ↔ contains (fieldText SERVICE_TYPE s) "AVTransport".toList ∧
      trim (fieldText CONTROL_URL s) ≠ [] := by
    rw [isUsable, Bool.and_eq_true, Bool.not_eq_true', List.isEmpty_eq_false_iff]
  by_cases h : isUsable s = true
  · rw [if_pos (husable.mp h), List.find?_cons_of_pos h]
    rfl
  · rw [if_neg (mt husable.mpr h), List.find?_cons_of_neg h]
    rfl

section Document

variable {xmlContent : Str → Option Str} (hcontent : ∀ t, xmlContent t = some (normalizeEol t))
include hcontent

theorem collects_field {tag : Str} {inner : Content} (htag : localName tag ∈ FIELDS)
    (hrun : inner.isRun = true) {p : DescriptionParser} (hp : p.field = .none) :
    Collects p (((p.onStart (localName tag)).run xmlContent inner.events).onEnd (localName tag))
      (ownElements tag inner) := by
  have hnone : ∀ name, localName tag ≠ name → ownElements tag inner name = [] := fun name h => by
    rw [ownElements_within h, Content.elements_of_isRun hrun]
  have hurl : firstUrl (ownElements tag inner SERVICE) = none := by
    rw [hnone SERVICE fun heq => service_notMem_fields (heq ▸ htag)]
    rfl
  rw [run_isRun hcontent hrun]
  rcases List.mem_cons.mp htag with heq | hsvc
  · have htype := hnone SERVICE_TYPE (by rw [heq]; decide)
    have hcontrol := hnone CONTROL_URL (by rw [heq]; decide)
    have hself := ownElements_self heq inner
    rw [heq, onField_friendlyName hp]
    exact ⟨hp, rfl, by rw [hself]; rfl, by simp [hurl, DescriptionParser.addName],
      fun _ => by simp [htype, DescriptionParser.addName],
      fun _ => by simp [hcontrol, DescriptionParser.addName]⟩
  have hname : firstName (ownElements tag inner FRIENDLY_NAME) = none := by
    rw [hnone FRIENDLY_NAME fun heq => absurd (heq ▸ hsvc) (by decide)]
    rfl
  cases hin : p.inService with
  | false =>
    rw [onField_outside hp _ hsvc hin]
    exact ⟨hp, rfl, by simp [hname], by simp [hurl], by simp [hin], by simp [hin]⟩
  | true =>
    simp only [List.mem_cons, List.not_mem_nil, or_false] at hsvc
    rcases hsvc with heq | heq
    · have hcontrol := hnone CONTROL_URL (by rw [heq]; decide)
      have hself := ownElements_self heq inner
      rw [heq, onField_serviceType hp _ hin]
      exact ⟨hp, rfl, by simp [hname, DescriptionParser.addType],
        by simp [hurl, DescriptionParser.addType],
        fun _ => by simp [hself, DescriptionParser.addType],
        fun _ => by simp [hcontrol, DescriptionParser.addType]⟩
    · have htype := hnone SERVICE_TYPE (by rw [heq]; decide)
      have hself := ownElements_self heq inner
      rw [heq, onField_controlUrl hp _ hin]
      exact ⟨hp, rfl, by simp [hname, DescriptionParser.addControl],
        by simp [hurl, DescriptionParser.addControl],
        fun _ => by simp [htype, DescriptionParser.addControl],
        fun _ => by simp [hself, DescriptionParser.addControl]⟩

omit hcontent in
/-- At the end of a service its texts are those of its fields, and it is used if it is the
first that can be. -/
theorem collects_service {tag : Str} {inner after : Content} (htag : localName tag = SERVICE)
    {p p' : DescriptionParser} (h : IsDescription p.inService (.element tag inner after))
    (hinner : Collects (p.onStart SERVICE) p' inner.elements) :
    Collects p (p'.onEnd SERVICE) (ownElements tag inner) := by
  have hself := ownElements_self htag inner
  have hne := ne_of_mem_fields htag (by decide : FRIENDLY_NAME ∈ FIELDS)
  rw [DescriptionParser.onStart_service] at hinner
  have hin : p'.inService = true := hinner.inService
  have hkind : p'.svcType = trim (fieldText SERVICE_TYPE inner) := by
    rw [hinner.kind rfl, flatMap_run (h.single inner (IsDescription.mem_self htag) _ (by simp))]
    rfl
  have hcontrol : p'.svcCtrl = trim (fieldText CONTROL_URL inner) := by
    rw [hinner.control rfl, flatMap_run (h.single inner (IsDescription.mem_self htag) _ (by simp))]
    rfl
  have hout := h.outside htag
  have hurl := hinner.url
  rw [h.flat inner (IsDescription.mem_self htag)] at hurl
  rw [onEnd_service hin]
  have hnot : p.inService ≠ true := by rw [hout]; exact Bool.false_ne_true
  refine ⟨hinner.field, hout.symm, ?_, ?_, fun h => absurd h hnot, fun h => absurd h hnot⟩
  · rw [ownElements_within hne]
    exact hinner.name
  · rw [hself, firstUrl_singleton, ← hkind, ← hcontrol]
    dsimp only [DescriptionParser.addUrl]
    rw [hurl]
    exact congrArg (Option.or · _) (Option.or_none)

theorem collects_own {tag : Str} {inner after : Content} {p : DescriptionParser}
    (hp : p.field = .none) (h : IsDescription p.inService (.element tag inner after))
    (hinner : ∀ {p : DescriptionParser}, p.field = .none → IsDescription p.inService inner →
      Collects p (p.run xmlContent inner.events) inner.elements) :
    Collects p (((p.onStart (localName tag)).run xmlContent inner.events).onEnd (localName tag))
      (ownElements tag inner) := by
  by_cases hservice : localName tag = SERVICE
  · rw [hservice]
    exact collects_service hservice h (hinner hp (h.service hservice))
  by_cases hfield : localName tag ∈ FIELDS
  · exact collects_field hcontent hfield (h.field hfield) hp
  · have hunknown := mem_known_names.not.mpr (not_or.mpr ⟨hservice, hfield⟩)
    rw [DescriptionParser.onStart_unknown hunknown, DescriptionParser.onEnd_unknown hunknown]
    refine (hinner hp (h.unknown hunknown)).congr fun name hname => ownElements_within ?_ inner
    rintro rfl
    exact hunknown hname

/-- What the variables hold after a content is determined by its elements. -/
theorem collects_run {c : Content} {p : DescriptionParser} (hp : p.field = .none)
    (h : IsDescription p.inService c) : Collects p (p.run xmlContent c.events) c.elements := by
  induction c generalizing p with
  | done => exact .refl hp
  | element tag inner after hinner hafter =>
    rw [run_elementContent]
    have hown := collects_own hcontent hp h hinner
    exact hown.trans (hafter hown.field (by rw [hown.inService]; exact h.following))
  | text run after ih =>
    rw [Content.events, run_text hp]
    exact ih hp ⟨h.plain, h.notNested, h.flat, h.single⟩
  | selfClosing name after ih | ref name after ih | other after ih =>
    exact ih hp ⟨h.plain, h.notNested, h.flat, h.single⟩

end Document

/-! ### Other texts -/

/-- The text of an element of that name is a name, or a field of the service it is in. -/
def IsRead (inService : Bool) (name : Str) : Prop :=
  name = FRIENDLY_NAME ∨ inService = true ∧ name ∈ [SERVICE_TYPE, CONTROL_URL]

instance (inService : Bool) (name : Str) : Decidable (IsRead inService name) :=
  inferInstanceAs (Decidable (_ ∨ _ ∧ _))

/-- The document with other texts wherever a text is not read. -/
def retext (f : Str → Str) (inService : Bool) : Content → Content
  | .done => .done
  | .element tag inner after =>
    .element tag
      (if IsRead inService (localName tag) then inner
        else retext f (inService || localName tag = SERVICE) inner)
      (retext f inService after)
  | .selfClosing name after => .selfClosing name (retext f inService after)
  | .text run after => .text (f run) (retext f inService after)
  | .ref name after => .ref name (retext f inService after)
  | .other after => .other (retext f inService after)

theorem isRun_retext {c : Content} (h : c.isRun = true) (f : Str → Str) (inService : Bool) :
    (retext f inService c).isRun = true := by
  rcases Content.isRun_iff.mp h with rfl | ⟨run, rfl⟩
  · rfl
  · rfl

section Document

variable {xmlContent : Str → Option Str} (hcontent : ∀ t, xmlContent t = some (normalizeEol t))
include hcontent

theorem run_retext (f : Str → Str) {c : Content} {p : DescriptionParser} (hp : p.field = .none)
    (h : IsDescription p.inService c) :
    p.run xmlContent (retext f p.inService c).events = p.run xmlContent c.events := by
  induction c generalizing p with
  | done => rfl
  | element tag inner after hinner hafter =>
    have hown := collects_own hcontent hp h fun hp h => collects_run hcontent hp h
    have hrest := hafter hown.field (by rw [hown.inService]; exact h.following)
    rw [hown.inService] at hrest
    rw [retext, run_elementContent, run_elementContent, ← hrest]
    congr 2
    split_ifs with hkept
    · rfl
    by_cases hservice : localName tag = SERVICE
    · have hwithin := hinner (p := p.onStart SERVICE) hp (h.service hservice)
      have hstart : (p.onStart SERVICE).inService = true := rfl
      rw [hstart] at hwithin
      simpa [hservice] using hwithin
    rw [decide_eq_false hservice, Bool.or_false]
    by_cases hfield : localName tag ∈ FIELDS
    · -- a field of a service, outside any
      have hsvc := List.mem_of_ne_of_mem (not_or.mp hkept).1 hfield
      have hout : p.inService = false :=
        Bool.eq_false_iff.mpr fun hin => (not_or.mp hkept).2 ⟨hin, hsvc⟩
      have hrun := h.field hfield
      rw [onStart_outside hsvc hout, run_isRun hcontent hrun,
        run_isRun hcontent (isRun_retext hrun f _), DescriptionParser.onText_none hp,
        DescriptionParser.onText_none hp]
    · have hunknown := mem_known_names.not.mpr (not_or.mpr ⟨hservice, hfield⟩)
      rw [DescriptionParser.onStart_unknown hunknown]
      exact hinner hp (h.unknown hunknown)
  | text run after ih =>
    rw [retext, Content.events, Content.events, run_text hp, run_text hp]
    exact ih hp ⟨h.plain, h.notNested, h.flat, h.single⟩
  | selfClosing name after ih | ref name after ih | other after ih =>
    exact ih hp ⟨h.plain, h.notNested, h.flat, h.single⟩

/-- From every description the loop chooses the first name that is not blank and the
control URL of the first AVTransport service that has one. No other text makes a
difference. -/
theorem service_choice {doc : Content} (h : IsDescription false doc) :
    parseDeviceDescription xmlContent doc.events =
        ⟨firstName (doc.elements FRIENDLY_NAME), firstUrl (doc.elements SERVICE)⟩ ∧
      ∀ f, parseDeviceDescription xmlContent (retext f false doc).events =
        parseDeviceDescription xmlContent doc.events := by
  have hread := collects_run hcontent (p := {}) rfl h
  refine ⟨DeviceDescription.ext hread.name hread.url, fun f => ?_⟩
  exact congrArg DescriptionParser.desc (run_retext hcontent f (p := {}) rfl h)

end Document

/-- A description as televisions send it, with prefixes, a self-closing element and a service
whose control URL comes first. -/
def sampleDescription : Content :=
  let field (name text : String) (after : Content) : Content :=
    .element name.toList (.text text.toList .done) after
  .other <| .element "root".toList
    (.element "u:device".toList
      (field "u:friendlyName" " [TV] Samsung Q80 " <|
        .selfClosing "u:friendlyName".toList <|
        .element "serviceList".toList
          (.element "service".toList
              (field "serviceType" "urn:schemas-upnp-org:service:RenderingControl:1" <|
                field "controlURL" "/upnp/control/RenderingControl1" .done) <|
            .text "\n".toList <|
            .element "u:service".toList
              (field "u:controlURL" "/upnp/control/AVTransport1" <|
                field "u:serviceType" "urn:schemas-upnp-org:service:AVTransport:1" .done) .done)
          .done) .done) .done

theorem service_choice_samsung :
    parseDeviceDescription (fun t => some (normalizeEol t)) sampleDescription.events =
      ⟨some "[TV] Samsung Q80".toList, some "/upnp/control/AVTransport1".toList⟩ := by
  have hdoc : IsDescription false sampleDescription :=
    ⟨by decide +kernel, by decide +kernel, by decide +kernel, by decide +kernel⟩
  have hname : firstName (sampleDescription.elements FRIENDLY_NAME) =
    some "[TV] Samsung Q80".toList := by decide +kernel
  have hurl : firstUrl (sampleDescription.elements SERVICE) =
    some "/upnp/control/AVTransport1".toList := by decide +kernel
  rw [(service_choice (fun _ => rfl) hdoc).1, hname, hurl]

end HorizonCast
