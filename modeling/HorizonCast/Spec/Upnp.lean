import HorizonCast.Lib.Delimited
import HorizonCast.Lib.Xml

/-! Device descriptions, control URLs and XML escaping (`hc-net/src/upnp.rs`). The reader is
seen as the events it yields; `xmlContent` is its decoding of the characters of
a text event. -/

namespace HorizonCast

open Text Xml

/-- Escape a string for safe embedding in XML text/attribute content. -/
def xmlEscape (s : Str) : Str :=
  s.flatMap fun c =>
    if c = '&' then "&amp;".toList
    else if c = '<' then "&lt;".toList
    else if c = '>' then "&gt;".toList
    else if c = '"' then "&quot;".toList
    else if c = '\'' then "&apos;".toList
    else [c]

/-- The subset of a UPnP device description we need. -/
@[ext] structure DeviceDescription where
  friendlyName : Option Str := none
  avTransportControlUrl : Option Str := none
  deriving DecidableEq, Repr

inductive Field where
  | none
  | friendly
  | serviceType
  | controlUrl
  deriving DecidableEq, Repr

def SERVICE : Str := "service".toList
def FRIENDLY_NAME : Str := "friendlyName".toList
def SERVICE_TYPE : Str := "serviceType".toList
def CONTROL_URL : Str := "controlURL".toList

/-- The variables of the parse loop. -/
@[ext] structure DescriptionParser where
  desc : DeviceDescription := {}
  field : Field := .none
  inService : Bool := false
  svcType : Str := []
  svcCtrl : Str := []
  deriving DecidableEq, Repr

namespace DescriptionParser

def onStart (p : DescriptionParser) (localName : Str) : DescriptionParser :=
  if localName = SERVICE then { p with inService := true, svcType := [], svcCtrl := [] }
  else if localName = FRIENDLY_NAME then { p with field := .friendly }
  else if localName = SERVICE_TYPE ∧ p.inService then { p with field := .serviceType }
  else if localName = CONTROL_URL ∧ p.inService then { p with field := .controlUrl }
  else p

/-- A decoded text. -/
def onText (p : DescriptionParser) (txt : Str) : DescriptionParser :=
  match p.field with
  | .friendly =>
    if p.desc.friendlyName = none ∧ trim txt ≠ [] then
      { p with desc := { p.desc with friendlyName := some (trim txt) } }
    else p
  | .serviceType => { p with svcType := p.svcType ++ trim txt }
  | .controlUrl => { p with svcCtrl := p.svcCtrl ++ trim txt }
  | .none => p

def onEnd (p : DescriptionParser) (localName : Str) : DescriptionParser :=
  if localName = SERVICE then
    if p.inService ∧ contains p.svcType "AVTransport".toList ∧
        p.desc.avTransportControlUrl = none ∧ p.svcCtrl ≠ [] then
      { p with
        desc := { p.desc with avTransportControlUrl := some p.svcCtrl }
        inService := false }
    else { p with inService := false }
  else if localName = FRIENDLY_NAME ∨ localName = SERVICE_TYPE ∨ localName = CONTROL_URL then
    { p with field := .none }
  else p

/-- The loop over the events, which an error ends. -/
def run (xmlContent : Str → Option Str) : DescriptionParser → List Event → DescriptionParser
  | p, [] => p
  | p, .start localName :: es => run xmlContent (p.onStart localName) es
  | p, .text content :: es =>
    match xmlContent content with
    | some txt => run xmlContent (p.onText txt) es
    | none => run xmlContent p es
  | p, .stop localName :: es => run xmlContent (p.onEnd localName) es
  | p, .error :: _ => p
  | p, _ :: es => run xmlContent p es

end DescriptionParser

/-- Parse a UPnP device description, given as the events of its document. -/
def parseDeviceDescription (xmlContent : Str → Option Str) (events : List Event) :
    DeviceDescription := (DescriptionParser.run xmlContent {} events).desc

/-- Resolve a possibly-relative `controlURL` against the description's `location` URL.
Positions count characters where the source counts bytes, and cut at the same places. -/
def resolveUrl (location controlUrl : Str) : Option Str :=
  if startsWith controlUrl "http://".toList || startsWith controlUrl "https://".toList then
    some controlUrl
  else do
    let schemeEnd := (← findPat "://".toList location) + 3
    let after := location.drop schemeEnd
    let authorityLen := (findChar '/' after).getD after.length
    let base := location.take (schemeEnd + authorityLen)
    if startsWith controlUrl "/".toList then some (base ++ controlUrl)
    else some (base ++ '/' :: controlUrl)

end HorizonCast
