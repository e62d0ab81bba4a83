import HorizonCast.Lib.Delimited
import HorizonCast.Proofs.Escaping
import HorizonCast.Spec.Soap

/-! What a renderer reads from the metadata: each text of the two nested documents
unescapes to what was put in, whatever it contains. -/

namespace HorizonCast

open Text Xml

/-- The content of the `dc:title` of a DIDL document. -/
def dcTitle (didl : Str) : Option Str := between "<dc:title>".toList "</dc:title>".toList didl

/-- The `res` element of a DIDL document, from its first attribute on. -/
def resElement (didl : Str) : Option Str := (splitAtFirst "<res ".toList didl).map Prod.snd

def resText (didl : Str) : Option Str := (resElement didl).bind (between ">".toList "</res>".toList)

def resProtocolInfo (didl : Str) : Option Str :=
  (resElement didl).bind (between "protocolInfo=\"".toList "\"".toList)

/-- The title, the URI, the protocol info and the document itself come back from what
is sent to the renderer. -/
structure Lossless (title uri protocolInfo didl : Str) : Prop where
  currentUri : (between "<CurrentURI>".toList "</CurrentURI>".toList
    (buildSetAvTransportUri uri didl)).bind unescape = some uri
  metadata : (between "<CurrentURIMetaData>".toList "</CurrentURIMetaData>".toList
    (buildSetAvTransportUri uri didl)).bind unescape = some didl
  title : (dcTitle didl).bind unescape = some title
  res : (resText didl).bind unescape = some uri
  protocolInfo : (resProtocolInfo didl).bind unescape = some protocolInfo

/-! ### The envelope -/

/-- Neither a tag nor the end of one is found in escaped text, nor is a quotation mark. -/
theorem skips_xmlEscape {pat : Str}
    (h : pat.head? = some '<' ∨ pat.head? = some '>' ∨ pat.head? = some '"') (s : Str) :
    Skips pat (xmlEscape s) := by
  rcases h with h | h | h
  all_goals
    obtain ⟨rest, rfl⟩ := List.head?_eq_some_iff.mp h
    exact skips_of_notMem rest (notMem_xmlEscape (by decide) (by decide) s)

-- Evaluating `toList` of a long literal is slow, so the literals below are read as
-- their characters first.

/-- What stands in the body of `SetAVTransportURI` before the URI. -/
def soapStart : Str :=
  ENVELOPE_START ++ ("SetAVTransportURI".toList ++ (" xmlns:u=\"".toList ++
  (AV_TRANSPORT ++ ("\">".toList ++ "<InstanceID>0</InstanceID>".toList))))

/-- What stands after the metadata. -/
def soapStop : Str :=
  "</u:".toList ++ ("SetAVTransportURI".toList ++ "></s:Body></s:Envelope>".toList)

/-- The body by its tags. -/
theorem buildSetAvTransportUri_eq (uri didl : Str) :
    buildSetAvTransportUri uri didl =
      soapStart ++ ("<CurrentURI>".toList ++ (xmlEscape uri ++ ("</CurrentURI>".toList ++
        ("<CurrentURIMetaData>".toList ++ (xmlEscape didl ++ ("</CurrentURIMetaData>".toList ++
          soapStop)))))) := by
  unfold buildSetAvTransportUri soapEnvelope soapStart soapStop
  simp only [List.append_assoc]

theorem between_currentUri (uri didl : Str) :
    between "<CurrentURI>".toList "</CurrentURI>".toList (buildSetAvTransportUri uri didl) =
      some (xmlEscape uri) := by
  have hpre : Skips "<CurrentURI>".toList soapStart := by
    unfold soapStart ENVELOPE_START AV_TRANSPORT
    repeat rw [String.toList_ofList]
    decide +kernel
  have htext : Skips "</CurrentURI>".toList (xmlEscape uri) := skips_xmlEscape (by decide) uri
  rw [buildSetAvTransportUri_eq, between_skips hpre htext]

theorem between_metadata (uri didl : Str) :
    between "<CurrentURIMetaData>".toList "</CurrentURIMetaData>".toList
      (buildSetAvTransportUri uri didl) = some (xmlEscape didl) := by
  have hstart : Skips "<CurrentURIMetaData>".toList (soapStart ++ "<CurrentURI>".toList) := by
    unfold soapStart ENVELOPE_START AV_TRANSPORT
    repeat rw [String.toList_ofList]
    decide +kernel
  have huri : Skips "<CurrentURIMetaData>".toList (xmlEscape uri) :=
    skips_xmlEscape (by decide) uri
  have hstop : Skips "<CurrentURIMetaData>".toList "</CurrentURI>".toList := by decide +kernel
  have htext : Skips "</CurrentURIMetaData>".toList (xmlEscape didl) :=
    skips_xmlEscape (by decide) didl
  have hbetween := between_skips (hstart.append (huri.append hstop)) htext soapStop
  simp only [List.append_assoc] at hbetween
  rw [buildSetAvTransportUri_eq, hbetween]

/-! ### The metadata -/

/-- What stands after the name of the `res` element. -/
def resRest (uri protocolInfo : Str) : Str :=
  "protocolInfo=\"".toList ++ (xmlEscape protocolInfo ++ ("\"".toList ++
    (">".toList ++ (xmlEscape uri ++ ("</res>".toList ++ "</item></DIDL-Lite>".toList)))))

/-- The document by its tags. -/
theorem didlWithProtocolInfo_eq (title uri protocolInfo : Str) :
    didlWithProtocolInfo title uri protocolInfo =
      DIDL_START ++ ("<dc:title>".toList ++ (xmlEscape title ++ ("</dc:title>".toList ++
        ("<upnp:class>object.item.videoItem</upnp:class>".toList ++
          ("<res ".toList ++ resRest uri protocolInfo))))) := by
  unfold didlWithProtocolInfo resRest
  simp only [List.append_assoc]

theorem dcTitle_didl (title uri protocolInfo : Str) :
    dcTitle (didlWithProtocolInfo title uri protocolInfo) = some (xmlEscape title) := by
  have hpre : Skips "<dc:title>".toList DIDL_START := by
    unfold DIDL_START
    repeat rw [String.toList_ofList]
    decide +kernel
  have htext : Skips "</dc:title>".toList (xmlEscape title) := skips_xmlEscape (by decide) title
  rw [didlWithProtocolInfo_eq, dcTitle, between_skips hpre htext]

theorem resElement_didl (title uri protocolInfo : Str) :
    resElement (didlWithProtocolInfo title uri protocolInfo) =
      some (resRest uri protocolInfo) := by
  have hstart : Skips "<res ".toList (DIDL_START ++ "<dc:title>".toList) := by
    unfold DIDL_START
    repeat rw [String.toList_ofList]
    decide +kernel
  have htitle : Skips "<res ".toList (xmlEscape title) := skips_xmlEscape (by decide) title
  have hclass : Skips "<res ".toList ("</dc:title>".toList ++
      "<upnp:class>object.item.videoItem</upnp:class>".toList) := by
    decide +kernel
  have hsplit := splitAtFirst_skips (hstart.append (htitle.append hclass))
    (resRest uri protocolInfo)
  simp only [List.append_assoc] at hsplit
  rw [didlWithProtocolInfo_eq, resElement, hsplit, Option.map_some]

theorem resProtocolInfo_didl (title uri protocolInfo : Str) :
    resProtocolInfo (didlWithProtocolInfo title uri protocolInfo) =
      some (xmlEscape protocolInfo) := by
  have htext : Skips "\"".toList (xmlEscape protocolInfo) :=
    skips_xmlEscape (by decide) protocolInfo
  have hbetween := between_skips (skips_nil "protocolInfo=\"".toList) htext
    (">".toList ++ (xmlEscape uri ++ ("</res>".toList ++ "</item></DIDL-Lite>".toList)))
  rw [List.nil_append] at hbetween
  unfold resProtocolInfo
  rw [resElement_didl, Option.bind_some]
  exact hbetween

theorem resText_didl (title uri protocolInfo : Str) :
    resText (didlWithProtocolInfo title uri protocolInfo) = some (xmlEscape uri) := by
  have hopen : Skips ">".toList "protocolInfo=\"".toList := by decide +kernel
  have hinfo : Skips ">".toList (xmlEscape protocolInfo) :=
    skips_xmlEscape (by decide) protocolInfo
  have hquote : Skips ">".toList "\"".toList := by decide +kernel
  have htext : Skips "</res>".toList (xmlEscape uri) := skips_xmlEscape (by decide) uri
  have hbetween := between_skips (hopen.append (hinfo.append hquote)) htext
    "</item></DIDL-Lite>".toList
  simp only [List.append_assoc] at hbetween
  unfold resText
  rw [resElement_didl, Option.bind_some]
  exact hbetween

/-- The document made for any title, URI and protocol info is lossless. -/
theorem lossless_didl (title uri protocolInfo : Str) :
    Lossless title uri protocolInfo (didlWithProtocolInfo title uri protocolInfo) where
  currentUri := by rw [between_currentUri, Option.bind_some, unescape_xmlEscape]
  metadata := by rw [between_metadata, Option.bind_some, unescape_xmlEscape]
  title := by rw [dcTitle_didl, Option.bind_some, unescape_xmlEscape]
  res := by rw [resText_didl, Option.bind_some, unescape_xmlEscape]
  protocolInfo := by rw [resProtocolInfo_didl, Option.bind_some, unescape_xmlEscape]

/-- The nesting of SOAP and DIDL loses nothing and lets nothing in, for files and for
live streams. -/
theorem soap_lossless (title uri mime : Str) :
    Lossless title uri (httpGetInfo mime DLNA_CONTENT_FEATURES) (didlLiteVideo title uri mime) ∧
      Lossless title uri (httpGetInfo mime DLNA_LIVE_FEATURES)
        (didlLiteLiveVideo title uri mime) :=
  ⟨lossless_didl _ _ _, lossless_didl _ _ _⟩

end HorizonCast
