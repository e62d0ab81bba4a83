import HorizonCast.Spec.MediaServer
import HorizonCast.Spec.Upnp

/-! DIDL-Lite metadata and the SOAP bodies of the AVTransport actions
(`hc-net/src/upnp.rs`). -/

namespace HorizonCast

open Text

/-- AVTransport service type we control. -/
def AV_TRANSPORT : Str := "urn:schemas-upnp-org:service:AVTransport:1".toList

/-- The features of a live stream, which cannot be sought (`hc-net/src/live_stream.rs`). -/
def DLNA_LIVE_FEATURES : Str :=
  "DLNA.ORG_OP=00;DLNA.ORG_CI=0;DLNA.ORG_FLAGS=0D500000000000000000000000000000".toList

def httpGetInfo (mime features : Str) : Str :=
  "http-get:*:".toList ++ mime ++ ":".toList ++ features

/-- The root and the item of a DIDL document, up to the first child. -/
def DIDL_START : Str :=
  "<DIDL-Lite xmlns=\"urn:schemas-upnp-org:metadata-1-0/DIDL-Lite/\" ".toList ++
  ("xmlns:dc=\"http://purl.org/dc/elements/1.1/\" ".toList ++
  ("xmlns:upnp=\"urn:schemas-upnp-org:metadata-1-0/upnp/\">".toList ++
  "<item id=\"0\" parentID=\"-1\" restricted=\"1\">".toList))

def didlWithProtocolInfo (title uri protocolInfo : Str) : Str :=
  DIDL_START ++
  "<dc:title>".toList ++ xmlEscape title ++ "</dc:title>".toList ++
  "<upnp:class>object.item.videoItem</upnp:class>".toList ++
  "<res ".toList ++ "protocolInfo=\"".toList ++ xmlEscape protocolInfo ++ "\"".toList ++
  ">".toList ++ xmlEscape uri ++ "</res>".toList ++ "</item></DIDL-Lite>".toList

/-- Build a minimal DIDL-Lite metadata document describing one video item. -/
def didlLiteVideo (title uri mime : Str) : Str :=
  didlWithProtocolInfo title uri (httpGetInfo mime DLNA_CONTENT_FEATURES)

/-- DIDL-Lite for a live (open-ended, non-seekable) video source. -/
def didlLiteLiveVideo (title uri mime : Str) : Str :=
  didlWithProtocolInfo title uri (httpGetInfo mime DLNA_LIVE_FEATURES)

/-- The envelope up to the name of the action. -/
def ENVELOPE_START : Str :=
  "<?xml version=\"1.0\" encoding=\"utf-8\"?>".toList ++
  ("<s:Envelope xmlns:s=\"http://schemas.xmlsoap.org/soap/envelope/\" ".toList ++
  ("s:encodingStyle=\"http://schemas.xmlsoap.org/soap/encoding/\">".toList ++
  "<s:Body><u:".toList))

def soapEnvelope (action inner : Str) : Str :=
  ENVELOPE_START ++ action ++ " xmlns:u=\"".toList ++ AV_TRANSPORT ++ "\">".toList ++ inner ++
  "</u:".toList ++ action ++ "></s:Body></s:Envelope>".toList

/-- SOAP body for `SetAVTransportURI` (tells the renderer which media to load). -/
def buildSetAvTransportUri (uri didlMetadata : Str) : Str :=
  soapEnvelope "SetAVTransportURI".toList
    ("<InstanceID>0</InstanceID>".toList ++
      "<CurrentURI>".toList ++ xmlEscape uri ++ "</CurrentURI>".toList ++
      "<CurrentURIMetaData>".toList ++ xmlEscape didlMetadata ++ "</CurrentURIMetaData>".toList)

/-- SOAP body for `Play`. -/
def buildPlay : Str :=
  soapEnvelope "Play".toList "<InstanceID>0</InstanceID><Speed>1</Speed>".toList

/-- SOAP body for `Stop`. -/
def buildStop : Str := soapEnvelope "Stop".toList "<InstanceID>0</InstanceID>".toList

end HorizonCast
