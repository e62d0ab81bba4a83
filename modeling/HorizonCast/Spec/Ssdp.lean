import HorizonCast.Lib.Lossy
import HorizonCast.Spec.Discovery
import HorizonCast.Spec.Upnp

/-! One discovery pass: the SSDP search (`hc-discovery/src/ssdp.rs`) from its receive loop
on, and what mDNS resolves meanwhile (`hc-discovery/src/mdns.rs`). The socket is seen as
the outcomes of its calls, the clock as the times that were read. -/

namespace HorizonCast

open Collections Text

/-! ### mDNS -/

namespace Mdns

def AIRPLAY_SERVICE : Str := "_airplay._tcp.local.".toList

def trimEndDots (s : Str) : Str := s.rdropWhile (· = '.')

/-- Strip the service suffix from an mDNS fullname to get the friendly instance label. -/
def instanceLabel (fullname service : Str) : Str :=
  trimEndDots (if service <:+ fullname then
    trimEndDots (fullname.take (fullname.length - service.length))
  else fullname)

/-- What a resolved service says of itself. -/
structure ServiceInfo where
  fullname : Str
  port : UInt16
  addresses : List IpAddr

/-- The round of the browse loop in which a service was resolved. -/
def resolved (registry : DeviceRegistry) (info : ServiceInfo) (now : ℕ) : DeviceRegistry :=
  info.addresses.foldl (fun registry addr =>
    registry.observe {
      address := addr
      port := info.port
      name := some (instanceLabel info.fullname AIRPLAY_SERVICE)
      stableId := some info.fullname
      protocol := .airPlayMirror
      dlnaControlUrl := none
      dlnaLocation := none } now) registry

end Mdns

/-! ### Responses -/

/-- Parsed subset of an SSDP search response that we care about. -/
structure SsdpResponse where
  location : Option Str := none
  usn : Option Str := none
  server : Option Str := none
  st : Option Str := none
  deriving DecidableEq, Repr

namespace Ssdp

/-- One round of the loop over the lines. -/
def parseLine (resp : SsdpResponse) (line : Str) : SsdpResponse :=
  match splitOnce ':' line with
  | none => resp
  | some (key, value) =>
    let value := trim value
    if value = [] then resp
    else
      let key := (trim key).map Char.toLower
      if key = "location".toList then { resp with location := some value }
      else if key = "usn".toList then { resp with usn := some value }
      else if key = "server".toList then { resp with server := some value }
      else if key = "st".toList ∨ key = "nt".toList then { resp with st := some value }
      else resp

/-- Parse an SSDP/HTTP response into its relevant headers. -/
def parseSsdpResponse (raw : Str) : SsdpResponse := (lines raw).foldl parseLine {}

/-- True if the response looks like a DLNA MediaRenderer. -/
def isMediaRenderer (resp : SsdpResponse) : Bool :=
  let names (s : Option Str) : Bool :=
    s.any fun v => contains (v.map Char.toLower) "mediarenderer".toList
  names resp.st || names resp.usn

/-- Extract the port from a LOCATION URL. -/
def portFromLocation (location : Str) : Option UInt16 := do
  let (_, rest) ← splitAtFirst "://".toList location
  -- a second `://` ends the piece
  let afterScheme := ((splitAtFirst "://".toList rest).map Prod.fst).getD rest
  let authority := afterScheme.takeWhile (· ≠ '/')
  let (_, port) ← rsplitOnce ':' authority
  (parseUnsigned 65535 port).map UInt16.ofNat

/-! ### The search -/

/-- The outcome of `timeout(remaining, socket.recv_from(&mut buf))`. -/
inductive Received where
  | datagram (src : IpAddr) (bytes : List UInt8) (now : ℕ)
  | error (e : Str)
  | timeout

/-- One round of the receive loop, with the services that mDNS resolved before it. -/
structure Round where
  resolved : List (Mdns.ServiceInfo × ℕ)
  elapsed : ℕ
  received : Received

/-- The registry, and the map of the renderers seen. -/
structure Search where
  registry : DeviceRegistry
  renderers : AList fun _ : IpAddr => Option Str

/-- A datagram as text; one that is longer than the buffer is cut off. -/
def rawText (bytes : List UInt8) : Str := fromUtf8Lossy (bytes.take 2048)

/-- The branch of a datagram from `addr`, recorded at time `now`. -/
def Search.receive (s : Search) (addr : IpAddr) (bytes : List UInt8) (now : ℕ) : Search :=
  let resp := parseSsdpResponse (rawText bytes)
  if isMediaRenderer resp then
    { registry := s.registry.observe {
        address := addr
        port := (resp.location.bind portFromLocation).getD 0
        name := none
        stableId := resp.usn
        protocol := .dlna
        dlnaControlUrl := none
        dlnaLocation := resp.location } now
      -- `entry(addr).or_insert(resp.location)`
      renderers := if addr ∈ s.renderers then s.renderers
        else s.renderers.insert addr resp.location }
  else s

/-- The receive loop, up to the call of `enrich_names`. -/
def searchLoop (window : ℕ) : Search → List Round → Search
  | s, [] => s
  | s, r :: rounds =>
    let s := { s with registry := r.resolved.foldl (fun registry info =>
      Mdns.resolved registry info.1 info.2) s.registry }
    if window ≤ r.elapsed then s
    else
      match r.received with
      | .datagram src bytes now => searchLoop window (s.receive src bytes now) rounds
      | .error _ => s
      | .timeout => s

def search (registry : DeviceRegistry) (window : ℕ) (rounds : List Round) : Search :=
  searchLoop window ⟨registry, ∅⟩ rounds

/-! ### Enrichment -/

/-- What a description is fetched and read with. -/
structure Descriptions where
  fetchDescription : Str → Except Str Str
  events : Str → List Xml.Event
  xmlContent : Str → Option Str

/-- What the task of an address observes. -/
def enrichment (descriptions : Descriptions) (addr : IpAddr) (location : Str) :
    Option Observation :=
  match descriptions.fetchDescription location with
  | .ok xml =>
    let desc := parseDeviceDescription descriptions.xmlContent (descriptions.events xml)
    let controlUrl := desc.avTransportControlUrl.bind (resolveUrl location)
    if desc.friendlyName ≠ none ∨ controlUrl ≠ none then
      some {
        address := addr
        port := 0
        name := desc.friendlyName
        stableId := none
        protocol := .dlna
        dlnaControlUrl := controlUrl
        dlnaLocation := none }
    else none
  | .error _ => none

/-- What the tasks of `enrich_names` observe. They run side by side, so the order of the
list says nothing. -/
def enrichNames (descriptions : Descriptions) (renderers : AList fun _ : IpAddr => Option Str) :
    List Observation :=
  renderers.entries.filterMap fun e => e.2.bind (enrichment descriptions e.1)

end Ssdp

end HorizonCast
