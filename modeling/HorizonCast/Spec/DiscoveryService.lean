import HorizonCast.Lib.Transition
import HorizonCast.Lib.Watch
import HorizonCast.Spec.Ssdp

/-! The discovery service while it runs (`hc-discovery/src/service.rs`): its task with the
two backends, the handle that stops it, and the subscribers, in any order. A backend may
return at any time: its window is over, or what it listens on failed. -/

namespace HorizonCast.DiscoveryService

open Collections Text Ssdp

/-- Where `search` is in a pass: in its receive loop, with the renderers seen, or in
`enrich_names`, with the tasks that are left. -/
inductive SearchTask where
  | receiving (renderers : AList fun _ : IpAddr => Option Str)
  | enriching (tasks : List (IpAddr × Str))

/-- Where `run` is: at the head of its loop, in a pass since some time, or at its end. -/
inductive RunTask where
  | checking
  | scanning (since : ℕ) (browsing : Bool) (search : SearchTask)
  | ended

structure Service where
  clock : ℕ := 0
  registry : DeviceRegistry := .new Discovery.defaultTtl
  last : List Device := []
  devices : Watch (List Device) := .new []
  subscribers : List (Watch.Receiver (List Device)) := []
  shutdown : Bool := false
  task : RunTask := .checking

inductive Action where
  | tick (ns : ℕ)
  /-- The condition of the loop. -/
  | check
  /-- mDNS resolved a service at time `now`, and has the lock. -/
  | resolved (info : Mdns.ServiceInfo) (now : ℕ)
  | browseEnded
  | datagram (src : IpAddr) (bytes : List UInt8)
  | receiveEnded
  /-- A task of `enrich_names` has its answer. -/
  | described (addr : IpAddr) (location : Str) (fetched : Except Str Str)
  | passEnded (keys : IterOrder IpAddr) (groups : IterOrder (List IpAddr))
  | subscribe
  /-- A subscriber notices a change and takes the list. -/
  | take (subscriber : ℕ)
  | stop

/-- The tasks that `enrich_names` spawns. -/
def enrichTasks (renderers : AList fun _ : IpAddr => Option Str) : List (IpAddr × Str) :=
  renderers.entries.filterMap fun e => e.2.map fun location => (e.1, location)

/-- What the task of an address observes, with this answer. -/
def described (reader : Descriptions) (addr : IpAddr) (location : Str)
    (fetched : Except Str Str) : Option Observation :=
  enrichment { reader with fetchDescription := fun _ => fetched } addr location

namespace Service

variable (reader : Descriptions)

/-- A step of a backend, in a pass since some time. -/
def scanSince (s : Service) (since : ℕ) (browsing : Bool) (search : SearchTask) :
    Action → Option Service
  | .resolved info now =>
    if browsing ∧ since ≤ now ∧ now ≤ s.clock then
      some { s with registry := Mdns.resolved s.registry info now }
    else none
  | .browseEnded =>
    if browsing then some { s with task := .scanning since false search } else none
  | .datagram src bytes =>
    match search with
    | .receiving renderers =>
      let received := Search.receive ⟨s.registry, renderers⟩ src bytes s.clock
      some { s with
        registry := received.registry
        task := .scanning since browsing (.receiving received.renderers) }
    | .enriching _ => none
  | .receiveEnded =>
    match search with
    | .receiving renderers =>
      some { s with task := .scanning since browsing (.enriching (enrichTasks renderers)) }
    | .enriching _ => none
  | .described addr location fetched =>
    match search with
    | .receiving _ => none
    | .enriching tasks =>
      if (addr, location) ∈ tasks then
        some { s with
          registry := (described reader addr location fetched).elim s.registry
            (s.registry.observe · s.clock)
          task := .scanning since browsing (.enriching (tasks.erase (addr, location))) }
      else none
  | _ => none

def scan (s : Service) (a : Action) : Option Service :=
  match s.task with
  | .scanning since browsing search => s.scanSince reader since browsing search a
  | _ => none

/-- The head of the loop: the service was stopped, or a pass begins. -/
def check (s : Service) : Option Service :=
  match s.task with
  | .checking =>
    if s.shutdown then some { s with task := .ended }
    else some { s with task := .scanning s.clock true (.receiving ∅) }
  | _ => none

/-- The rest of a pass, when both backends have returned. -/
def endPass (s : Service) (keys : IterOrder IpAddr) (groups : IterOrder (List IpAddr)) :
    Option Service :=
  match s.task with
  | .scanning _ false (.enriching []) => do
    let registry := s.registry.expire s.clock
    let snapshot ← registry.devices keys groups
    if snapshot ≠ s.last then
      some { s with
        registry := registry, last := snapshot, devices := s.devices.send snapshot,
        task := .checking }
    else some { s with registry := registry, task := .checking }
  | _ => none

def takeLatest (s : Service) (i : ℕ) : Option Service := do
  let subscriber ← s.subscribers[i]?
  let subscriber ← s.devices.take subscriber
  some { s with subscribers := s.subscribers.set i subscriber }

def step (s : Service) : Action → Option Service
  | .tick ns => some { s with clock := s.clock + ns }
  | .check => s.check
  | .passEnded keys groups => s.endPass keys groups
  | .subscribe => some { s with subscribers := s.subscribers ++ [.new] }
  | .take i => s.takeLatest i
  | .stop => if s.shutdown then none else some { s with shutdown := true }
  | a => s.scan reader a

end Service

/-- The state after the actions, from the start of the service. -/
def run (reader : Descriptions) : List Action → Option Service :=
  Transition.run (Service.step reader) {}

/-! ### What the actions record -/

/-- What mDNS observes of a resolved service, for each address. -/
def announced (info : Mdns.ServiceInfo) (addr : IpAddr) : Observation where
  address := addr
  port := info.port
  name := some (Mdns.instanceLabel info.fullname Mdns.AIRPLAY_SERVICE)
  stableId := some info.fullname
  protocol := .airPlayMirror
  dlnaControlUrl := none
  dlnaLocation := none

/-- What a response of a MediaRenderer gives. -/
def answered (addr : IpAddr) (resp : SsdpResponse) : Observation where
  address := addr
  port := (resp.location.bind portFromLocation).getD 0
  name := none
  stableId := resp.usn
  protocol := .dlna
  dlnaControlUrl := none
  dlnaLocation := resp.location

/-- The sightings that an action records at this time of the clock. -/
def Action.sightings (reader : Descriptions) (clock : ℕ) : Action → List (Observation × ℕ)
  | resolved info now => info.addresses.map fun addr => (announced info addr, now)
  | datagram src bytes =>
    let resp := parseSsdpResponse (rawText bytes)
    if isMediaRenderer resp then [(answered src resp, clock)] else []
  | described addr location fetched =>
    (DiscoveryService.described reader addr location fetched).toList.map fun obs => (obs, clock)
  | _ => []

/-- The time that an action takes. -/
def Action.ticks : Action → ℕ
  | tick ns => ns
  | _ => 0

/-- What the actions record: the passes that have ended, with the sightings of each, and
what was sighted since then. -/
structure Journal where
  clock : ℕ := 0
  passes : List Discovery.Pass := []
  pending : List (Observation × ℕ) := []

/-- All sightings, in the order in which they were recorded. -/
def Journal.sightings (j : Journal) : List (Observation × ℕ) :=
  j.passes.flatMap Discovery.Pass.sightings ++ j.pending

def Journal.record (reader : Descriptions) (j : Journal) : Action → Journal
  | .passEnded keys groups =>
    { j with passes := j.passes ++ [⟨j.pending, j.clock, keys, groups⟩], pending := [] }
  | a =>
    { j with
      clock := j.clock + a.ticks
      pending := j.pending ++ a.sightings reader j.clock }

def journal (reader : Descriptions) (as : List Action) : Journal :=
  as.foldl (Journal.record reader) {}

/-! ### A sample -/

/-- A television at two addresses. -/
def sampleInfo : Mdns.ServiceInfo where
  fullname := "TV._airplay._tcp.local.".toList
  port := 7000
  addresses := [.v4 ⟨0xC0A80132, by decide⟩, .v6 ⟨0xFE80 <<< 112 + 1, by decide⟩]

def sampleLocation : Str := "http://192.168.1.50:9197/d.xml".toList

def sampleResponse : List UInt8 :=
  asBytes ("ST: upnp:MediaRenderer\r\nLOCATION: ".toList ++ sampleLocation ++ "\r\n".toList)

/-- A description with an AVTransport service at `/c`. -/
def sampleReader : Descriptions where
  fetchDescription _ := .error []
  events _ := [.start SERVICE, .start SERVICE_TYPE, .text "service:AVTransport:1".toList,
    .stop SERVICE_TYPE, .start CONTROL_URL, .text "/c".toList, .stop CONTROL_URL, .stop SERVICE]
  xmlContent := some

/-- The television is resolved, answers and is described in one pass. -/
def samplePass : List Action :=
  [.browseEnded, .datagram (.v4 ⟨0xC0A80132, by decide⟩) sampleResponse, .receiveEnded,
    .described (.v4 ⟨0xC0A80132, by decide⟩) sampleLocation (.ok []), .tick (3 * 10 ^ 9)]

def sampleEnd : Action := .passEnded ⟨id, fun l => .refl l⟩ ⟨id, fun l => .refl l⟩

/-- A run of one pass, of which a subscriber takes the list. -/
def sampleRun : List Action :=
  [.subscribe, .check, .resolved sampleInfo 0] ++ samplePass ++ [sampleEnd, .take 0]

end HorizonCast.DiscoveryService
