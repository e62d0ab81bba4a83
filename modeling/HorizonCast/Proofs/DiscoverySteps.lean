import HorizonCast.Proofs.Resighting
import HorizonCast.Proofs.Sightings
import HorizonCast.Proofs.SsdpSearch
import HorizonCast.Spec.DiscoveryService

/-! What the steps of the discovery service do. A backend records the sightings of its
action and moves on within the pass, and nothing else. -/

namespace HorizonCast.DiscoveryService

open Collections Discovery Ssdp Text

variable {reader : Descriptions}

/-! ### What is recorded -/

theorem run_observeCalls (registry : DeviceRegistry) (sightings : List (Observation × ℕ)) :
    registry.run (observeCalls sightings) =
      sightings.foldl (fun registry s => registry.observe s.1 s.2) registry := by
  rw [DeviceRegistry.run, observeCalls, List.foldl_map]
  rfl

theorem resolved_eq (registry : DeviceRegistry) (info : Mdns.ServiceInfo) (now : ℕ) :
    Mdns.resolved registry info now =
      registry.run (observeCalls (info.addresses.map fun addr => (announced info addr, now))) := by
  rw [run_observeCalls, List.foldl_map]
  rfl

/-- The response of a MediaRenderer is recorded, and its sender kept with the location. -/
theorem receive_eq (registry : DeviceRegistry) (renderers : AList fun _ : IpAddr => Option Str)
    (src : IpAddr) (bytes : List UInt8) (now : ℕ) :
    (Search.receive ⟨registry, renderers⟩ src bytes now).registry =
      registry.run (observeCalls (Action.sightings reader now (.datagram src bytes))) := by
  rw [run_observeCalls, Search.receive, Action.sightings]
  dsimp only
  split_ifs <;> rfl

theorem described_eq (registry : DeviceRegistry) (addr : IpAddr) (location : Str)
    (fetched : Except Str Str) (now : ℕ) :
    (described reader addr location fetched).elim registry (registry.observe · now) =
      registry.run (observeCalls (Action.sightings reader now (.described addr location fetched)))
      := by
  rw [run_observeCalls, Action.sightings]
  cases described reader addr location fetched <;> rfl

/-! ### Locations -/

/-- The locations that the search holds for `enrich_names`. -/
def SearchTask.locations : SearchTask → List (IpAddr × Str)
  | receiving renderers => enrichTasks renderers
  | enriching tasks => tasks

/-- The action is a response of a MediaRenderer, from this address and with this
location. -/
def Action.Sends (a : Action) (addr : IpAddr) (location : Str) : Prop :=
  ∃ bytes resp, a = .datagram addr bytes ∧ rendererResponse bytes = some resp ∧
    resp.location = some location

theorem mem_enrichTasks {renderers : AList fun _ : IpAddr => Option Str} {addr : IpAddr}
    {location : Str} :
    (addr, location) ∈ enrichTasks renderers ↔ renderers.lookup addr = some (some location) := by
  rw [← Option.mem_def, AList.mem_lookup_iff, enrichTasks, List.mem_filterMap]
  constructor
  · rintro ⟨⟨addr', location'⟩, hmem, heq⟩
    obtain ⟨_, rfl, hpair⟩ := Option.map_eq_some_iff.mp heq
    cases hpair
    exact hmem
  · intro hmem
    exact ⟨⟨addr, some location⟩, hmem, rfl⟩

theorem locations_receive {registry : DeviceRegistry}
    {renderers : AList fun _ : IpAddr => Option Str} {src addr : IpAddr} {bytes : List UInt8}
    {now : ℕ} {location : Str}
    (h : (addr, location) ∈
      enrichTasks (Search.receive ⟨registry, renderers⟩ src bytes now).renderers) :
    (addr, location) ∈ enrichTasks renderers ∨ (Action.datagram src bytes).Sends addr location := by
  rw [mem_enrichTasks, (receive_spec _ src bytes now addr).1, Option.or_eq_some_iff] at h
  rcases h with hold | ⟨-, hnew⟩
  · exact .inl (mem_enrichTasks.mpr hold)
  · obtain ⟨resp, hresp, hlocation⟩ := Option.map_eq_some_iff.mp hnew
    unfold responseFrom at hresp
    obtain ⟨rfl, hrenderer⟩ := Option.ite_none_right_eq_some.mp hresp
    exact .inr ⟨bytes, resp, rfl, hrenderer, hlocation⟩

/-! ### Steps -/

def Action.isPassEnd : Action → Bool
  | passEnded _ _ => true
  | _ => false

def Action.isScan : Action → Bool
  | resolved _ _ | browseEnded | datagram _ _ | receiveEnded | described _ _ _ => true
  | _ => false

/-- Only the backends record anything. -/
theorem sightings_eq_nil {a : Action} (h : a.isScan = false) (clock : ℕ) :
    a.sightings reader clock = [] := by
  cases a <;> first | rfl | cases h

/-- What a step of a backend does. -/
structure Scans (reader : Descriptions) (s : Service) (since : ℕ) (search : SearchTask)
    (a : Action) (s' : Service) : Prop where
  next : ∃ browsing' search', s' = { s with
      registry := s.registry.run (observeCalls (a.sightings reader s.clock))
      task := .scanning since browsing' search' } ∧
    ∀ addr location, (addr, location) ∈ search'.locations →
      (addr, location) ∈ search.locations ∨ a.Sends addr location
  inTime : ∀ x ∈ a.sightings reader s.clock, x.2 = s.clock ∨ since ≤ x.2 ∧ x.2 ≤ s.clock
  asked : ∀ addr location fetched, a = .described addr location fetched →
    (addr, location) ∈ search.locations
  isScan : a.isScan = true

theorem Scans.notPassEnd {s s' : Service} {since : ℕ} {search : SearchTask} {a : Action}
    (h : Scans reader s since search a s') : a.isPassEnd = false := by
  have hscan := h.isScan
  cases a <;> first | rfl | (simp [Action.isScan] at hscan)

theorem scan_spec {s s' : Service} {since : ℕ} {browsing : Bool} {search : SearchTask} {a : Action}
    (htask : s.task = .scanning since browsing search)
    (h : s.scanSince reader since browsing search a = some s') :
    Scans reader s since search a s' := by
  cases a with
  | resolved info now =>
    obtain ⟨⟨-, hsince, hnow⟩, heq⟩ := Option.ite_none_right_eq_some.mp h
    obtain rfl := Option.some.inj heq
    refine ⟨⟨browsing, search, ?_, fun _ _ hl => .inl hl⟩, fun x hx => ?_, nofun, rfl⟩
    · rw [resolved_eq, ← htask]
      rfl
    · obtain ⟨addr, -, rfl⟩ := List.mem_map.mp hx
      exact .inr ⟨hsince, hnow⟩
  | browseEnded =>
    obtain ⟨-, heq⟩ := Option.ite_none_right_eq_some.mp h
    obtain rfl := Option.some.inj heq
    exact ⟨⟨false, search, rfl, fun _ _ hl => .inl hl⟩, nofun, nofun, rfl⟩
  | datagram src bytes =>
    cases search with
    | receiving renderers =>
      obtain rfl := Option.some.inj h
      let renderers' := (Search.receive ⟨s.registry, renderers⟩ src bytes s.clock).renderers
      refine ⟨⟨browsing, .receiving renderers', ?_, fun _ _ hl => locations_receive hl⟩,
        fun x hx => ?_, nofun, rfl⟩
      · rw [← receive_eq]
      · unfold Action.sightings at hx
        dsimp only at hx
        split_ifs at hx
        · exact .inl (congrArg Prod.snd (List.mem_singleton.mp hx))
        · cases hx
    | enriching => cases h
  | receiveEnded =>
    cases search with
    | receiving renderers =>
      obtain rfl := Option.some.inj h
      exact ⟨⟨browsing, .enriching (enrichTasks renderers), rfl, fun _ _ hl => .inl hl⟩, nofun,
        nofun, rfl⟩
    | enriching => cases h
  | described addr location fetched =>
    cases search with
    | receiving => cases h
    | enriching tasks =>
      obtain ⟨hasked, heq⟩ := Option.ite_none_right_eq_some.mp h
      obtain rfl := Option.some.inj heq
      refine ⟨⟨browsing, .enriching (tasks.erase (addr, location)), ?_,
        fun _ _ hl => .inl (List.mem_of_mem_erase hl)⟩, fun x hx => ?_, ?_, rfl⟩
      · rw [described_eq]
      · obtain ⟨obs, -, rfl⟩ := List.mem_map.mp hx
        exact .inl rfl
      · rintro _ _ _ ⟨⟩
        exact hasked
  | _ => cases h

/-- What a step of the service does. -/
inductive Moves (reader : Descriptions) (s : Service) : Action → Service → Prop where
  | ticked (ns : ℕ) : Moves reader s (.tick ns) { s with clock := s.clock + ns }
  | ended (checking : s.task = .checking) (stopped : s.shutdown = true) :
    Moves reader s .check { s with task := .ended }
  | began (checking : s.task = .checking) (running : s.shutdown = false) :
    Moves reader s .check { s with task := .scanning s.clock true (.receiving ∅) }
  | scanned {a : Action} {since : ℕ} {browsing : Bool} {search : SearchTask} {s' : Service}
    (scanning : s.task = .scanning since browsing search)
    (scans : Scans reader s since search a s') : Moves reader s a s'
  | passEnded {keys : IterOrder IpAddr} {groups : IterOrder (List IpAddr)} {since : ℕ}
    {snapshot : List Device} (scanning : s.task = .scanning since false (.enriching []))
    (listed : (s.registry.expire s.clock).devices keys groups = some snapshot) :
    Moves reader s (.passEnded keys groups) { s with
      registry := s.registry.expire s.clock
      last := snapshot
      devices := if snapshot = s.last then s.devices else s.devices.send snapshot
      task := .checking }
  | subscribed : Moves reader s .subscribe { s with subscribers := s.subscribers ++ [.new] }
  | taken {i : ℕ} {subscriber subscriber' : Watch.Receiver (List Device)}
    (found : s.subscribers[i]? = some subscriber)
    (took : s.devices.take subscriber = some subscriber') :
    Moves reader s (.take i) { s with subscribers := s.subscribers.set i subscriber' }
  | stopped (running : s.shutdown = false) : Moves reader s .stop { s with shutdown := true }

theorem moves_of_scan {s s' : Service} {a : Action} (h : s.scan reader a = some s') :
    Moves reader s a s' := by
  unfold Service.scan at h
  split at h
  case h_1 htask => exact .scanned htask (scan_spec htask h)
  case h_2 => cases h

theorem moves_of_check {s s' : Service} (h : s.check = some s') : Moves reader s .check s' := by
  unfold Service.check at h
  split at h
  case h_1 htask =>
    split_ifs at h with hstop
    · obtain rfl := Option.some.inj h
      exact .ended htask hstop
    · obtain rfl := Option.some.inj h
      exact .began htask (Bool.eq_false_iff.mpr hstop)
  case h_2 => cases h

theorem moves_of_endPass {s s' : Service} {keys : IterOrder IpAddr}
    {groups : IterOrder (List IpAddr)} (h : s.endPass keys groups = some s') :
    Moves reader s (.passEnded keys groups) s' := by
  unfold Service.endPass at h
  split at h
  case h_1 htask =>
    obtain ⟨snapshot, hlisted, hnext⟩ := Option.bind_eq_some_iff.mp h
    have hmove : Moves reader s _ _ := .passEnded htask hlisted
    by_cases hsame : snapshot = s.last
    · rw [if_neg (not_not_intro hsame)] at hnext
      obtain rfl := Option.some.inj hnext
      rw [if_pos hsame, hsame] at hmove
      exact hmove
    · rw [if_pos hsame] at hnext
      obtain rfl := Option.some.inj hnext
      rw [if_neg hsame] at hmove
      exact hmove
  case h_2 => cases h

theorem moves_of_step {s s' : Service} {a : Action} (h : s.step reader a = some s') :
    Moves reader s a s' := by
  cases a with
  | tick ns =>
    obtain rfl := Option.some.inj h
    exact .ticked ns
  | check => exact moves_of_check h
  | passEnded keys groups => exact moves_of_endPass h
  | subscribe =>
    obtain rfl := Option.some.inj h
    exact .subscribed
  | take i =>
    obtain ⟨subscriber, hfound, hrest⟩ := Option.bind_eq_some_iff.mp h
    obtain ⟨subscriber', htook, heq⟩ := Option.bind_eq_some_iff.mp hrest
    obtain rfl := Option.some.inj heq
    exact .taken hfound htook
  | stop =>
    obtain ⟨hrunning, heq⟩ := Option.ite_none_left_eq_some.mp h
    obtain rfl := Option.some.inj heq
    exact .stopped (Bool.eq_false_iff.mpr hrunning)
  | _ => exact moves_of_scan h

end HorizonCast.DiscoveryService
