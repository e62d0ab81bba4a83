import HorizonCast.Proofs.DeviceList
import HorizonCast.Proofs.SsdpHeaders

/-! Which location the SSDP search hands on for an address, and which one the registry
holds. The map of the search keeps the first response, the registry the first location. -/

namespace HorizonCast.Ssdp

open Collections Text

/-! ### The responses of a search -/

/-- The datagrams that the loop receives, with their senders. -/
def datagrams (window : ℕ) : List Round → List (IpAddr × List UInt8)
  | [] => []
  | r :: rounds =>
    if window ≤ r.elapsed then []
    else
      match r.received with
      | .datagram src bytes _ => (src, bytes) :: datagrams window rounds
      | .error _ | .timeout => []

/-- The response in a datagram, if it is one of a MediaRenderer. -/
def rendererResponse (bytes : List UInt8) : Option SsdpResponse :=
  (some (parseSsdpResponse (rawText bytes))).filter isMediaRenderer

/-- The MediaRenderer response that a datagram from `addr` carries. -/
def responseFrom (addr : IpAddr) (d : IpAddr × List UInt8) : Option SsdpResponse :=
  if d.1 = addr then rendererResponse d.2 else none

/-- The MediaRenderer responses from `addr`, in order. -/
def responses (window : ℕ) (rounds : List Round) (addr : IpAddr) : List SsdpResponse :=
  (datagrams window rounds).filterMap (responseFrom addr)

def firstLocation (resps : List SsdpResponse) : Option Str := resps.findSome? SsdpResponse.location

/-! ### Locations -/

theorem parseLine_location {resp : SsdpResponse} (h : resp.location ≠ some []) (line : Str) :
    (parseLine resp line).location ≠ some [] := by
  rw [parseLine_eq]
  cases hheader : headerOf line with
  | none => exact h
  | some fv =>
    obtain ⟨f, v⟩ := fv
    obtain ⟨a, name, b, text, -, -, -, -, -, hne⟩ := headerOf_eq_some.mp hheader
    change (resp.setValue v f).value .location ≠ some []
    rw [SsdpResponse.value_setValue]
    split_ifs
    · simpa using hne
    · exact h

/-- A response carries a location that is not empty, or none. -/
theorem parse_location (raw : Str) : nonEmpty (parseSsdpResponse raw).location =
    (parseSsdpResponse raw).location := by
  have hlines : ∀ (ls : List Str) (resp : SsdpResponse), resp.location ≠ some [] →
      (ls.foldl parseLine resp).location ≠ some [] := by
    intro ls
    induction ls with
    | nil => exact fun _ h => h
    | cons line ls ih => exact fun resp h => ih _ (parseLine_location h line)
  have hne := hlines (lines raw) {} (by simp)
  unfold parseSsdpResponse
  cases hloc : ((lines raw).foldl parseLine {}).location with
  | none => rfl
  | some location =>
    rw [hloc] at hne
    simpa [nonEmpty, Option.filter] using hne

/-- An observation of the address fills in its location where there is none. -/
theorem location_observe (reg : DeviceRegistry) (obs : Observation) (now : ℕ) (a : IpAddr) :
    fieldAt (reg.observe obs now) Entry.dlnaLocation a =
      (fieldAt reg Entry.dlnaLocation a).or
        (if obs.address = a then nonEmpty obs.dlnaLocation else none) := by
  unfold fieldAt DeviceRegistry.observe
  split_ifs with ha
  · subst ha
    rw [AList.lookup_insert, Option.bind_some]
    unfold Entry.record
    dsimp only
    cases reg.entries.lookup obs.address with
    | none => simp [Entry.vacant]
    | some e =>
      rw [Option.getD_some, Option.bind_some]
      split_ifs with hnone
      · rw [hnone, Option.none_or]
      · obtain ⟨location, hlocation⟩ := Option.ne_none_iff_exists'.mp hnone
        rw [hlocation, Option.some_or]
  · rw [AList.lookup_insert_ne (Ne.symm ha), Option.or_none]

/-- What mDNS resolves has no location. -/
theorem location_resolved (reg : DeviceRegistry) (info : Mdns.ServiceInfo) (now : ℕ) (a : IpAddr) :
    fieldAt (Mdns.resolved reg info now) Entry.dlnaLocation a =
      fieldAt reg Entry.dlnaLocation a := by
  unfold Mdns.resolved
  induction info.addresses generalizing reg with
  | nil => rfl
  | cons addr addrs ih =>
    rw [List.foldl_cons, ih, location_observe]
    simp [nonEmpty]

theorem location_resolvedAll (reg : DeviceRegistry) (infos : List (Mdns.ServiceInfo × ℕ))
    (a : IpAddr) :
    fieldAt (infos.foldl (fun registry info => Mdns.resolved registry info.1 info.2) reg)
      Entry.dlnaLocation a = fieldAt reg Entry.dlnaLocation a := by
  induction infos generalizing reg with
  | nil => rfl
  | cons info infos ih => rw [List.foldl_cons, ih, location_resolved]

/-! ### The receive loop -/

/-- A datagram enters its sender in the map when it is the first response from there, and
gives the registry its location when that is the first one. -/
theorem receive_spec (s : Search) (src : IpAddr) (bytes : List UInt8) (now : ℕ) (a : IpAddr) :
    (s.receive src bytes now).renderers.lookup a =
        (s.renderers.lookup a).or ((responseFrom a (src, bytes)).map SsdpResponse.location) ∧
      fieldAt (s.receive src bytes now).registry Entry.dlnaLocation a =
        (fieldAt s.registry Entry.dlnaLocation a).or
          ((responseFrom a (src, bytes)).bind SsdpResponse.location) := by
  unfold Search.receive responseFrom rendererResponse
  by_cases hrenderer : isMediaRenderer (parseSsdpResponse (rawText bytes)) = true
  · simp only [hrenderer, if_true, Option.filter_some_pos]
    refine ⟨?_, ?_⟩
    · rw [lookup_orInsert]
      split_ifs <;> rfl
    · rw [location_observe]
      dsimp only
      rw [parse_location]
      split_ifs <;> rfl
  · have hnone : Option.filter isMediaRenderer (some (parseSsdpResponse (rawText bytes))) = none :=
      Option.filter_some_neg (Bool.not_eq_true _ ▸ hrenderer)
    rw [if_neg hrenderer]
    dsimp only
    rw [hnone]
    simp

theorem searchLoop_spec (window : ℕ) (rounds : List Round) (s : Search) (a : IpAddr) :
    (searchLoop window s rounds).renderers.lookup a =
        (s.renderers.lookup a).or ((responses window rounds a).head?.map SsdpResponse.location) ∧
      fieldAt (searchLoop window s rounds).registry Entry.dlnaLocation a =
        (fieldAt s.registry Entry.dlnaLocation a).or
          (firstLocation (responses window rounds a)) := by
  induction rounds generalizing s with
  | nil => simp [searchLoop, responses, datagrams, firstLocation]
  | cons r rounds ih =>
    have hsame := location_resolvedAll s.registry r.resolved a
    unfold responses at ih ⊢
    rw [searchLoop, datagrams]
    split_ifs with hend
    · simp [firstLocation, hsame]
    · cases hreceived : r.received with
      | datagram src bytes now =>
        dsimp only
        obtain ⟨hrenderers, hlocation⟩ := receive_spec ⟨r.resolved.foldl (fun registry info =>
          Mdns.resolved registry info.1 info.2) s.registry, s.renderers⟩ src bytes now a
        obtain ⟨ihrenderers, ihlocation⟩ := ih _
        rw [ihrenderers, ihlocation, hrenderers, hlocation, hsame, Option.or_assoc,
          Option.or_assoc]
        unfold firstLocation
        cases hresp : responseFrom a (src, bytes) with
        | none => simp [hresp]
        | some resp => cases hloc : resp.location <;> simp [hresp, hloc]
      | error e | timeout => simp [firstLocation, hsame]

/-- The first response carries the first location just when it carries one or none does. -/
theorem head_location_iff {first : SsdpResponse} {rest : List SsdpResponse} :
    first.location = firstLocation (first :: rest) ↔
      (first.location = none → ∀ r ∈ rest, r.location = none) := by
  unfold firstLocation
  cases hfirst : first.location with
  | some location => simp [hfirst]
  | none =>
    rw [List.findSome?_cons, hfirst, eq_comm, List.findSome?_eq_none_iff]
    simp

/-- Whatever is received, the search hands on for every responding address the first
location that it sent, which is the one on record if the address is new, just when no
address sends its first location after a response without one. -/
theorem location_handed_iff (registry : DeviceRegistry) (window : ℕ) (rounds : List Round) :
    let done := search registry window rounds
    (∀ addr, responses window rounds addr ≠ [] →
      done.renderers.lookup addr = some (firstLocation (responses window rounds addr)) ∧
      (addr ∉ registry.entries → some (fieldAt done.registry Entry.dlnaLocation addr) =
        done.renderers.lookup addr)) ↔
      ∀ addr first rest, responses window rounds addr = first :: rest →
        first.location = none → ∀ r ∈ rest, r.location = none := by
  intro done
  have hhanded : ∀ addr first rest, responses window rounds addr = first :: rest →
      done.renderers.lookup addr = some first.location := by
    intro addr first rest hresp
    have hlookup := (searchLoop_spec window rounds ⟨registry, ∅⟩ addr).1
    rw [hresp] at hlookup
    exact hlookup
  have hrecorded : ∀ addr, addr ∉ registry.entries →
      fieldAt done.registry Entry.dlnaLocation addr =
        firstLocation (responses window rounds addr) := by
    intro addr hnew
    have hlocation := (searchLoop_spec window rounds ⟨registry, ∅⟩ addr).2
    have hnone : fieldAt registry Entry.dlnaLocation addr = none := by
      rw [fieldAt, AList.lookup_eq_none.mpr hnew, Option.bind_none]
    rw [hnone, Option.none_or] at hlocation
    exact hlocation
  constructor
  · intro h addr first rest hresp
    have hfirst := (h addr (by rw [hresp]; exact List.cons_ne_nil _ _)).1
    rw [hhanded addr first rest hresp, hresp] at hfirst
    exact head_location_iff.mp (Option.some.inj hfirst)
  · intro h addr hne
    obtain ⟨first, rest, hresp⟩ := List.exists_cons_of_ne_nil hne
    have hfirst := head_location_iff.mpr (h addr first rest hresp)
    refine ⟨?_, fun hnew => ?_⟩
    · rw [hhanded addr first rest hresp, hresp, hfirst]
    · rw [hrecorded addr hnew, hhanded addr first rest hresp, hresp, hfirst]

/-- A television answers twice, at first without its location: the registry has it, the
search hands on nothing, and the television is not enriched. -/
theorem late_location_dropped :
    let tv : IpAddr := .v4 0xC0A80132
    let respond (text : String) (now : ℕ) : Round :=
      ⟨[], 0, .datagram tv (asBytes text.toList) now⟩
    let rounds := [respond "ST: urn:schemas-upnp-org:device:MediaRenderer:1\r\n" 1,
      respond "ST: upnp:MediaRenderer\r\nLOCATION: http://192.168.1.50:9197/d.xml\r\n" 2]
    let done := search (.new Discovery.defaultTtl) 10 rounds
    firstLocation (responses 10 rounds tv) = some "http://192.168.1.50:9197/d.xml".toList ∧
      fieldAt done.registry Entry.dlnaLocation tv =
        some "http://192.168.1.50:9197/d.xml".toList ∧
      done.renderers.lookup tv = some none ∧
      ∀ descriptions, enrichNames descriptions done.renderers = [] := by
  intro tv respond rounds done
  have hrun :
      firstLocation (responses 10 rounds tv) = some "http://192.168.1.50:9197/d.xml".toList ∧
      fieldAt done.registry Entry.dlnaLocation tv =
        some "http://192.168.1.50:9197/d.xml".toList ∧
      done.renderers.entries = [⟨tv, none⟩] := by decide +kernel
  obtain ⟨hfirst, hrecorded, hentries⟩ := hrun
  refine ⟨hfirst, hrecorded, AList.mem_lookup_iff.mpr ?_, fun descriptions => ?_⟩
  · rw [hentries]
    exact List.mem_singleton_self _
  · rw [enrichNames, hentries]
    rfl

end HorizonCast.Ssdp
