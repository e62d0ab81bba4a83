import HorizonCast.Proofs.Published
import HorizonCast.Proofs.Staleness

/-! Where the facts of a published device come from. A device is made of addresses that
answered, and nothing in it was said by anybody else. -/

namespace HorizonCast.DiscoveryService

open Collections Discovery History Relation Text UnionFind

variable {reader : Ssdp.Descriptions} {as : List Action}

/-! ### Answers -/

/-- The address answered as a MediaRenderer. -/
def Responded (as : List Action) (addr : IpAddr) (resp : SsdpResponse) : Prop :=
  ∃ bytes, .datagram addr bytes ∈ as ∧ Ssdp.rendererResponse bytes = some resp

/-- mDNS resolved the service at this address. -/
def Announced (as : List Action) (addr : IpAddr) (info : Mdns.ServiceInfo) : Prop :=
  ∃ now, .resolved info now ∈ as ∧ addr ∈ info.addresses

/-- The address answered under this identity. -/
def Claimed (as : List Action) (addr : IpAddr) (id : Str) : Prop :=
  (∃ info, Announced as addr info ∧ info.fullname = id) ∨
    ∃ resp, Responded as addr resp ∧ resp.usn = some id

/-- A description was fetched from where the address said, and its control URL is this. -/
def Described (reader : Ssdp.Descriptions) (as : List Action) (addr : IpAddr) (url : Str) : Prop :=
  ∃ resp location xml path, Responded as addr resp ∧ resp.location = some location ∧
    .described addr location (.ok xml) ∈ as ∧
    (parseDeviceDescription reader.xmlContent (reader.events xml)).avTransportControlUrl =
      some path ∧
    resolveUrl location path = some url

/-- The device is made of these addresses. Each of them answered, identities that they
claimed link them, and where to find the device's description and its control URL comes
from the answer of one of them. -/
structure FromAnswers (reader : Ssdp.Descriptions) (as : List Action) (g : List IpAddr)
    (d : Device) : Prop where
  primary : d.address ∈ g
  answered : ∀ a ∈ g, (∃ info, Announced as a info) ∨ ∃ resp, Responded as a resp
  linked : ∀ a ∈ g, ∀ b ∈ g, Joined (Claimed as) a b
  location : ∀ location, d.dlnaLocation = some location →
    ∃ a ∈ g, ∃ resp, Responded as a resp ∧ resp.location = some location
  controlUrl : ∀ url, d.dlnaControlUrl = some url → ∃ a ∈ g, Described reader as a url

theorem Responded.concat {addr : IpAddr} {resp : SsdpResponse} (h : Responded as addr resp)
    (a : Action) : Responded (as ++ [a]) addr resp := by
  obtain ⟨bytes, hmem, hresp⟩ := h
  exact ⟨bytes, List.mem_append_left _ hmem, hresp⟩

/-! ### Observations -/

/-- One of the actions recorded the observation. -/
def Recorded (reader : Ssdp.Descriptions) (as : List Action) (obs : Observation) : Prop :=
  ∃ a ∈ as, ∃ clock t, (obs, t) ∈ a.sightings reader clock

/-- What was recorded was announced, answered or read from a description. -/
theorem Recorded.cases {obs : Observation} (h : Recorded reader as obs) :
    (∃ info, Announced as obs.address info ∧ obs = announced info obs.address) ∨
      (∃ resp, Responded as obs.address resp ∧ obs = answered obs.address resp) ∨
      ∃ location xml, .described obs.address location (.ok xml) ∈ as ∧
        described reader obs.address location (.ok xml) = some obs := by
  obtain ⟨a, ha, clock, t, hsighted⟩ := h
  cases a with
  | resolved info now =>
    obtain ⟨addr, haddr, heq⟩ := List.mem_map.mp hsighted
    obtain ⟨rfl, -⟩ := Prod.mk.inj heq
    exact .inl ⟨info, ⟨now, ha, haddr⟩, rfl⟩
  | datagram src bytes =>
    unfold Action.sightings at hsighted
    dsimp only at hsighted
    split_ifs at hsighted with hrenderer
    · obtain ⟨rfl, -⟩ := Prod.mk.inj (List.mem_singleton.mp hsighted)
      exact .inr (.inl ⟨_, ⟨bytes, ha, Option.filter_some_pos hrenderer⟩, rfl⟩)
    · cases hsighted
  | described addr location fetched =>
    obtain ⟨obs', hobs, heq⟩ := List.mem_map.mp hsighted
    obtain ⟨rfl, -⟩ := Prod.mk.inj heq
    rw [Option.mem_toList] at hobs
    cases fetched with
    | error e => cases hobs
    | ok xml =>
      obtain ⟨-, heq⟩ := Option.ite_none_right_eq_some.mp hobs
      obtain rfl := Option.some.inj heq
      exact .inr (.inr ⟨location, xml, ha, hobs⟩)
  | _ => cases hsighted

/-- A description gives a name or a control URL, and nothing else. -/
theorem described_spec {addr : IpAddr} {location xml : Str} {obs : Observation}
    (h : described reader addr location (.ok xml) = some obs) :
    obs.stableId = none ∧ obs.dlnaLocation = none ∧
      obs.dlnaControlUrl =
        (parseDeviceDescription reader.xmlContent (reader.events xml)).avTransportControlUrl.bind
          (resolveUrl location) := by
  obtain ⟨-, heq⟩ := Option.ite_none_right_eq_some.mp h
  obtain rfl := Option.some.inj heq
  exact ⟨rfl, rfl, rfl⟩

theorem Recorded.claimed {obs : Observation} {id : Str} (h : Recorded reader as obs)
    (hid : nonEmpty obs.stableId = some id) : Claimed as obs.address id := by
  have hstable : obs.stableId = some id := (Option.filter_eq_some_iff.mp hid).1
  rcases h.cases with ⟨info, hinfo, heq⟩ | ⟨resp, hresp, heq⟩ | ⟨location, xml, -, hobs⟩
  · rw [heq] at hstable
    exact .inl ⟨info, hinfo, Option.some.inj hstable⟩
  · rw [heq] at hstable
    exact .inr ⟨resp, hresp, hstable⟩
  · rw [(described_spec hobs).1] at hstable
    cases hstable

theorem Recorded.location {obs : Observation} {location : Str} (h : Recorded reader as obs)
    (hlocation : nonEmpty obs.dlnaLocation = some location) :
    ∃ resp, Responded as obs.address resp ∧ resp.location = some location := by
  have hsome : obs.dlnaLocation = some location := (Option.filter_eq_some_iff.mp hlocation).1
  rcases h.cases with ⟨info, -, heq⟩ | ⟨resp, hresp, heq⟩ | ⟨at', xml, -, hobs⟩
  · rw [heq] at hsome
    cases hsome
  · rw [heq] at hsome
    exact ⟨resp, hresp, hsome⟩
  · rw [(described_spec hobs).2.1] at hsome
    cases hsome

/-! ### The run -/

/-- What the journal has was recorded. -/
theorem recorded_of_journal {x : Observation × ℕ} (hx : x ∈ (journal reader as).sightings) :
    Recorded reader as x.1 := by
  induction as using List.reverseRecOn with
  | nil => cases hx
  | append_singleton as a ih =>
    rw [journal_concat, sightings_record] at hx
    rcases List.mem_append.mp hx with hold | hnew
    · obtain ⟨b, hb, hsighted⟩ := ih hold
      exact ⟨b, List.mem_append_left _ hb, hsighted⟩
    · exact ⟨a, by simp, _, x.2, hnew⟩

/-- Descriptions are fetched only from where an answer said. -/
structure Traced (as : List Action) (s : Service) : Prop where
  locations : ∀ since browsing search, s.task = .scanning since browsing search →
    ∀ addr location, (addr, location) ∈ search.locations →
      ∃ resp, Responded as addr resp ∧ resp.location = some location
  asked : ∀ addr location fetched, .described addr location fetched ∈ as →
    ∃ resp, Responded as addr resp ∧ resp.location = some location

theorem traced_init : Traced [] {} := ⟨nofun, nofun⟩

theorem Traced.step {s s' : Service} {a : Action} (h : Traced as s)
    (hmove : Moves reader s a s') : Traced (as ++ [a]) s' := by
  have hkept : ∀ addr location,
      (∃ resp, Responded as addr resp ∧ resp.location = some location) →
      ∃ resp, Responded (as ++ [a]) addr resp ∧ resp.location = some location :=
    fun _ _ ⟨resp, hresp, hlocation⟩ => ⟨resp, hresp.concat a, hlocation⟩
  refine ⟨?_, fun addr location fetched hmem => ?_⟩
  · cases hmove with
    | scanned htask hscan =>
      obtain ⟨browsing', search', rfl, hlocations⟩ := hscan.next
      rintro _ _ _ ⟨⟩ addr location hl
      rcases hlocations addr location hl with hold | ⟨bytes, resp, rfl, hresp, hlocation⟩
      · exact hkept addr location (h.locations _ _ _ htask addr location hold)
      · exact ⟨resp, ⟨bytes, by simp, hresp⟩, hlocation⟩
    | began =>
      rintro _ _ _ ⟨⟩ addr location hl
      cases hl
    | ended | passEnded => nofun
    | ticked | subscribed | taken | stopped =>
      intro since browsing search htask addr location hl
      exact hkept addr location (h.locations since browsing search htask addr location hl)
  · rcases List.mem_append.mp hmem with hold | hnew
    · exact hkept addr location (h.asked addr location fetched hold)
    · obtain rfl := List.mem_singleton.mp hnew
      cases hmove with
      | scanned htask hscan =>
        exact hkept addr location
          (h.locations _ _ _ htask addr location (hscan.asked addr location fetched rfl))

theorem traced_of_run {s : Service} (h : run reader as = some s) : Traced as s :=
  Transition.run_invariant Traced traced_init
    (fun _ htraced hstep => htraced.step (moves_of_step hstep)) h

/-! ### The devices -/

theorem mem_of_seen {ttl : ℕ} {a : IpAddr} {calls : List Call} {o : Observation}
    (h : o ∈ seen ttl a calls) : o.address = a ∧ ∃ t, .observe o t ∈ calls := by
  obtain ⟨⟨o', t⟩, hsighted, rfl⟩ := List.mem_map.mp h
  obtain ⟨c, hc, hsighting⟩ := List.mem_filterMap.mp hsighted
  have hmem := List.mem_of_mem_drop hc
  cases c with
  | observe obs now =>
    obtain ⟨ha, heq⟩ := Option.ite_none_right_eq_some.mp hsighting
    cases heq
    exact ⟨ha, _, hmem⟩
  | expire => cases hsighting

/-- What the registry has seen of an address was recorded. -/
theorem recorded_of_seen {ttl : ℕ} {a : IpAddr} {o : Observation}
    (h : o ∈ seen ttl a ((journal reader as).passes.flatMap Pass.calls)) :
    o.address = a ∧ Recorded reader as o := by
  obtain ⟨ha, t, hmem⟩ := mem_of_seen h
  obtain ⟨p, hp, hcall⟩ := List.mem_flatMap.mp hmem
  rcases List.mem_append.mp hcall with hobserved | hend
  · obtain ⟨x, hx, heq⟩ := List.mem_map.mp hobserved
    cases heq
    exact ⟨ha, recorded_of_journal
      (List.mem_append_left _ (List.mem_flatMap.mpr ⟨p, hp, hx⟩))⟩
  · cases List.mem_singleton.mp hend

section Traced

variable {s : Service}

theorem Traced.answered (h : Traced as s) {obs : Observation}
    (hobs : Recorded reader as obs) :
    (∃ info, Announced as obs.address info) ∨ ∃ resp, Responded as obs.address resp := by
  rcases hobs.cases with ⟨info, hinfo, -⟩ | ⟨resp, hresp, -⟩ | ⟨location, xml, hasked, -⟩
  · exact .inl ⟨info, hinfo⟩
  · exact .inr ⟨resp, hresp⟩
  · obtain ⟨resp, hresp, -⟩ := h.asked _ _ _ hasked
    exact .inr ⟨resp, hresp⟩

theorem Traced.controlUrl (h : Traced as s) {obs : Observation} {url : Str}
    (hobs : Recorded reader as obs) (hurl : nonEmpty obs.dlnaControlUrl = some url) :
    Described reader as obs.address url := by
  have hsome : obs.dlnaControlUrl = some url := (Option.filter_eq_some_iff.mp hurl).1
  rcases hobs.cases with ⟨info, -, heq⟩ | ⟨resp, -, heq⟩ | ⟨location, xml, hasked, hobs⟩
  · rw [heq] at hsome
    cases hsome
  · rw [heq] at hsome
    cases hsome
  · obtain ⟨resp, hresp, hlocation⟩ := h.asked _ _ _ hasked
    rw [(described_spec hobs).2.2] at hsome
    obtain ⟨path, hpath, hresolved⟩ := Option.bind_eq_some_iff.mp hsome
    exact ⟨resp, location, xml, path, hresp, hlocation, hasked, hpath, hresolved⟩

/-- What is merged from a component comes from the answers of its addresses. -/
theorem Traced.fromAnswers (h : Traced as s) {registry : DeviceRegistry}
    (hregistry : registry =
      (DeviceRegistry.new defaultTtl).run ((journal reader as).passes.flatMap Pass.calls))
    {gs : List (List IpAddr)}
    (hpart : Partition (ReflTransGen (SharesIdentity registry)) registry.entries.keys gs)
    {g : List IpAddr} (hg : g ∈ gs) {d : Device} (hmerged : registry.mergeGroup g = some d) :
    FromAnswers reader as g d := by
  subst hregistry
  have hfrom := mergeGroup_merged hmerged
  refine ⟨hfrom.primary, fun a ha => ?_, fun a ha b hb => ?_, fun location hlocation => ?_,
    fun url hurl => ?_⟩
  · obtain ⟨⟨e, he, -⟩, -⟩ := seen_of_component hpart hg ha
    have htracked :
        tracked defaultTtl a ((journal reader as).passes.flatMap Pass.calls) = true := by
      rw [← entry_isSome, ← run_lookup, he]
      rfl
    obtain ⟨o, ho⟩ := List.exists_mem_of_ne_nil _ (seen_ne_nil htracked)
    obtain ⟨rfl, hobs⟩ := recorded_of_seen ho
    exact h.answered hobs
  · refine ((seen_of_component hpart hg ha).2 b hb).mono fun c id hclaimed => ?_
    obtain ⟨o, ho, hid⟩ := hclaimed
    obtain ⟨rfl, hobs⟩ := recorded_of_seen ho
    exact hobs.claimed hid
  · obtain ⟨a, ha, e, he, heq⟩ := hfrom.location location hlocation
    obtain ⟨⟨e', he', hbacked⟩, -⟩ := seen_of_component hpart hg ha
    cases he.symm.trans he'
    obtain ⟨o, ho, hsaid⟩ := hbacked.location location heq
    obtain ⟨rfl, hobs⟩ := recorded_of_seen ho
    exact ⟨_, ha, hobs.location hsaid⟩
  · obtain ⟨a, ha, e, he, heq⟩ := hfrom.controlUrl url hurl
    obtain ⟨⟨e', he', hbacked⟩, -⟩ := seen_of_component hpart hg ha
    cases he.symm.trans he'
    obtain ⟨o, ho, hsaid⟩ := hbacked.controlUrl url heq
    obtain ⟨rfl, hobs⟩ := recorded_of_seen ho
    exact ⟨_, ha, h.controlUrl hobs hsaid⟩

end Traced

/-- The list has one device for each component of the tracked addresses, merged from the
addresses of that component, which answered. -/
def EachFromAnswers (reader : Ssdp.Descriptions) (as : List Action) (registry : DeviceRegistry)
    (ds : List Device) : Prop :=
  ∃ gs, Partition (ReflTransGen (SharesIdentity registry)) registry.entries.keys gs ∧
    List.Forall₂ (fun g d => registry.mergeGroup g = some d ∧ FromAnswers reader as g d) gs ds

/-- At the end of a pass the list comes from the answers. -/
theorem eachFromAnswers_of_run {s : Service} (h : run reader as = some s)
    (htask : s.task = .checking) : EachFromAnswers reader as s.registry s.last := by
  have hrefines := refines_of_run h
  have hregistry := hrefines.registry_checking htask
  obtain ⟨gs, hpart, hall⟩ := hrefines.components
  rw [← hregistry] at hpart hall
  refine ⟨gs, hpart, List.forall₂_iff_zip.mpr ⟨hall.length_eq, fun {g d} hmem => ?_⟩⟩
  have hmerged := (List.forall₂_iff_zip.mp hall).2 hmem
  exact ⟨hmerged, (traced_of_run h).fromAnswers hregistry hpart (List.of_mem_zip hmem).1 hmerged⟩

/-- A step publishes the list at the end of a pass, or nothing. -/
theorem Moves.published {s s' : Service} {a : Action} (h : Moves reader s a s')
    {ds : List Device} (hds : ds ∈ s'.devices.sent) :
    ds ∈ s.devices.sent ∨ ds = s'.last ∧ s'.task = .checking := by
  cases h with
  | scanned htask hscan =>
    obtain ⟨browsing', search', rfl, -⟩ := hscan.next
    exact .inl hds
  | passEnded =>
    dsimp only at hds ⊢
    split_ifs at hds
    · exact .inl hds
    · exact (List.mem_append.mp hds).imp_right fun hnew => ⟨List.mem_singleton.mp hnew, rfl⟩
  | ticked | ended | began | subscribed | taken | stopped => exact .inl hds

/-- Every list that is ever published is, at the end of some pass, one device for each
component of the addresses tracked then, and each device is made of the addresses of its
component, which had answered by then: on mDNS, or themselves as a MediaRenderer.
Identities that they claimed link them, the location of the device is one that an address
of its own sent, and its control URL was read from a description at such a location. -/
theorem published_from_answers {s : Service} (h : run reader as = some s) :
    ∀ ds ∈ s.devices.sent, ∃ before t, before <+: as ∧ run reader before = some t ∧
      t.last = ds ∧ EachFromAnswers reader before t.registry ds := by
  refine Transition.run_invariant (fun as s => ∀ ds ∈ s.devices.sent, ∃ before t,
    before <+: as ∧ run reader before = some t ∧ t.last = ds ∧
      EachFromAnswers reader before t.registry ds)
    (fun _ hds => absurd hds List.not_mem_nil) ?_ h
  intro as s a s' hs hsent hstep ds hds
  rcases (moves_of_step hstep).published hds with hold | ⟨rfl, htask⟩
  · obtain ⟨before, t, hbefore, hrest⟩ := hsent ds hold
    exact ⟨before, t, hbefore.trans (List.prefix_append _ _), hrest⟩
  · have hs' : run reader (as ++ [a]) = some s' := by
      unfold run at hs ⊢
      rw [Transition.run_concat, hs]
      exact hstep
    exact ⟨as ++ [a], s', List.prefix_rfl, hs', rfl, eachFromAnswers_of_run hs' htask⟩

/-- The television is one device, of what its two addresses answered. -/
theorem published_from_answers_television : ∃ s ds, run sampleReader sampleRun = some s ∧
    s.devices.sent = [ds] ∧ ∃ before t, before <+: sampleRun ∧
      run sampleReader before = some t ∧ EachFromAnswers sampleReader before t.registry ds ∧
      ds.length = 1 := by
  have hany : (run sampleReader sampleRun).map (fun s => s.devices.sent.map List.length) =
      some [1] := by
    decide +kernel
  obtain ⟨s, hs, hsent⟩ := Option.map_eq_some_iff.mp hany
  obtain ⟨ds, hds, hone⟩ := List.map_eq_singleton_iff.mp hsent
  obtain ⟨before, t, hbefore, ht, -, hfrom⟩ :=
    published_from_answers hs ds (hds ▸ List.mem_singleton_self ds)
  exact ⟨s, ds, hs, hds, before, t, hbefore, ht, hfrom, hone⟩

end HorizonCast.DiscoveryService
