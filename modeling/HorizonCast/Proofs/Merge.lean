import HorizonCast.Lib.Naming
import HorizonCast.Proofs.Coalesce

/-! What a device of the list is made of: the addresses of one component, the best
of them, the name of the component, and the protocols and URLs of its entries. -/

namespace HorizonCast

open Collections Text UnionFind Relation

/-- The entry of `a` has the identity. -/
def Carries (reg : DeviceRegistry) (a : IpAddr) (id : Str) : Prop :=
  ∃ e, reg.entries.lookup a = some e ∧ id ∈ e.identities

/-- The entry of `a` has the protocol. -/
def Speaks (reg : DeviceRegistry) (a : IpAddr) (p : Protocol) : Prop :=
  ∃ e, reg.entries.lookup a = some e ∧ p ∈ e.protocols

theorem sharesIdentity_eq (reg : DeviceRegistry) : SharesIdentity reg = Shares (Carries reg) := by
  funext a b
  refine propext ⟨?_, ?_⟩
  · rintro ⟨ea, eb, ha, hb, id, hia, hib⟩
    exact ⟨id, ⟨ea, ha, hia⟩, ⟨eb, hb, hib⟩⟩
  · rintro ⟨id, ⟨ea, ha, hia⟩, ⟨eb, hb, hib⟩⟩
    exact ⟨ea, eb, ha, hb, id, hia, hib⟩

theorem Carries.tracked {reg : DeviceRegistry} {a : IpAddr} {id : Str} (h : Carries reg a id) :
    a ∈ reg.entries := by
  obtain ⟨e, he, -⟩ := h
  exact AList.lookup_isSome.mp (by rw [he]; rfl)

theorem Speaks.tracked {reg : DeviceRegistry} {a : IpAddr} {p : Protocol} (h : Speaks reg a p) :
    a ∈ reg.entries := by
  obtain ⟨e, he, -⟩ := h
  exact AList.lookup_isSome.mp (by rw [he]; rfl)

/-! ### The merge of a group -/

/-- The device that the addresses in `g` make. -/
structure Merged (reg : DeviceRegistry) (g : List IpAddr) (d : Device) : Prop where
  primary : d.address ∈ g
  best : ∀ a ∈ g, toLex (addressRank d.address, d.address) ≤ toLex (addressRank a, a)
  least : ∀ a ∈ g, ∀ id, Carries reg a id →
    IsLeast {id | ∃ a ∈ g, Carries reg a id} d.id
  text : (∀ a ∈ g, ∀ id, ¬ Carries reg a id) → d.id = d.address.toText
  speaks : ∀ p, p ∈ d.protocols ↔ ∃ a ∈ g, Speaks reg a p
  ordered : d.protocols.Pairwise fun p q => preferenceRank p < preferenceRank q
  controlUrl : ∀ url, d.dlnaControlUrl = some url →
    ∃ a ∈ g, ∃ e, reg.entries.lookup a = some e ∧ e.dlnaControlUrl = some url
  location : ∀ loc, d.dlnaLocation = some loc →
    ∃ a ∈ g, ∃ e, reg.entries.lookup a = some e ∧ e.dlnaLocation = some loc

theorem preferenceRank_injective : Function.Injective preferenceRank := by
  intro p q h
  cases p <;> cases q <;> first | rfl | cases h

instance : Std.Total fun p q => preferenceRank p ≤ preferenceRank q :=
  ⟨fun p q => Nat.le_total (preferenceRank p) (preferenceRank q)⟩

instance : IsTrans Protocol fun p q => preferenceRank p ≤ preferenceRank q :=
  ⟨fun _ _ _ => Nat.le_trans⟩

/-- What the entries of a group give is what its addresses give. -/
theorem mem_groupEntries {β : Type} {reg : DeviceRegistry} {g : List IpAddr} {es : List Entry}
    (hes : (g.insertionSort (· ≤ ·)).mapM reg.entries.lookup = some es) (f : Entry → List β)
    {x : β} : x ∈ es.flatMap f ↔ ∃ a ∈ g, ∃ e, reg.entries.lookup a = some e ∧ x ∈ f e := by
  simp only [List.mem_flatMap, mem_of_mapM hes, List.mem_insertionSort]
  constructor
  · rintro ⟨e, ⟨a, ha, hlookup⟩, hx⟩
    exact ⟨a, ha, e, hlookup, hx⟩
  · rintro ⟨a, ha, e, hlookup, hx⟩
    exact ⟨e, ⟨a, ha, hlookup⟩, hx⟩

/-- A field that the entries of a group fill is filled by one of them. -/
theorem findSome?_groupEntries {β : Type} {reg : DeviceRegistry} {g : List IpAddr}
    {es : List Entry} (hes : (g.insertionSort (· ≤ ·)).mapM reg.entries.lookup = some es)
    {f : Entry → Option β} {x : β} (hx : es.findSome? f = some x) :
    ∃ a ∈ g, ∃ e, reg.entries.lookup a = some e ∧ f e = some x := by
  obtain ⟨e, hmem, he⟩ := List.exists_of_findSome?_eq_some hx
  obtain ⟨a, ha, hlookup⟩ := (mem_of_mapM hes).mp hmem
  exact ⟨a, List.mem_insertionSort _ |>.mp ha, e, hlookup, he⟩

/-- The protocols of a device are listed once each, the preferred ones first. -/
theorem sortedProtocols (ps : List Protocol) :
    let sorted := (ps.foldl (fun ps p => if p ∈ ps then ps else ps ++ [p]) []).insertionSort
      fun p q => preferenceRank p ≤ preferenceRank q
    (∀ p, p ∈ sorted ↔ p ∈ ps) ∧
      sorted.Pairwise fun p q => preferenceRank p < preferenceRank q := by
  intro sorted
  have hsorted : sorted = ps.eraseDups.insertionSort fun p q =>
      preferenceRank p ≤ preferenceRank q := by
    rw [← foldl_push_eq_eraseDups]
  rw [hsorted]
  constructor
  · intro p
    rw [List.mem_insertionSort, List.mem_eraseDups]
  · have hnodup := (List.perm_insertionSort (fun p q => preferenceRank p ≤ preferenceRank q)
      ps.eraseDups).nodup_iff.mpr (nodup_eraseDups _)
    refine (List.pairwise_insertionSort _ _).and hnodup |>.imp fun {p q} hpq => ?_
    exact lt_of_le_of_ne hpq.1 fun heq => hpq.2 (preferenceRank_injective heq)

theorem mergeGroup_merged {reg : DeviceRegistry} {g : List IpAddr} {d : Device}
    (h : reg.mergeGroup g = some d) : Merged reg g d := by
  unfold DeviceRegistry.mergeGroup at h
  simp only [Option.bind_eq_bind, Option.bind_eq_some_iff] at h
  obtain ⟨primary, hprimary, e, he, es, hes, heq⟩ := h
  obtain rfl := Option.some.inj heq
  have hid : ∀ {id}, id ∈ es.flatMap (fun e => e.identities.toList) ↔
      ∃ a ∈ g, Carries reg a id := mem_groupEntries hes _
  have hprotocols := sortedProtocols (es.flatMap Entry.protocols)
  refine
    { primary := List.argmin_mem hprimary
      best := fun a ha =>
        List.le_of_mem_argmin (f := fun a => toLex (addressRank a, a)) ha hprimary
      least := fun a ha id hc => ?_
      text := fun hnone => ?_
      speaks := fun p => (hprotocols.1 p).trans (mem_groupEntries hes _)
      ordered := hprotocols.2
      controlUrl := fun url hurl => findSome?_groupEntries hes hurl
      location := fun loc hloc => findSome?_groupEntries hes hloc }
  · cases hmin : (es.flatMap fun e => e.identities.toList).min? with
    | none => exact absurd (hid.mpr ⟨a, ha, hc⟩) (List.min?_eq_none_iff.mp hmin ▸ List.not_mem_nil)
    | some m =>
      obtain ⟨hmem, hle⟩ := List.min?_eq_some_iff.mp hmin
      exact ⟨hid.mp hmem, fun id hid' => hle id (hid.mpr hid')⟩
  · have hnil : es.flatMap (fun e => e.identities.toList) = [] :=
      List.eq_nil_iff_forall_not_mem.mpr fun id hmem => by
        obtain ⟨a, ha, hc⟩ := hid.mp hmem
        exact hnone a ha id hc
    dsimp only
    rw [hnil]
    rfl

/-! ### One more observation -/

theorem mem_observe {reg : DeviceRegistry} {obs : Observation} {now : ℕ} {a : IpAddr} :
    a ∈ (reg.observe obs now).entries ↔ a = obs.address ∨ a ∈ reg.entries :=
  AList.mem_insert _

theorem mem_record_identities {e : Entry} {obs : Observation} {now : ℕ} {id : Str} :
    id ∈ (e.record obs now).identities ↔ id ∈ e.identities ∨ nonEmpty obs.stableId = some id := by
  unfold Entry.record
  cases h : nonEmpty obs.stableId with
  | none => simp
  | some k => simp [BTreeSet.mem_insert, eq_comm, or_comm]

theorem mem_record_protocols {e : Entry} {obs : Observation} {now : ℕ} {p : Protocol} :
    p ∈ (e.record obs now).protocols ↔ p ∈ e.protocols ∨ obs.protocol = p := by
  unfold Entry.record
  dsimp only
  split_ifs with h
  · exact ⟨.inl, fun hp => hp.elim id fun heq => heq ▸ h⟩
  · simp [eq_comm]

theorem carries_observe {reg : DeviceRegistry} {obs : Observation} {now : ℕ} {a : IpAddr}
    {id : Str} :
    Carries (reg.observe obs now) a id ↔
      Carries reg a id ∨ a = obs.address ∧ nonEmpty obs.stableId = some id := by
  unfold Carries DeviceRegistry.observe
  dsimp only
  by_cases ha : a = obs.address
  · subst ha
    have hvacant : id ∉ (Entry.vacant now).identities := List.not_mem_nil
    simp only [AList.lookup_insert, Option.some.injEq, exists_eq_left', mem_record_identities,
      true_and]
    cases reg.entries.lookup obs.address <;> simp [hvacant]
  · simp [AList.lookup_insert_ne ha, ha]

theorem carries_observe_none (reg : DeviceRegistry) {obs : Observation} (now : ℕ)
    (h : nonEmpty obs.stableId = none) : Carries (reg.observe obs now) = Carries reg := by
  funext a id
  simp [carries_observe, h]

theorem carries_observe_some (reg : DeviceRegistry) {obs : Observation} {id : Str} (now : ℕ)
    (h : nonEmpty obs.stableId = some id) :
    Carries (reg.observe obs now) = addIncidence (Carries reg) obs.address id := by
  funext a k
  simp [carries_observe, h, addIncidence, eq_comm]

theorem speaks_observe {reg : DeviceRegistry} {obs : Observation} {now : ℕ} {a : IpAddr}
    {p : Protocol} :
    Speaks (reg.observe obs now) a p ↔ Speaks reg a p ∨ a = obs.address ∧ obs.protocol = p := by
  unfold Speaks DeviceRegistry.observe
  dsimp only
  by_cases ha : a = obs.address
  · subst ha
    have hvacant : p ∉ (Entry.vacant now).protocols := List.not_mem_nil
    simp only [AList.lookup_insert, Option.some.injEq, exists_eq_left', mem_record_protocols,
      true_and]
    cases reg.entries.lookup obs.address <;> simp [hvacant]
  · simp [AList.lookup_insert_ne ha, ha]

/-! ### The list of devices -/

theorem tracked_of_joined {reg : DeviceRegistry} {a b : IpAddr} (ha : a ∈ reg.entries)
    (h : Joined (Carries reg) a b) : b ∈ reg.entries := by
  induction h with
  | refl => exact ha
  | tail _ hlast _ =>
    obtain ⟨id, -, hb⟩ := hlast
    exact hb.tracked

/-- The devices `ds` stand for the components of the tracked addresses, each under
its name. -/
structure Named (reg : DeviceRegistry) (ds : List Device) : Prop where
  tracked : ∀ d ∈ ds, d.address ∈ reg.entries
  name : ∀ d ∈ ds, IsName (Carries reg) IpAddr.toText d.address d.id
  covers : ∀ a ∈ reg.entries, ∃ d ∈ ds, Joined (Carries reg) a d.address
  apart : ds.Pairwise fun d d' => ¬ Joined (Carries reg) d.address d'.address
  best : ∀ d ∈ ds, ∀ a, Joined (Carries reg) d.address a →
    toLex (addressRank d.address, d.address) ≤ toLex (addressRank a, a)
  speaks : ∀ d ∈ ds, ∀ p, p ∈ d.protocols ↔
    ∃ a, Joined (Carries reg) d.address a ∧ Speaks reg a p
  ordered : ∀ d ∈ ds, d.protocols.Pairwise fun p q => preferenceRank p < preferenceRank q
  controlUrl : ∀ d ∈ ds, ∀ url, d.dlnaControlUrl = some url →
    ∃ a e, Joined (Carries reg) d.address a ∧ reg.entries.lookup a = some e ∧
      e.dlnaControlUrl = some url
  location : ∀ d ∈ ds, ∀ loc, d.dlnaLocation = some loc →
    ∃ a e, Joined (Carries reg) d.address a ∧ reg.entries.lookup a = some e ∧
      e.dlnaLocation = some loc

/-- The addresses of a merged group are those joined to the primary one. -/
theorem mem_merged_group {reg : DeviceRegistry} {gs : List (List IpAddr)}
    (hpart : Partition (Joined (Carries reg)) reg.entries.keys gs) {g : List IpAddr} (hg : g ∈ gs)
    {d : Device} (hd : Merged reg g d) (a : IpAddr) :
    a ∈ g ↔ Joined (Carries reg) d.address a := by
  constructor
  · intro ha
    exact (hpart.group g hg d.address hd.primary a (hpart.inside g hg a ha)).mp ha
  · intro h
    have htracked := tracked_of_joined (AList.mem_keys.mpr (hpart.inside g hg _ hd.primary)) h
    exact (hpart.group g hg d.address hd.primary a (AList.mem_keys.mp htracked)).mpr h

theorem merged_name {reg : DeviceRegistry} {g : List IpAddr} {d : Device} (hd : Merged reg g d)
    (hmem : ∀ a, a ∈ g ↔ Joined (Carries reg) d.address a) :
    IsName (Carries reg) IpAddr.toText d.address d.id := by
  have hkeys : keysAt (Carries reg) d.address = {id | ∃ a ∈ g, Carries reg a id} := by
    ext id
    simp only [keysAt, Set.mem_ofPred_eq, hmem]
  by_cases hnone : ∀ a ∈ g, ∀ id, ¬ Carries reg a id
  · refine .inr ⟨?_, hd.text hnone⟩
    rw [hkeys]
    exact Set.eq_empty_of_forall_notMem fun id ⟨a, ha, hid⟩ => hnone a ha id hid
  · push Not at hnone
    obtain ⟨a, ha, id, hid⟩ := hnone
    exact .inl (hkeys ▸ hd.least a ha id hid)

/-- The registry always has a device list, and it is one of the components. -/
theorem devices_named (reg : DeviceRegistry) (keys : IterOrder IpAddr)
    (order : IterOrder (List IpAddr)) :
    ∃ ds, reg.devices keys order = some ds ∧ Named reg ds := by
  obtain ⟨ds, hds, gs, hpart, hall⟩ := devices_merge reg keys order
  rw [sharesIdentity_eq] at hpart
  have hmerged := hall.imp fun _ _ h => mergeGroup_merged h
  have hgroup : ∀ d ∈ ds, ∃ g, g ∈ gs ∧ Merged reg g d ∧
      ∀ a, a ∈ g ↔ Joined (Carries reg) d.address a := by
    intro d hd
    obtain ⟨g, hg, hm⟩ := exists_left_of_forall₂ hmerged hd
    exact ⟨g, hg, hm, mem_merged_group hpart hg hm⟩
  refine ⟨ds, hds, ?_⟩
  refine
    { tracked := fun d hd => ?_
      name := fun d hd => ?_
      covers := fun a ha => ?_
      apart := ?_
      best := fun d hd a ha => ?_
      speaks := fun d hd p => ?_
      ordered := fun d hd => ?_
      controlUrl := fun d hd url hurl => ?_
      location := fun d hd loc hloc => ?_ }
  · obtain ⟨g, hg, hm, -⟩ := hgroup d hd
    exact AList.mem_keys.mpr (hpart.inside g hg _ hm.primary)
  · obtain ⟨g, hg, hm, hmem⟩ := hgroup d hd
    exact merged_name hm hmem
  · obtain ⟨g, hg, hag⟩ := hpart.covers a (AList.mem_keys.mp ha)
    obtain ⟨d, hd, hm⟩ := exists_right_of_forall₂ hmerged hg
    exact ⟨d, hd, ((mem_merged_group hpart hg hm a).mp hag).symm⟩
  · refine pairwise_forall₂ hmerged hpart.disjoint fun g hg g' hg' d d' hm hm' hdisj hj => ?_
    exact hdisj ((mem_merged_group hpart hg hm _).mpr hj) hm'.primary
  · obtain ⟨g, hg, hm, hmem⟩ := hgroup d hd
    exact hm.best a ((hmem a).mpr ha)
  · obtain ⟨g, hg, hm, hmem⟩ := hgroup d hd
    simp only [hm.speaks p, hmem]
  · obtain ⟨g, hg, hm, -⟩ := hgroup d hd
    exact hm.ordered
  · obtain ⟨g, hg, hm, hmem⟩ := hgroup d hd
    obtain ⟨a, ha, e, he, heq⟩ := hm.controlUrl url hurl
    exact ⟨a, e, (hmem a).mp ha, he, heq⟩
  · obtain ⟨g, hg, hm, hmem⟩ := hgroup d hd
    obtain ⟨a, ha, e, he, heq⟩ := hm.location loc hloc
    exact ⟨a, e, (hmem a).mp ha, he, heq⟩

/-- Two devices whose addresses are joined are one. -/
theorem Named.eq_of_joined {reg : DeviceRegistry} {ds : List Device} (h : Named reg ds)
    {d d' : Device} (hd : d ∈ ds) (hd' : d' ∈ ds)
    (hjoined : Joined (Carries reg) d.address d'.address) : d = d' := by
  by_contra hne
  have hsymm : Std.Symm fun d d' : Device => ¬ Joined (Carries reg) d.address d'.address :=
    ⟨fun _ _ hnot hjoined => hnot hjoined.symm⟩
  exact h.apart.forall hd hd' hne hjoined

/-- Coalescing computes exactly the connected components of shared identities, whatever the
addresses, their identities and the orders of the hash maps: each device is the merge of a
component, and each tracked address leads to exactly one device. -/
theorem devices_components (reg : DeviceRegistry) (keys : IterOrder IpAddr)
    (order : IterOrder (List IpAddr)) :
    ∃ ds, reg.devices keys order = some ds ∧ OneEachComponent reg ds ∧
      (ds.Pairwise fun d d' => ¬ ReflTransGen (SharesIdentity reg) d.address d'.address) ∧
      ∀ a ∈ reg.entries, ∃! d, d ∈ ds ∧ ReflTransGen (SharesIdentity reg) a d.address := by
  obtain ⟨ds, hds, hone⟩ := devices_merge reg keys order
  obtain ⟨ds', hds', hnamed⟩ := devices_named reg keys order
  obtain rfl := Option.some.inj (hds.symm.trans hds')
  rw [sharesIdentity_eq]
  refine ⟨ds, hds, hone, hnamed.apart, fun a ha => ?_⟩
  obtain ⟨d, hd, hjoined⟩ := hnamed.covers a ha
  refine ⟨d, ⟨hd, hjoined⟩, ?_⟩
  rintro d' ⟨hd', hjoined'⟩
  exact hnamed.eq_of_joined hd' hd ((UnionFind.Joined.symm hjoined').trans hjoined)

end HorizonCast
