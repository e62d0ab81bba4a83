import HorizonCast.Proofs.History
import HorizonCast.Proofs.Merge

/-! Every field of a device, from the entries of its component, and the order of the
device list. Both are determined by the entries: in what order the addresses and the
groups came out of the hash maps makes no difference. -/

namespace HorizonCast

open Collections Text UnionFind

/-! ### A field of the entries -/

/-- The value that a field has in the entry of `a`, if the entry has one. -/
def fieldAt {β : Type} (reg : DeviceRegistry) (field : Entry → Option β) (a : IpAddr) : Option β :=
  (reg.entries.lookup a).bind field

/-- The name of a device of which no sighting had a name. -/
def unknownName (primary : IpAddr) : Str := "Unknown device (".toList ++ primary.toText ++ [')']

/-- The device that the addresses in `g` make, field by field. -/
structure MergedFrom (reg : DeviceRegistry) (g : List IpAddr) (d : Device) : Prop
    extends Merged reg g d where
  port : (reg.entries.lookup d.address).map Entry.port = some d.port
  name : ∃ name, FirstOf (fieldAt reg fun e => nonEmpty e.name) g name ∧
    d.name = name.getD (unknownName d.address)
  firstControlUrl : FirstOf (fieldAt reg Entry.dlnaControlUrl) g d.dlnaControlUrl
  firstLocation : FirstOf (fieldAt reg Entry.dlnaLocation) g d.dlnaLocation

/-- Sorting the group does not change which entry is first. -/
theorem firstOf_sorted {β : Type} {reg : DeviceRegistry} {g : List IpAddr} {es : List Entry}
    (field : Entry → Option β) (hes : (g.insertionSort (· ≤ ·)).mapM reg.entries.lookup = some es) :
    FirstOf (fieldAt reg field) g (es.findSome? field) := by
  rw [findSome?_mapM field hes]
  have hfirst := firstOf_findSome? (fieldAt reg field) (List.pairwise_insertionSort (· ≤ ·) g)
  revert hfirst
  unfold FirstOf
  simp only [List.mem_insertionSort]
  exact id

theorem mergeGroup_mergedFrom {reg : DeviceRegistry} {g : List IpAddr} {d : Device}
    (h : reg.mergeGroup g = some d) : MergedFrom reg g d := by
  have hmerged := mergeGroup_merged h
  unfold DeviceRegistry.mergeGroup at h
  simp only [Option.bind_eq_bind, Option.bind_eq_some_iff] at h
  obtain ⟨primary, -, e, he, es, hes, heq⟩ := h
  cases heq
  exact
    { hmerged with
      port := by rw [he]; rfl
      name := ⟨_, firstOf_sorted _ hes, rfl⟩
      firstControlUrl := firstOf_sorted _ hes
      firstLocation := firstOf_sorted _ hes }

instance : Std.Irrefl fun p q => preferenceRank p < preferenceRank q :=
  ⟨fun p => Nat.lt_irrefl (preferenceRank p)⟩

instance : Std.Antisymm fun p q => preferenceRank p < preferenceRank q :=
  ⟨fun _ _ h h' => absurd h (Nat.lt_asymm h')⟩

/-- The members of a group determine its device. -/
theorem MergedFrom.unique {reg : DeviceRegistry} {g g' : List IpAddr} {d d' : Device}
    (h : MergedFrom reg g d) (h' : MergedFrom reg g' d') (hmem : ∀ a, a ∈ g ↔ a ∈ g') :
    d = d' := by
  have haddress : d.address = d'.address := by
    have hle := le_antisymm (h.best _ ((hmem _).mpr h'.primary)) (h'.best _ ((hmem _).mp h.primary))
    exact congrArg (fun k => (ofLex k).2) hle
  have hid : d.id = d'.id := by
    by_cases hnone : ∀ a ∈ g, ∀ id, ¬ Carries reg a id
    · rw [h.text hnone, h'.text fun a ha => hnone a ((hmem a).mpr ha), haddress]
    · push Not at hnone
      obtain ⟨a, ha, id, hid⟩ := hnone
      have hleast := h'.least a ((hmem a).mp ha) id hid
      simp only [← hmem] at hleast
      exact (h.least a ha id hid).unique hleast
  have hprotocols : d.protocols = d'.protocols :=
    h.ordered.eq_of_mem_iff h'.ordered fun p => by
      rw [h.speaks, h'.speaks]
      simp only [hmem]
  have hname : d.name = d'.name := by
    obtain ⟨name, hfirst, heq⟩ := h.name
    obtain ⟨name', hfirst', heq'⟩ := h'.name
    rw [heq, heq', hfirst.unique hfirst' hmem, haddress]
  have hport : d.port = d'.port :=
    Option.some.inj (h.port.symm.trans (haddress ▸ h'.port))
  have hcontrol := h.firstControlUrl.unique h'.firstControlUrl hmem
  have hlocation := h.firstLocation.unique h'.firstLocation hmem
  cases d
  cases d'
  simp_all

/-! ### The best address -/

/-- An IPv4 address other than a loopback one. -/
def IpAddr.IsPlainV4 (a : IpAddr) : Prop := (∃ bits, a = .v4 bits) ∧ a.isLoopback = false

theorem isPlainV4_iff {a : IpAddr} : a.IsPlainV4 ↔ addressRank a = 0 := by
  unfold IpAddr.IsPlainV4 addressRank
  cases a with
  | v4 bits => cases (IpAddr.v4 bits).isLoopback <;> simp
  | v6 bits =>
    refine iff_of_false (by simp) ?_
    dsimp only
    split_ifs <;> simp

theorem Merged.plainV4 {reg : DeviceRegistry} {g : List IpAddr} {d : Device} (h : Merged reg g d)
    {a : IpAddr} (ha : a ∈ g) (hplain : a.IsPlainV4) : d.address.IsPlainV4 := by
  have hle := (Prod.Lex.le_iff.mp (h.best a ha))
  rw [isPlainV4_iff] at hplain ⊢
  rcases hle with hlt | ⟨heq, -⟩
  · exact absurd (hplain ▸ hlt) (Nat.not_lt_zero _)
  · exact heq.trans hplain

/-! ### The device list -/

/-- The component of the device's address makes the device. -/
def Whole (reg : DeviceRegistry) (g : List IpAddr) (d : Device) : Prop :=
  MergedFrom reg g d ∧ ∀ a, a ∈ g ↔ Joined (Carries reg) d.address a

theorem Whole.unique {reg : DeviceRegistry} {g g' : List IpAddr} {d d' : Device}
    (h : Whole reg g d) (h' : Whole reg g' d')
    (hj : Joined (Carries reg) d.address d'.address) : d = d' := by
  refine h.1.unique h'.1 fun a => ?_
  rw [h.2, h'.2]
  exact ⟨fun ha => hj.symm.trans ha, fun ha => hj.trans ha⟩

theorem Whole.mergeGroup {reg : DeviceRegistry} {g g' : List IpAddr} {d : Device}
    (h : Whole reg g d) (htracked : d.address ∈ reg.entries) (hmem : ∀ a, a ∈ g' ↔ a ∈ g) :
    reg.mergeGroup g' = some d := by
  have hne : g' ≠ [] := List.ne_nil_of_mem ((hmem _).mpr h.1.primary)
  obtain ⟨d', hd'⟩ := mergeGroup_some hne fun a ha =>
    AList.mem_keys.mp (tracked_of_joined htracked ((h.2 a).mp ((hmem a).mp ha)))
  rw [hd', (mergeGroup_mergedFrom hd').unique h.1 hmem]

instance : Std.Total fun d d' => DeviceRegistry.sortKey d ≤ DeviceRegistry.sortKey d' :=
  ⟨fun d d' => le_total (DeviceRegistry.sortKey d) (DeviceRegistry.sortKey d')⟩

instance : IsTrans Device fun d d' => DeviceRegistry.sortKey d ≤ DeviceRegistry.sortKey d' :=
  ⟨fun _ _ _ => le_trans⟩

/-- The devices are the components, in the order of their keys. -/
theorem devices_whole (reg : DeviceRegistry) (keys : IterOrder IpAddr)
    (order : IterOrder (List IpAddr)) :
    ∃ ds, reg.devices keys order = some ds ∧ Named reg ds ∧
      (ds.Pairwise fun d d' => DeviceRegistry.sortKey d ≤ DeviceRegistry.sortKey d') ∧
      ∀ d ∈ ds, ∃ g, Whole reg g d := by
  obtain ⟨ds, hds, hnamed⟩ := devices_named reg keys order
  obtain ⟨ds', hds', gs, hpart, hall⟩ := devices_merge reg keys order
  cases hds.symm.trans hds'
  rw [sharesIdentity_eq] at hpart
  refine ⟨ds, hds, hnamed, ?_, fun d hd => ?_⟩
  · unfold DeviceRegistry.devices at hds
    simp only [Option.bind_eq_bind, Option.bind_eq_some_iff] at hds
    obtain ⟨_, -, unsorted, -, heq⟩ := hds
    cases heq
    exact List.pairwise_insertionSort _ unsorted
  · obtain ⟨g, hg, hm⟩ := exists_left_of_forall₂ hall hd
    exact ⟨g, mergeGroup_mergedFrom hm, mem_merged_group hpart hg (mergeGroup_merged hm)⟩

/-- No two devices tie. -/
theorem sortKey_strict {reg : DeviceRegistry} {ds : List Device} (hnamed : Named reg ds)
    (hsorted : ds.Pairwise fun d d' => DeviceRegistry.sortKey d ≤ DeviceRegistry.sortKey d') :
    ds.Pairwise fun d d' => DeviceRegistry.sortKey d < DeviceRegistry.sortKey d' := by
  refine (hsorted.and hnamed.apart).imp fun {d d'} h => lt_of_le_of_ne h.1 fun heq => h.2 ?_
  have haddress : d.address = d'.address := congrArg (fun k => (ofLex (ofLex k).2).2) heq
  rw [haddress]
  exact .refl

instance : Std.Irrefl fun d d' => DeviceRegistry.sortKey d < DeviceRegistry.sortKey d' :=
  ⟨fun d => lt_irrefl (DeviceRegistry.sortKey d)⟩

instance : Std.Antisymm fun d d' => DeviceRegistry.sortKey d < DeviceRegistry.sortKey d' :=
  ⟨fun _ _ h h' => absurd h (lt_asymm h')⟩

/-- The list is the same for all orders of iteration. -/
theorem devices_order_irrelevant (reg : DeviceRegistry) (keys keys' : IterOrder IpAddr)
    (order order' : IterOrder (List IpAddr)) :
    reg.devices keys order = reg.devices keys' order' := by
  obtain ⟨ds, hds, hnamed, hsorted, hwhole⟩ := devices_whole reg keys order
  obtain ⟨ds', hds', hnamed', hsorted', hwhole'⟩ := devices_whole reg keys' order'
  rw [hds, hds']
  refine congrArg some ((sortKey_strict hnamed hsorted).eq_of_mem_iff
    (sortKey_strict hnamed' hsorted') fun d => ⟨fun hd => ?_, fun hd => ?_⟩)
  · obtain ⟨g, hg⟩ := hwhole d hd
    obtain ⟨d', hd', hj⟩ := hnamed'.covers _ (hnamed.tracked d hd)
    obtain ⟨g', hg'⟩ := hwhole' d' hd'
    rwa [hg.unique hg' hj]
  · obtain ⟨g, hg⟩ := hwhole' d hd
    obtain ⟨d', hd', hj⟩ := hnamed.covers _ (hnamed'.tracked d hd)
    obtain ⟨g', hg'⟩ := hwhole d' hd'
    rwa [hg.unique hg' hj]

/-- There is one list, for all orders of iteration. -/
theorem devices_settled (reg : DeviceRegistry) : ∃ ds,
    (∀ keys order, reg.devices keys order = some ds) ∧ Named reg ds ∧
      ds.Pairwise fun d d' => DeviceRegistry.sortKey d ≤ DeviceRegistry.sortKey d' := by
  let same {α : Type} : IterOrder α := ⟨id, fun l => .refl l⟩
  obtain ⟨ds, hds, hnamed, hsorted, -⟩ := devices_whole reg same same
  refine ⟨ds, fun keys order => ?_, hnamed, hsorted⟩
  rw [devices_order_irrelevant reg keys same order same, hds]

/-- In every run a device speaks some protocol. -/
theorem protocols_ne_nil {ttl : ℕ} {calls : List Call} {ds : List Device}
    (hnamed : Named ((DeviceRegistry.new ttl).run calls) ds) {d : Device} (hd : d ∈ ds) :
    d.protocols ≠ [] := by
  obtain ⟨e, he⟩ := Option.isSome_iff_exists.mp (AList.lookup_isSome.mpr (hnamed.tracked d hd))
  have hne := entry_protocols_ne_nil (run_lookup ttl calls d.address ▸ he)
  obtain ⟨p, hp⟩ := List.exists_mem_of_ne_nil _ hne
  exact List.ne_nil_of_mem ((hnamed.speaks d hd p).mpr ⟨d.address, .refl, e, he, hp⟩)

/-- In every run each tracked address is in the component of some device, and each device is
made of its whole component, field by field: the protocols of all its entries, the best
address, the first URLs and name in address order, and the least identity. The order in
which the group was collected does not matter. -/
theorem merge_loses_nothing (ttl : ℕ) (calls : List Call) (keys : IterOrder IpAddr)
    (order : IterOrder (List IpAddr)) :
    let reg := (DeviceRegistry.new ttl).run calls
    ∃ ds, reg.devices keys order = some ds ∧
      (∀ a ∈ reg.entries, ∃ d ∈ ds, Joined (Carries reg) a d.address) ∧ ∀ d ∈ ds, ∃ g,
      (∀ a, a ∈ g ↔ Joined (Carries reg) d.address a) ∧ MergedFrom reg g d ∧
        d.protocols.Nodup ∧ d.protocols ≠ [] ∧
        ((∃ a ∈ g, a.IsPlainV4) → d.address.IsPlainV4) ∧
        ∀ g', (∀ a, a ∈ g' ↔ a ∈ g) → reg.mergeGroup g' = some d := by
  intro reg
  obtain ⟨ds, hds, hnamed, -, hwhole⟩ := devices_whole reg keys order
  refine ⟨ds, hds, hnamed.covers, fun d hd => ?_⟩
  obtain ⟨g, hg⟩ := hwhole d hd
  refine ⟨g, hg.2, hg.1, hg.1.ordered.nodup, protocols_ne_nil hnamed hd, ?_,
    fun g' hmem => hg.mergeGroup (hnamed.tracked d hd) hmem⟩
  rintro ⟨a, ha, hplain⟩
  exact hg.1.plainV4 ha hplain

/-- In every run the device list is one list, whatever the orders of the hash maps. It has a
device for each tracked address, it is strictly sorted by the rank of the best protocol, the
name and the address, and every device has a best protocol. -/
theorem device_list_deterministic (ttl : ℕ) (calls : List Call) :
    let reg := (DeviceRegistry.new ttl).run calls
    ∃ ds, (∀ keys order, reg.devices keys order = some ds) ∧
      (∀ a ∈ reg.entries, ∃ d ∈ ds, Joined (Carries reg) a d.address) ∧
      (ds.Pairwise fun d d' => DeviceRegistry.sortKey d < DeviceRegistry.sortKey d') ∧
      ∀ d ∈ ds, ∃ p, d.protocols.head? = some p ∧
        (ofLex (DeviceRegistry.sortKey d)).1 = preferenceRank p := by
  intro reg
  obtain ⟨ds, hds, hnamed, hsorted⟩ := devices_settled reg
  refine ⟨ds, hds, hnamed.covers, sortKey_strict hnamed hsorted, fun d hd => ?_⟩
  cases hp : d.protocols with
  | nil => exact absurd hp (protocols_ne_nil hnamed hd)
  | cons p ps => exact ⟨p, rfl, by simp [DeviceRegistry.sortKey, hp]⟩

end HorizonCast
