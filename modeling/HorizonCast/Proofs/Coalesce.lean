import HorizonCast.Lib.UnionFind
import HorizonCast.Spec.Registry

/-! The device list shows exactly one device for each component of tracked
addresses that are joined by chains of shared identities. -/

namespace HorizonCast

open Collections Text UnionFind Relation

/-! ### Path halving -/

/-- The parent array as a function. -/
def parentOf (parent : List ℕ) (x : ℕ) : ℕ := parent.getD x x

abbrev IsForest (parent : List ℕ) : Prop := Forest (parentOf parent) {x | x < parent.length}

/-- The root above `x` in the array. -/
noncomputable def rootIn (parent : List ℕ) (x : ℕ) : ℕ := rootOf (parentOf parent) x

theorem getElem?_parent {parent : List ℕ} {x : ℕ} (hx : x < parent.length) :
    parent[x]? = some (parentOf parent x) := by
  simp [parentOf, List.getD, hx]

theorem parentOf_set {parent : List ℕ} {x : ℕ} (hx : x < parent.length) (v : ℕ) :
    parentOf (parent.set x v) = Function.update (parentOf parent) x v := by
  funext y
  by_cases hyx : y = x
  · subst hyx
    simp [parentOf, List.getD, hx]
  · rw [Function.update_of_ne hyx]
    simp [parentOf, List.getD, List.getElem?_set_ne (Ne.symm hyx)]

theorem parentOf_range (n : ℕ) : parentOf (List.range n) = fun x => x := by
  funext x
  by_cases hx : x < n <;> simp [parentOf, List.getD, hx]

/-- A new parent array of the same forest. -/
structure SameRoots (parent parent' : List ℕ) : Prop where
  length : parent'.length = parent.length
  forest : IsForest parent'
  root : ∀ y < parent.length, rootIn parent' y = rootIn parent y

theorem SameRoots.refl {parent : List ℕ} (h : IsForest parent) : SameRoots parent parent :=
  ⟨rfl, h, fun _ _ => rfl⟩

theorem SameRoots.trans {p q r : List ℕ} (h : SameRoots p q) (h' : SameRoots q r) :
    SameRoots p r where
  length := h'.length.trans h.length
  forest := h'.forest
  root y hy := (h'.root y (by rw [h.length]; exact hy)).trans (h.root y hy)

theorem sameRoots_halve {parent : List ℕ} (h : IsForest parent) {x : ℕ}
    (hx : x < parent.length) :
    SameRoots parent (parent.set x (parentOf parent (parentOf parent x))) where
  length := List.length_set
  forest := by
    unfold IsForest
    rw [parentOf_set hx, List.length_set]
    exact h.halve hx
  root y hy := by
    unfold rootIn
    rw [parentOf_set hx]
    exact h.rootOf_halve x hy

/-- The loop ends within one round more than the depth of `x`, at its root. -/
theorem findLoop_spec {parent : List ℕ} (h : IsForest parent) {d x r fuel : ℕ}
    (hx : x < parent.length) (hr : RootAt (parentOf parent) d x r) (hfuel : d < fuel) :
    ∃ parent', findLoop fuel parent x = some (parent', r) ∧ SameRoots parent parent' := by
  induction fuel generalizing parent d x with
  | zero => omega
  | succ fuel ih =>
    unfold findLoop
    rw [getElem?_parent hx]
    cases hr with
    | root hroot => exact ⟨parent, by simp [hroot], .refl h⟩
    | @step d _ _ hne up =>
      have hup : parentOf parent x < parent.length := h.closed x hx
      have hhalved : parentOf parent (parentOf parent x) < parent.length := h.closed _ hup
      have hsame := sameRoots_halve h hx
      obtain ⟨e, he, hr'⟩ : ∃ e ≤ d,
          RootAt (parentOf parent) e (parentOf parent (parentOf parent x)) r := by
        cases up with
        | root hroot => exact ⟨0, by omega, by rw [hroot]; exact .root hroot⟩
        | @step d' _ _ _ up' => exact ⟨d', by omega, up'⟩
      obtain ⟨e', he', hr''⟩ := hr'.halve x
      rw [← parentOf_set hx] at hr''
      obtain ⟨parent', hfind, hsame'⟩ := ih hsame.forest
        (by rw [hsame.length]; exact hhalved) hr'' (by omega)
      refine ⟨parent', ?_, hsame.trans hsame'⟩
      simp only [Option.bind_eq_bind, Option.bind_some, if_neg hne, getElem?_parent hup]
      exact hfind

/-- `find` returns, with the root of `x`, and moves no other root. -/
theorem find_spec {parent : List ℕ} (h : IsForest parent) {x : ℕ} (hx : x < parent.length) :
    ∃ parent', find parent x = some (parent', rootIn parent x) ∧ SameRoots parent parent' := by
  obtain ⟨d, r, hr⟩ := h.rooted x hx
  have hd : d < parent.length := by
    have := hr.depth_lt (s := Finset.range parent.length)
      (by simpa using h.closed) (Finset.mem_range.mpr hx)
    rwa [Finset.card_range] at this
  have hroot : rootIn parent x = r := hr.rootOf_eq
  rw [hroot]
  exact findLoop_spec h hx hr hd

/-- The second of two lookups sees the roots that the first one saw. -/
theorem find_twice {parent : List ℕ} (h : IsForest parent) {i j : ℕ} (hi : i < parent.length)
    (hj : j < parent.length) : ∃ q q', find parent i = some (q, rootIn parent i) ∧
      find q j = some (q', rootIn parent j) ∧ SameRoots parent q' := by
  obtain ⟨q, hq, hsame⟩ := find_spec h hi
  obtain ⟨q', hq', hsame'⟩ := find_spec hsame.forest (by rw [hsame.length]; exact hj)
  rw [hsame.root j hj] at hq'
  exact ⟨q, q', hq, hq', hsame.trans hsame'⟩

theorem rootIn_lt {parent : List ℕ} (h : IsForest parent) {x : ℕ} (hx : x < parent.length) :
    rootIn parent x < parent.length := h.rootOf_mem hx

theorem rootIn_isRoot {parent : List ℕ} (h : IsForest parent) {x : ℕ} (hx : x < parent.length) :
    parentOf parent (rootIn parent x) = rootIn parent x := h.rootOf_isRoot hx

/-! ### Linking -/

/-- Linking a root under another one moves exactly its tree. -/
theorem link_roots {parent : List ℕ} (h : IsForest parent) {a b : ℕ} (ha : a < parent.length)
    (hb : b < parent.length) (hroot : parentOf parent a = a) (hroot' : parentOf parent b = b)
    (hab : a ≠ b) : IsForest (parent.set a b) ∧ ∀ x < parent.length,
      rootIn (parent.set a b) x = if rootIn parent x = a then b else rootIn parent x := by
  refine ⟨?_, fun x hx => ?_⟩
  · unfold IsForest
    rw [parentOf_set ha, List.length_set]
    exact h.link hroot hroot' hab hb
  · unfold rootIn
    rw [parentOf_set ha]
    exact h.rootOf_link hroot hroot' hab hx

/-- The state of the linking loops after the incidences `P` of `n` indices with
identities. -/
structure LinkedBy (n : ℕ) (P : ℕ → Str → Prop) (links : Links) : Prop where
  length : links.1.length = n
  forest : IsForest links.1
  tracks : Tracks {x | x < n} P (rootIn links.1) fun id => links.2.lookup id

theorem linkedBy_init (n : ℕ) : LinkedBy n (fun _ _ => False) (List.range n, ∅) where
  length := List.length_range
  forest := by
    unfold IsForest
    rw [parentOf_range]
    exact .id
  tracks := by
    refine (Tracks.init _).congr fun x _ => ?_
    unfold rootIn
    rw [parentOf_range]
    exact (RootAt.root rfl).rootOf_eq

theorem linkIdentity_spec {n : ℕ} {P : ℕ → Str → Prop} {links : Links} (h : LinkedBy n P links)
    {i : ℕ} (hi : i < n) (id : Str) :
    ∃ links', linkIdentity i links id = some links' ∧
      LinkedBy n (addIncidence P i id) links' := by
  obtain ⟨parent, owner⟩ := links
  obtain ⟨rfl, hforest, htracks⟩ := h
  dsimp only at *
  unfold linkIdentity
  dsimp only
  cases hid : owner.lookup id with
  | none =>
    refine ⟨_, rfl, rfl, hforest, ?_⟩
    convert htracks.own hi hid using 1
    funext id'
    by_cases heq : id' = id
    · subst heq
      rw [Function.update_self, AList.lookup_insert]
    · rw [Function.update_of_ne heq, AList.lookup_insert_ne heq]
  | some j =>
    have hj : j < parent.length := htracks.inside (htracks.owns hid)
    have hmerge := htracks.merge hi hid
    obtain ⟨q, q', hq, hq', hsame⟩ := find_twice hforest hi hj
    simp only [Option.bind_eq_bind, hq, hq', Option.bind_some]
    refine ⟨_, rfl, ?_⟩
    by_cases hab : rootIn parent i = rootIn parent j
    · rw [if_neg (by simp [hab])]
      refine ⟨hsame.length, hsame.forest, hmerge.congr fun x hx => ?_⟩
      rw [hsame.root x hx]
      split_ifs with hxa
      · rw [hxa, hab]
      · rfl
    · have hlt : ∀ x < parent.length, rootIn parent x < q'.length := by
        intro x hx
        rw [hsame.length]
        exact rootIn_lt hforest hx
      have hroot : ∀ x < parent.length, parentOf q' (rootIn parent x) = rootIn parent x := by
        intro x hx
        rw [← hsame.root x hx]
        exact rootIn_isRoot hsame.forest (by rw [hsame.length]; exact hx)
      obtain ⟨hforest', hroots⟩ :=
        link_roots hsame.forest (hlt i hi) (hlt j hj) (hroot i hi) (hroot j hj) hab
      rw [if_pos hab]
      refine ⟨List.length_set.trans hsame.length, hforest', hmerge.congr fun x hx => ?_⟩
      rw [hroots x (by rw [hsame.length]; exact hx), hsame.root x hx]

/-- The incidences of the addresses in `l`, each with its index. -/
def incidences (reg : DeviceRegistry) (l : List (IpAddr × ℕ)) (x : ℕ) (id : Str) : Prop :=
  ∃ a e, (a, x) ∈ l ∧ reg.entries.lookup a = some e ∧ id ∈ e.identities

/-- The inner loop links the `i`-th address to the owners of its identities. -/
theorem linkIdentities_spec {n : ℕ} {P : ℕ → Str → Prop} {links : Links} (h : LinkedBy n P links)
    {i : ℕ} (hi : i < n) (ids : List Str) :
    ∃ links', ids.foldlM (linkIdentity i) links = some links' ∧
      LinkedBy n (fun x id => P x id ∨ x = i ∧ id ∈ ids) links' := by
  apply foldlM_invariant (linkIdentity i)
    (fun ids => LinkedBy n fun x id => P x id ∨ x = i ∧ id ∈ ids)
  · simpa using h
  · intro ids id _ _ links hlinks
    obtain ⟨links', hstep, hlinks'⟩ := linkIdentity_spec hlinks hi id
    refine ⟨links', hstep, ?_⟩
    convert hlinks' using 3
    simp only [addIncidence, List.mem_append, List.mem_singleton]
    tauto

theorem linkAddress_spec {reg : DeviceRegistry} {n : ℕ} {pre : List (IpAddr × ℕ)} {links : Links}
    (h : LinkedBy n (incidences reg pre) links) {a : IpAddr} {e : Entry} {i : ℕ} (hi : i < n)
    (he : reg.entries.lookup a = some e) :
    ∃ links', reg.linkAddress links (a, i) = some links' ∧
      LinkedBy n (incidences reg (pre ++ [(a, i)])) links' := by
  obtain ⟨links', hloop, hlinked⟩ := linkIdentities_spec h hi e.identities.toList
  refine ⟨links', ?_, ?_⟩
  · unfold DeviceRegistry.linkAddress
    rw [he]
    exact hloop
  · convert hlinked using 3 with x id
    simp only [incidences, List.mem_append, List.mem_singleton]
    constructor
    · rintro ⟨b, eb, hb | hb, hlookup, hid⟩
      · exact .inl ⟨b, eb, hb, hlookup, hid⟩
      · cases hb
        rw [he, Option.some.injEq] at hlookup
        exact .inr ⟨rfl, hlookup ▸ hid⟩
    · rintro (⟨b, eb, hb, hlookup, hid⟩ | ⟨rfl, hid⟩)
      · exact ⟨b, eb, .inl hb, hlookup, hid⟩
      · exact ⟨a, e, .inr rfl, he, hid⟩

/-! ### Grouping -/

theorem addrs_perm (reg : DeviceRegistry) (keys : IterOrder IpAddr) :
    (reg.addrs keys).Perm reg.entries.keys :=
  (List.perm_insertionSort _ _).trans (keys.perm _)

theorem addrs_nodup (reg : DeviceRegistry) (keys : IterOrder IpAddr) : (reg.addrs keys).Nodup :=
  (addrs_perm reg keys).nodup_iff.mpr reg.entries.keys_nodup

theorem lookup_of_mem {reg : DeviceRegistry} {a : IpAddr} (ha : a ∈ reg.entries.keys) :
    ∃ e, reg.entries.lookup a = some e :=
  Option.isSome_iff_exists.mp (AList.lookup_isSome.mpr (AList.mem_keys.mpr ha))

theorem mem_zipIdx {addrs : List IpAddr} (hnd : addrs.Nodup) {a : IpAddr} {i : ℕ} :
    (a, i) ∈ addrs.zipIdx ↔ a ∈ addrs ∧ addrs.idxOf a = i := by
  rw [List.mk_mem_zipIdx_iff_getElem?]
  constructor
  · intro h
    obtain ⟨hi, rfl⟩ := List.getElem?_eq_some_iff.mp h
    exact ⟨List.getElem_mem hi, hnd.idxOf_getElem i hi⟩
  · rintro ⟨ha, rfl⟩
    exact List.getElem?_idxOf ha

theorem index_of_mem {reg : DeviceRegistry} {keys : IterOrder IpAddr} {a : IpAddr} {i : ℕ}
    (h : (a, i) ∈ (reg.addrs keys).zipIdx) :
    a ∈ reg.addrs keys ∧ (reg.addrs keys).idxOf a = i ∧ i < (reg.addrs keys).length := by
  obtain ⟨ha, rfl⟩ := (mem_zipIdx (addrs_nodup reg keys)).mp h
  exact ⟨ha, rfl, List.idxOf_lt_length_iff.mpr ha⟩

/-- The outer linking loop, up to any of its rounds. -/
theorem linkAddresses_spec (reg : DeviceRegistry) (keys : IterOrder IpAddr)
    {pre : List (IpAddr × ℕ)} (hpre : pre <+: (reg.addrs keys).zipIdx) :
    ∃ links, pre.foldlM reg.linkAddress (List.range (reg.addrs keys).length, ∅) = some links ∧
      LinkedBy (reg.addrs keys).length (incidences reg pre) links := by
  apply foldlM_invariant reg.linkAddress
    (fun pre => LinkedBy (reg.addrs keys).length (incidences reg pre))
  · convert linkedBy_init (reg.addrs keys).length using 3
    simp [incidences]
  · rintro done ⟨a, i⟩ post hl links hlinks
    obtain ⟨ha, -, hi⟩ := index_of_mem (hpre.subset (by rw [hl]; simp : (a, i) ∈ pre))
    obtain ⟨e, he⟩ := lookup_of_mem ((addrs_perm reg keys).mem_iff.mp ha)
    exact linkAddress_spec hlinks hi he

/-- The grouping loop, up to any of its rounds. -/
theorem groupAddresses_spec (reg : DeviceRegistry) (keys : IterOrder IpAddr) {parent : List ℕ}
    (hlength : parent.length = (reg.addrs keys).length) (hforest : IsForest parent)
    {pre : List (IpAddr × ℕ)} (hpre : pre <+: (reg.addrs keys).zipIdx) :
    ∃ st, pre.foldlM DeviceRegistry.groupAddress (parent, ∅) = some st ∧ SameRoots parent st.1 ∧
      GroupedBy (fun a => rootIn parent ((reg.addrs keys).idxOf a)) (pre.map Prod.fst) st.2 := by
  set root : IpAddr → ℕ := fun a => rootIn parent ((reg.addrs keys).idxOf a) with hroot
  refine foldlM_invariant DeviceRegistry.groupAddress
    (fun pre st => SameRoots parent st.1 ∧ GroupedBy root (pre.map Prod.fst) st.2)
    (s := (parent, ∅)) ⟨.refl hforest, groupedBy_empty root⟩ ?_
  rintro done ⟨a, i⟩ post hl ⟨q, m⟩ ⟨hsame, hm⟩
  dsimp only at hsame hm
  obtain ⟨-, hidx, hi⟩ := index_of_mem (hpre.subset (by rw [hl]; simp : (a, i) ∈ pre))
  rw [← hlength] at hi
  obtain ⟨q', hfind, hsame'⟩ := find_spec hsame.forest (by rw [hsame.length]; exact hi)
  have hrootA : root a = rootIn q i := by
    rw [hsame.root i hi, ← hidx]
  refine ⟨(q', pushAt m (root a) a), ?_, hsame.trans hsame', ?_⟩
  · unfold DeviceRegistry.groupAddress
    simp only [Option.bind_eq_bind, hfind, Option.bind_some, hrootA]
  · rw [List.map_append]
    exact hm.push a

/-- What the two loops of `devices` leave: the addresses grouped by a root that
two addresses have in common exactly along chains of shared identities. -/
theorem groups_spec (reg : DeviceRegistry) (keys : IterOrder IpAddr) :
    ∃ gs root, reg.groups keys = some gs ∧ GroupedBy root (reg.addrs keys) gs ∧
      ∀ a ∈ reg.addrs keys, ∀ b ∈ reg.addrs keys, root a = root b ↔
        ReflTransGen (Shares (incidences reg (reg.addrs keys).zipIdx))
          ((reg.addrs keys).idxOf a) ((reg.addrs keys).idxOf b) := by
  obtain ⟨⟨parent, owner⟩, hlink, hlength, hforest, htracks⟩ :=
    linkAddresses_spec reg keys (List.prefix_refl _)
  dsimp only at hlength hforest htracks
  obtain ⟨⟨parent', gs⟩, hgroup, -, hgs⟩ :=
    groupAddresses_spec reg keys hlength hforest (List.prefix_refl _)
  rw [List.zipIdx_map_fst] at hgs
  refine ⟨gs, _, ?_, hgs, fun a ha b hb => ?_⟩
  · unfold DeviceRegistry.groups
    simp only [Option.bind_eq_bind, hlink, hgroup, Option.bind_some]
  · exact htracks.root_eq_iff (List.idxOf_lt_length_iff.mpr ha) (List.idxOf_lt_length_iff.mpr hb)

/-! ### Devices -/

/-- Two tracked addresses with an identity in common. -/
def SharesIdentity (reg : DeviceRegistry) (a b : IpAddr) : Prop :=
  ∃ ea eb, reg.entries.lookup a = some ea ∧ reg.entries.lookup b = some eb ∧
    ∃ id, id ∈ ea.identities ∧ id ∈ eb.identities

theorem chain_iff {reg : DeviceRegistry} {addrs : List IpAddr} (hnd : addrs.Nodup)
    (hp : addrs.Perm reg.entries.keys) {a b : IpAddr} (ha : a ∈ addrs) (hb : b ∈ addrs) :
    ReflTransGen (Shares (incidences reg addrs.zipIdx)) (addrs.idxOf a) (addrs.idxOf b) ↔
      ReflTransGen (SharesIdentity reg) a b := by
  have htracked : ∀ {c e}, reg.entries.lookup c = some e → c ∈ addrs := fun h =>
    hp.mem_iff.mpr (AList.mem_keys.mp (AList.lookup_isSome.mp (by rw [h]; rfl)))
  have hget : ∀ {c}, c ∈ addrs → addrs.getD (addrs.idxOf c) a = c := by
    intro c hc
    rw [List.getD, List.getElem?_idxOf hc, Option.getD_some]
  constructor
  · intro h
    have hlift : ReflTransGen (SharesIdentity reg) (addrs.getD (addrs.idxOf a) a)
        (addrs.getD (addrs.idxOf b) a) := by
      refine h.lift (fun i => addrs.getD i a) ?_
      rintro i j ⟨id, ⟨c, ec, hc, hec, hidc⟩, ⟨d, ed, hd, hed, hidd⟩⟩
      obtain ⟨hc', rfl⟩ := (mem_zipIdx hnd).mp hc
      obtain ⟨hd', rfl⟩ := (mem_zipIdx hnd).mp hd
      change SharesIdentity reg (addrs.getD _ a) (addrs.getD _ a)
      rw [hget hc', hget hd']
      exact ⟨ec, ed, hec, hed, id, hidc, hidd⟩
    rwa [hget ha, hget hb] at hlift
  · intro h
    refine h.lift addrs.idxOf ?_
    rintro c d ⟨ec, ed, hec, hed, id, hidc, hidd⟩
    exact ⟨id, ⟨c, ec, (mem_zipIdx hnd).mpr ⟨htracked hec, rfl⟩, hec, hidc⟩,
      ⟨d, ed, (mem_zipIdx hnd).mpr ⟨htracked hed, rfl⟩, hed, hidd⟩⟩

/-- A non-empty group of tracked addresses is merged into a device. -/
theorem mergeGroup_some {reg : DeviceRegistry} {g : List IpAddr} (hne : g ≠ [])
    (hg : ∀ a ∈ g, a ∈ reg.entries.keys) : ∃ d, reg.mergeGroup g = some d := by
  unfold DeviceRegistry.mergeGroup
  cases hprimary : g.argmin fun a => toLex (addressRank a, a) with
  | none => exact absurd (List.argmin_eq_none.mp hprimary) hne
  | some primary =>
    obtain ⟨e, he⟩ := lookup_of_mem (hg primary (List.argmin_mem hprimary))
    obtain ⟨es, hes, -⟩ := mapM_some (f := reg.entries.lookup)
      (l := g.insertionSort (· ≤ ·))
      fun a ha => lookup_of_mem (hg a ((List.mem_insertionSort _).mp ha))
    simp only [Option.bind_eq_bind, Option.bind_some, he, hes]
    exact ⟨_, rfl⟩

/-- The list `ds` has one device for each component of the tracked addresses
under chains of shared identities: the merge of the addresses of that component. -/
def OneEachComponent (reg : DeviceRegistry) (ds : List Device) : Prop :=
  ∃ gs, Partition (ReflTransGen (SharesIdentity reg)) reg.entries.keys gs ∧
    List.Forall₂ (fun g d => reg.mergeGroup g = some d) gs ds

/-- What `devices` returns: the merges of the components. -/
theorem devices_merge (reg : DeviceRegistry) (keys : IterOrder IpAddr)
    (order : IterOrder (List IpAddr)) :
    ∃ ds, reg.devices keys order = some ds ∧ OneEachComponent reg ds := by
  obtain ⟨gs, root, hgs, hgrouped, hroot⟩ := groups_spec reg keys
  have hp := addrs_perm reg keys
  have hpart : Partition (ReflTransGen (SharesIdentity reg)) reg.entries.keys (values gs) := by
    have h := hgrouped.partition
    refine ⟨h.nonempty, h.disjoint, fun a ha => h.covers a (hp.mem_iff.mpr ha),
      fun g hg a ha => hp.mem_iff.mp (h.inside g hg a ha), fun g hg a ha b hb => ?_⟩
    have ha' := h.inside g hg a ha
    have hb' := hp.mem_iff.mpr hb
    rw [h.group g hg a ha b hb', hroot a ha' b hb',
      chain_iff (addrs_nodup reg keys) hp ha' hb']
  have hpart' := hpart.perm (order.perm (values gs))
  obtain ⟨ds, hds, hall⟩ := mapM_some (f := reg.mergeGroup) fun g hg =>
    mergeGroup_some (hpart'.nonempty g hg) (hpart'.inside g hg)
  obtain ⟨gs', hgs', hall'⟩ := forall₂_perm hall (List.perm_insertionSort
    (fun a b => DeviceRegistry.sortKey a ≤ DeviceRegistry.sortKey b) ds)
  refine ⟨_, ?_, gs', hpart'.perm hgs', hall'⟩
  unfold DeviceRegistry.devices
  simp only [Option.bind_eq_bind, hgs, hds, Option.bind_some]

end HorizonCast
