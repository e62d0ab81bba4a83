import HorizonCast.Proofs.DeviceList
import HorizonCast.Spec.Discovery

/-! Repeated sightings. An entry dominates what it has seen: to record that again changes
the time of the last sighting and nothing else, so the device list stays as it is and the
service has nothing to publish. -/

namespace HorizonCast

open Collections Text History

/-! ### Absorption -/

/-- The entry as of another time. -/
def Entry.touch (e : Entry) (t : ℕ) : Entry := { e with lastSeen := t }

/-- The entry holds all that the observation has to say. -/
def Entry.Dominates (e : Entry) (obs : Observation) : Prop := ∀ now, e.record obs now = e.touch now

theorem Entry.Dominates.touch {e : Entry} {obs : Observation} (h : e.Dominates obs) (t : ℕ) :
    (e.touch t).Dominates obs := h

/-- An observation that was already made adds nothing to the summary. -/
theorem summary_concat_of_mem {obs : List Observation} {o : Observation} (h : o ∈ obs)
    (last : ℕ) : summary (obs ++ [o]) last = summary obs last := by
  unfold summary
  congr 1
  · exact findSome?_concat_of_mem _ h
  · rw [List.filterMap_append]
    cases hid : nonEmpty o.stableId with
    | none => simp [hid]
    | some id =>
      have hmem : id ∈ BTreeSet.ofList (obs.filterMap fun o => nonEmpty o.stableId) :=
        BTreeSet.mem_ofList.mpr (List.mem_filterMap.mpr ⟨o, h, hid⟩)
      simp only [List.filterMap_cons, hid, List.filterMap_nil, BTreeSet.ofList_concat]
      exact BTreeSet.insert_of_mem hmem
  · rw [List.map_append, List.map_singleton, find?_concat_of_mem _ (List.mem_map_of_mem h)]
  · rw [List.map_append, List.map_singleton, eraseDups_concat,
      if_pos (List.mem_eraseDups.mpr (List.mem_map_of_mem h))]
  · exact findSome?_concat_of_mem _ h
  · exact findSome?_concat_of_mem _ h

theorem summary_dominates {obs : List Observation} {o : Observation} (h : o ∈ obs) (last : ℕ) :
    (summary obs last).Dominates o := by
  intro now
  rw [record_summary, summary_concat_of_mem h]
  rfl

/-- In every run an entry dominates what was seen of its address. -/
theorem entry_dominates {ttl : ℕ} {calls : List Call} {o : Observation}
    (h : o ∈ seen ttl o.address calls) :
    ∃ e, ((DeviceRegistry.new ttl).run calls).entries.lookup o.address = some e ∧
      e.Dominates o := by
  have htracked : tracked ttl o.address calls = true := by
    by_contra hnot
    rw [seen_of_untracked (Bool.eq_false_iff.mpr hnot)] at h
    cases h
  obtain ⟨e, he⟩ := Option.isSome_iff_exists.mp (entry_isSome.mpr htracked)
  obtain ⟨-, t, after, -, rfl⟩ := entry_eq_some he
  exact ⟨_, (run_lookup ttl calls o.address).trans he, summary_dominates h t⟩

/-! ### Registries that differ in times only -/

/-- The second registry differs from the first in times of last sightings only. -/
structure Touched (reg reg' : DeviceRegistry) : Prop where
  ttl : reg'.ttl = reg.ttl
  entries : ∀ a, ∃ t, reg'.entries.lookup a = (reg.entries.lookup a).map (Entry.touch · t)

namespace Touched

variable {reg reg' reg'' : DeviceRegistry}

theorem refl (reg : DeviceRegistry) : Touched reg reg where
  ttl := rfl
  entries a := by
    cases h : reg.entries.lookup a with
    | none => exact ⟨0, rfl⟩
    | some e => exact ⟨e.lastSeen, rfl⟩

theorem trans (h : Touched reg reg') (h' : Touched reg' reg'') : Touched reg reg'' where
  ttl := h'.ttl.trans h.ttl
  entries a := by
    obtain ⟨t, ht⟩ := h.entries a
    obtain ⟨t', ht'⟩ := h'.entries a
    refine ⟨t', ?_⟩
    rw [ht', ht, Option.map_map]
    rfl

theorem observe {o : Observation} {e : Entry} (he : reg.entries.lookup o.address = some e)
    (hdom : e.Dominates o) (now : ℕ) : Touched reg (reg.observe o now) where
  ttl := rfl
  entries a := by
    unfold DeviceRegistry.observe
    by_cases ha : a = o.address
    · subst ha
      refine ⟨now, ?_⟩
      rw [AList.lookup_insert, he]
      exact congrArg some (hdom now)
    · dsimp only
      rw [AList.lookup_insert_ne ha]
      exact (refl reg).entries a

/-- What an entry dominates it still dominates at another time. -/
theorem dominates (h : Touched reg reg') {o : Observation}
    (hdom : ∃ e, reg.entries.lookup o.address = some e ∧ e.Dominates o) :
    ∃ e, reg'.entries.lookup o.address = some e ∧ e.Dominates o := by
  obtain ⟨e, he, hdom⟩ := hdom
  obtain ⟨t, ht⟩ := h.entries o.address
  exact ⟨e.touch t, by rw [ht, he]; rfl, hdom.touch t⟩

end Touched

theorem touched_run {reg : DeviceRegistry} {again : List (Observation × ℕ)}
    (h : ∀ s ∈ again, ∃ e, reg.entries.lookup s.1.address = some e ∧ e.Dominates s.1) :
    Touched reg (reg.run (Discovery.observeCalls again)) := by
  induction again generalizing reg with
  | nil => exact .refl reg
  | cons s again ih =>
    obtain ⟨e, he, hdom⟩ := h s List.mem_cons_self
    have hstep := Touched.observe he hdom s.2
    refine hstep.trans (ih fun s' hs' => ?_)
    exact hstep.dominates (h s' (List.mem_cons_of_mem s hs'))

/-- An expiry that lets go of no address changes nothing. -/
theorem touched_expire {reg : DeviceRegistry} {now : ℕ}
    (h : ∀ a ∈ reg.entries, a ∈ (reg.expire now).entries) : Touched reg (reg.expire now) where
  ttl := rfl
  entries a := by
    obtain ⟨t, ht⟩ := (Touched.refl reg).entries a
    refine ⟨t, ?_⟩
    rw [← ht]
    by_cases ha : a ∈ reg.entries
    · have hkept := AList.lookup_isSome.mpr (h a ha)
      rw [DeviceRegistry.expire, lookup_retain] at hkept ⊢
      obtain ⟨e, he⟩ := Option.isSome_iff_exists.mp hkept
      rw [he, (Option.filter_eq_some_iff.mp he).1]
    · rw [DeviceRegistry.expire, lookup_retain, AList.lookup_eq_none.mpr ha]
      rfl

/-! ### The device list -/

namespace Touched

variable {reg reg' : DeviceRegistry}

theorem mem (h : Touched reg reg') (a : IpAddr) : a ∈ reg'.entries ↔ a ∈ reg.entries := by
  obtain ⟨t, ht⟩ := h.entries a
  rw [← AList.lookup_isSome, ← AList.lookup_isSome, ht, Option.isSome_map]

theorem addrs (h : Touched reg reg') (keys : IterOrder IpAddr) :
    reg'.addrs keys = reg.addrs keys := by
  have hkeys : reg'.entries.keys.Perm reg.entries.keys :=
    (List.perm_ext_iff_of_nodup reg'.entries.keys_nodup reg.entries.keys_nodup).mpr h.mem
  have hperm := (keys.perm reg'.entries.keys).trans (hkeys.trans (keys.perm _).symm)
  unfold DeviceRegistry.addrs
  refine List.Perm.eq_of_pairwise' (List.pairwise_insertionSort _ _)
    (List.pairwise_insertionSort _ _) ?_
  exact (List.perm_insertionSort _ _).trans (hperm.trans (List.perm_insertionSort _ _).symm)

theorem linkAddress (h : Touched reg reg') : reg'.linkAddress = reg.linkAddress := by
  funext links addr
  obtain ⟨t, ht⟩ := h.entries addr.1
  unfold DeviceRegistry.linkAddress
  rw [ht]
  cases reg.entries.lookup addr.1 with
  | none => rfl
  | some e => rfl

theorem groups (h : Touched reg reg') (keys : IterOrder IpAddr) :
    reg'.groups keys = reg.groups keys := by
  unfold DeviceRegistry.groups
  rw [h.addrs, h.linkAddress]

end Touched

section Fields

variable {β : Type} {es es' : List Entry} (h : es'.map (Entry.touch · 0) = es.map (Entry.touch · 0))
include h

/-- Entries that differ in times only have the same fields. -/
theorem flatMap_touched (field : Entry → List β) (hfield : ∀ e, field (e.touch 0) = field e) :
    es'.flatMap field = es.flatMap field := by
  have hset : ∀ es : List Entry, (es.map (Entry.touch · 0)).flatMap field = es.flatMap field := by
    intro es
    rw [List.flatMap_map, funext hfield]
  rw [← hset, h, hset]

theorem findSome?_touched (field : Entry → Option β) (hfield : ∀ e, field (e.touch 0) = field e) :
    es'.findSome? field = es.findSome? field := by
  have hset : ∀ es : List Entry, (es.map (Entry.touch · 0)).findSome? field =
      es.findSome? field := by
    intro es
    rw [List.findSome?_map]
    exact congrArg (es.findSome? ·) (funext hfield)
  rw [← hset, h, hset]

end Fields

namespace Touched

variable {reg reg' : DeviceRegistry}

/-- With their times set alike the entries are the same. -/
theorem settled (h : Touched reg reg') (group : List IpAddr) :
    (group.mapM reg'.entries.lookup).map (List.map (Entry.touch · 0)) =
      (group.mapM reg.entries.lookup).map (List.map (Entry.touch · 0)) := by
  rw [← mapM_map_result, ← mapM_map_result]
  refine mapM_congr fun a _ => ?_
  obtain ⟨t, ht⟩ := h.entries a
  rw [ht, Option.map_map]
  rfl

theorem mergeGroup (h : Touched reg reg') (group : List IpAddr) :
    reg'.mergeGroup group = reg.mergeGroup group := by
  unfold DeviceRegistry.mergeGroup
  cases group.argmin fun a => toLex (addressRank a, a) with
  | none => rfl
  | some primary =>
    obtain ⟨t, ht⟩ := h.entries primary
    have hsettled := h.settled (group.insertionSort (· ≤ ·))
    simp only [Option.bind_eq_bind, Option.bind_some, ht]
    cases reg.entries.lookup primary with
    | none => rfl
    | some e =>
      simp only [Option.map_some, Option.bind_some]
      cases hold : (group.insertionSort (· ≤ ·)).mapM reg.entries.lookup with
      | none =>
        rw [hold] at hsettled
        rw [Option.map_eq_none_iff.mp hsettled]
        rfl
      | some es =>
        rw [hold] at hsettled
        obtain ⟨es', hes', heq⟩ := Option.map_eq_some_iff.mp hsettled
        simp only [hes', Option.bind_some, flatMap_touched heq Entry.protocols fun _ => rfl,
          flatMap_touched heq (fun e => e.identities.toList) fun _ => rfl,
          findSome?_touched heq (fun e => nonEmpty e.name) fun _ => rfl,
          findSome?_touched heq Entry.dlnaControlUrl fun _ => rfl,
          findSome?_touched heq Entry.dlnaLocation fun _ => rfl]
        rfl

theorem devices (h : Touched reg reg') (keys keys' : IterOrder IpAddr)
    (groups groups' : IterOrder (List IpAddr)) :
    reg'.devices keys groups = reg.devices keys' groups' := by
  rw [devices_order_irrelevant reg keys' keys groups' groups]
  unfold DeviceRegistry.devices
  rw [h.groups, funext h.mergeGroup]

end Touched

/-! ### The service -/

namespace Discovery

/-- The device list was published as it is. -/
def State.Current (s : State) : Prop := ∀ keys groups, s.registry.devices keys groups = some s.last

theorem start_current : start.Current := by
  intro keys groups
  obtain ⟨ds, hds, hnamed, -⟩ := devices_settled start.registry
  have hnil : ds = [] := List.eq_nil_iff_forall_not_mem.mpr fun d hd =>
    AList.notMem_empty _ (hnamed.tracked d hd)
  rw [hds, hnil]
  rfl

/-- A pass leaves the list published, and sends it when it is another one than before. -/
theorem pass_current (s : State) (pass : Pass) : ∃ s', s.pass pass = some s' ∧
    s'.registry = s.registry.run pass.calls ∧ s'.Current ∧
    s'.sent = if s'.last = s.last then s.sent else s.sent ++ [s'.last] := by
  obtain ⟨ds, hds, -⟩ := devices_settled (s.registry.run pass.calls)
  unfold State.pass
  simp only [hds, Option.bind_eq_bind, Option.bind_some]
  by_cases h : ds = s.last
  · rw [if_neg (not_not_intro h)]
    refine ⟨_, rfl, rfl, fun keys groups => ?_, (if_pos rfl).symm⟩
    rw [hds, h]
  · rw [if_pos h]
    exact ⟨_, rfl, rfl, hds, (if_neg h).symm⟩

theorem run_concat {passes : List Pass} {s : State} (h : run passes = some s) (pass : Pass) :
    run (passes ++ [pass]) = s.pass pass := by
  unfold run at h ⊢
  rw [List.foldlM_append, h]
  simp

theorem run_current (passes : List Pass) : ∃ s, run passes = some s ∧
    s.registry = (DeviceRegistry.new defaultTtl).run (passes.flatMap Pass.calls) ∧
    s.Current := by
  induction passes using List.reverseRecOn with
  | nil => exact ⟨start, rfl, rfl, start_current⟩
  | append_singleton passes pass ih =>
    obtain ⟨s, hs, hreg, -⟩ := ih
    obtain ⟨s', hs', hreg', hcurrent, -⟩ := pass_current s pass
    refine ⟨s', ?_, ?_, hcurrent⟩
    · rw [run_concat hs, hs']
    · rw [hreg', hreg, List.flatMap_append]
      simp [DeviceRegistry.run]

end Discovery

open Discovery

/-- What was recorded of an address since it was last untracked may be recorded again, in
any order and at any times: the entries keep everything but their times, and the device
list stays. A pass of the service that sights nothing else and loses no address publishes
nothing. -/
theorem resightings_publish_nothing (ttl : ℕ) (calls : List Call)
    (again : List (Observation × ℕ))
    (h : ∀ s ∈ again, s.1 ∈ seen ttl s.1.address calls) :
    let reg := (DeviceRegistry.new ttl).run calls
    let reg' := reg.run (observeCalls again)
    Touched reg reg' ∧
      (∃ ds, ∀ keys groups, reg.devices keys groups = some ds ∧
        reg'.devices keys groups = some ds) ∧
      ∀ (passes : List Pass) (elapsed : ℕ) (keys : IterOrder IpAddr)
        (groups : IterOrder (List IpAddr)),
        ttl = defaultTtl → calls = passes.flatMap Pass.calls →
        (∀ a ∈ reg.entries, a ∈ (reg'.expire elapsed).entries) →
        ∃ s s', run passes = some s ∧ run (passes ++ [⟨again, elapsed, keys, groups⟩]) = some s' ∧
          s'.last = s.last ∧ s'.sent = s.sent := by
  intro reg reg'
  have htouched : Touched reg reg' := touched_run fun s hs => entry_dominates (h s hs)
  obtain ⟨ds, hds, -⟩ := devices_settled reg
  refine ⟨htouched, ⟨ds, fun keys groups => ⟨hds keys groups, ?_⟩⟩, ?_⟩
  · rw [htouched.devices keys keys groups groups, hds]
  · rintro passes elapsed keys groups rfl rfl hkept
    obtain ⟨s, hs, hreg, hcurrent⟩ := run_current passes
    obtain ⟨s', hs', hreg', hcurrent', hsent⟩ := pass_current s ⟨again, elapsed, keys, groups⟩
    have hpassed : Touched reg s'.registry := by
      rw [hreg', Pass.calls, HorizonCast.run_concat, hreg]
      exact htouched.trans (touched_expire fun a ha => hkept a ((htouched.mem a).mp ha))
    have hlast : s'.last = s.last := by
      have hsame := hpassed.devices keys keys groups groups
      rw [hcurrent', show reg = s.registry from hreg.symm, hcurrent] at hsame
      exact Option.some.inj hsame
    rw [if_pos hlast] at hsent
    exact ⟨s, s', hs, by rw [Discovery.run_concat hs, hs'], hlast, hsent⟩

/-- One device is sighted in a pass, and again in the next one. -/
theorem resightings_publish_nothing_twice :
    let tv : Observation :=
      ⟨.v4 0x7F000001, 7000, some "TV".toList, none, .airPlayMirror, none, none⟩
    let same {α : Type} : IterOrder α := ⟨id, fun l => .refl l⟩
    ∃ s s', run [⟨[(tv, 0)], 3, same, same⟩] = some s ∧
      run [⟨[(tv, 0)], 3, same, same⟩, ⟨[(tv, 4), (tv, 5)], 6, same, same⟩] = some s' ∧
      s'.last = s.last ∧ s'.sent = s.sent := by
  intro tv same
  refine (resightings_publish_nothing defaultTtl [.observe tv 0, .expire 3] [(tv, 4), (tv, 5)]
    ?_).2.2 [⟨[(tv, 0)], 3, same, same⟩] 6 same same rfl rfl ?_
  · decide
  · decide

end HorizonCast
