import HorizonCast.Proofs.DeviceIds
import HorizonCast.Proofs.History

/-! What the devices are drawn from right after an expiry. Age is kept for each
address, so a fact lives as long as its address keeps being seen. -/

namespace HorizonCast

open Collections History Text UnionFind

/-- The time of a call. -/
def Call.time : Call → ℕ
  | observe _ now => now
  | expire now => now

/-- The observations of an address that are at most `ttl` old. -/
def recent (ttl now : ℕ) (calls : List Call) (a : IpAddr) : List Observation :=
  ((calls.filterMap (Call.sighting a)).filter fun s => now - s.2 ≤ ttl).map Prod.fst

/-- Each fact of the entry was carried by one of the observations. -/
structure Backed (obs : List Observation) (e : Entry) : Prop where
  identities : ∀ id ∈ e.identities, ∃ o ∈ obs, nonEmpty o.stableId = some id
  protocols : ∀ p ∈ e.protocols, ∃ o ∈ obs, o.protocol = p
  controlUrl : ∀ url, e.dlnaControlUrl = some url → ∃ o ∈ obs, nonEmpty o.dlnaControlUrl = some url
  location : ∀ loc, e.dlnaLocation = some loc → ∃ o ∈ obs, nonEmpty o.dlnaLocation = some loc

/-- Two addresses that identities link, each observed at both its ends. -/
def SeenLinked (obs : IpAddr → List Observation) : IpAddr → IpAddr → Prop :=
  Joined fun a id => ∃ o ∈ obs a, nonEmpty o.stableId = some id

/-- The devices are merged from groups of addresses that the observations link, and
from entries whose facts the observations carried. -/
def DrawnFrom (obs : IpAddr → List Observation) (reg : DeviceRegistry) (ds : List Device) : Prop :=
  ∃ gs, List.Forall₂ (fun g d => reg.mergeGroup g = some d) gs ds ∧
    ∀ g ∈ gs, ∀ a ∈ g, (∃ e, reg.entries.lookup a = some e ∧ Backed (obs a) e) ∧
      ∀ b ∈ g, SeenLinked obs a b

theorem summary_backed (obs : List Observation) (last : ℕ) : Backed obs (summary obs last) where
  identities id hid := by simpa [summary, BTreeSet.mem_ofList] using hid
  protocols p hp := by simpa [summary, List.mem_eraseDups] using hp
  controlUrl _ hurl := List.exists_of_findSome?_eq_some hurl
  location _ hloc := List.exists_of_findSome?_eq_some hloc

/-- The identities that the entries have are those seen. -/
theorem carries_run (ttl : ℕ) (calls : List Call) :
    Carries ((DeviceRegistry.new ttl).run calls) =
      fun a id => ∃ o ∈ seen ttl a calls, nonEmpty o.stableId = some id := by
  funext a id
  refine propext ⟨?_, ?_⟩
  · rintro ⟨e, he, hid⟩
    obtain ⟨-, t, after, -, rfl⟩ := entry_eq_some (run_lookup ttl calls a ▸ he)
    exact (summary_backed _ t).identities id hid
  · rintro ⟨o, ho, hid⟩
    have htracked : tracked ttl a calls = true := by
      by_contra h
      rw [seen_of_untracked (Bool.eq_false_iff.mpr h)] at ho
      exact List.not_mem_nil ho
    obtain ⟨e, he⟩ := Option.isSome_iff_exists.mp (entry_isSome.mpr htracked)
    obtain ⟨-, t, after, -, rfl⟩ := entry_eq_some he
    refine ⟨_, (run_lookup ttl calls a).trans he, ?_⟩
    simp only [summary, BTreeSet.mem_ofList, List.mem_filterMap]
    exact ⟨o, ho, hid⟩

/-- The entry of an address of a component is what was seen of the address, and what was
seen links the component. -/
theorem seen_of_component {ttl : ℕ} {calls : List Call} {gs : List (List IpAddr)}
    (hpart : Partition (Relation.ReflTransGen (SharesIdentity ((DeviceRegistry.new ttl).run calls)))
      ((DeviceRegistry.new ttl).run calls).entries.keys gs)
    {g : List IpAddr} (hg : g ∈ gs) {a : IpAddr} (ha : a ∈ g) :
    (∃ e, ((DeviceRegistry.new ttl).run calls).entries.lookup a = some e ∧
      Backed (seen ttl a calls) e) ∧
      ∀ b ∈ g, SeenLinked (fun a => seen ttl a calls) a b := by
  refine ⟨?_, fun b hb => ?_⟩
  · have htracked := AList.mem_keys.mp (hpart.inside g hg a ha)
    obtain ⟨e, he⟩ := Option.isSome_iff_exists.mp (AList.lookup_isSome.mpr htracked)
    obtain ⟨-, t, after, -, rfl⟩ := entry_eq_some (run_lookup ttl calls a ▸ he)
    exact ⟨_, he, summary_backed _ t⟩
  · have hab := (hpart.group g hg a ha b (hpart.inside g hg b hb)).mp hb
    rw [sharesIdentity_eq, carries_run] at hab
    exact hab

/-- In every run the devices are drawn from what was seen of their addresses since
they were last untracked. -/
theorem drawnFrom_seen (ttl : ℕ) (calls : List Call) (keys : IterOrder IpAddr)
    (order : IterOrder (List IpAddr)) :
    ∃ ds, ((DeviceRegistry.new ttl).run calls).devices keys order = some ds ∧
      DrawnFrom (fun a => seen ttl a calls) ((DeviceRegistry.new ttl).run calls) ds := by
  obtain ⟨ds, hds, gs, hpart, hall⟩ :=
    devices_merge ((DeviceRegistry.new ttl).run calls) keys order
  exact ⟨ds, hds, gs, hall, fun g hg a ha => seen_of_component hpart hg ha⟩

/-- What is tracked right after an expiry was observed within the time to live. -/
theorem recent_ne_nil {ttl now : ℕ} {calls : List Call} {a : IpAddr}
    (h : tracked ttl a (calls ++ [.expire now]) = true) : recent ttl now calls a ≠ [] := by
  rw [tracked_other rfl] at h
  obtain ⟨⟨t, after⟩, hlatest, hkeeps⟩ := (Option.any_eq_true _ _).mp h
  obtain ⟨pre, obs, rfl, rfl⟩ := latest_eq_some hlatest
  have hage : now - t ≤ ttl := of_decide_eq_true (Bool.and_eq_true_iff.mp hkeeps).2
  refine List.ne_nil_of_mem (a := obs) (List.mem_map.mpr ⟨(obs, t), ?_, rfl⟩)
  refine List.mem_filter.mpr ⟨List.mem_filterMap.mpr ⟨.observe obs t, by simp, if_pos rfl⟩, ?_⟩
  simpa using hage

/-- Right after an expiry every tracked address was observed within the time to live,
and the devices are drawn from what was seen of their addresses since these were last
untracked. -/
theorem expire_drawnFrom (ttl : ℕ) (calls : List Call) (now : ℕ) (keys : IterOrder IpAddr)
    (order : IterOrder (List IpAddr)) :
    let reg := (DeviceRegistry.new ttl).run (calls ++ [Call.expire now])
    (∀ a ∈ reg.entries, recent ttl now calls a ≠ []) ∧
      ∃ ds, reg.devices keys order = some ds ∧
        DrawnFrom (fun a => seen ttl a (calls ++ [Call.expire now])) reg ds := by
  intro reg
  refine ⟨fun a ha => recent_ne_nil ?_, drawnFrom_seen ttl _ keys order⟩
  rwa [← entry_isSome, ← run_lookup, AList.lookup_isSome]

/-- An address that is still seen, without the identity it once had, is merged with
the one that has it now. -/
theorem stale_identity_kept :
    ¬ ∀ (ttl : ℕ) (calls : List Call) (now : ℕ) (keys : IterOrder IpAddr)
      (order : IterOrder (List IpAddr)) (ds : List Device),
      ((calls ++ [Call.expire now]).map Call.time).Pairwise (· ≤ ·) →
      ((DeviceRegistry.new ttl).run (calls ++ [.expire now])).devices keys order = some ds →
      DrawnFrom (recent ttl now calls)
        ((DeviceRegistry.new ttl).run (calls ++ [.expire now])) ds := by
  intro h
  have hmerged : (((DeviceRegistry.new 10).run
      ([.observe (sampleSighting 5 (some "uuid:1".toList)) 0, .observe (sampleSighting 5 none) 10,
        .observe (sampleSighting 7 (some "uuid:1".toList)) 10] ++ [.expire 15])).devices
          (asIs _) (asIs _)).map (·.map Device.address) =
      some [(sampleSighting 5 none).address] := by
    decide +kernel
  obtain ⟨ds, hds, haddress⟩ := Option.map_eq_some_iff.mp hmerged
  obtain ⟨gs, hall, hdrawn⟩ := h _ _ _ _ _ ds (by decide) hds
  obtain ⟨d, rfl, hd⟩ := List.map_eq_singleton_iff.mp haddress
  obtain ⟨g, hg, hm⟩ := exists_left_of_forall₂ hall (List.mem_singleton_self d)
  obtain ⟨⟨e, he, hbacked⟩, -⟩ := hdrawn g hg _ (hd ▸ (mergeGroup_merged hm).primary)
  have hcarried : ((((DeviceRegistry.new 10).run
      ([.observe (sampleSighting 5 (some "uuid:1".toList)) 0, .observe (sampleSighting 5 none) 10,
        .observe (sampleSighting 7 (some "uuid:1".toList)) 10] ++ [.expire 15])).entries.lookup
          (sampleSighting 5 none).address).map fun e => e.identities.toList) =
      some ["uuid:1".toList] := by
    decide +kernel
  rw [he] at hcarried
  have hids : e.identities.toList = ["uuid:1".toList] := Option.some.inj hcarried
  have hid : "uuid:1".toList ∈ e.identities.toList := hids ▸ List.mem_singleton_self _
  obtain ⟨o, ho, hstable⟩ := hbacked.identities _ hid
  have hrecent : recent 10 15 [.observe (sampleSighting 5 (some "uuid:1".toList)) 0,
      .observe (sampleSighting 5 none) 10, .observe (sampleSighting 7 (some "uuid:1".toList)) 10]
        (sampleSighting 5 none).address = [sampleSighting 5 none] := by
    decide
  rw [hrecent] at ho
  obtain rfl := List.mem_singleton.mp ho
  revert hstable
  decide

end HorizonCast
