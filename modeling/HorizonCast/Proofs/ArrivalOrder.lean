import HorizonCast.Proofs.DeviceIds
import HorizonCast.Proofs.History

/-! Which backend answers first. Without expiry the identities and protocols of the
addresses forget the order of the observations, and they alone determine the ids,
the addresses and the protocols of the devices. -/

namespace HorizonCast

open Collections Text UnionFind

/-- The call that records an observation at a time. -/
def Call.ofObservation (seen : Observation × ℕ) : Call := .observe seen.1 seen.2

/-- What the lists of devices are compared by. -/
def Device.triple (d : Device) : Str × IpAddr × List Protocol := (d.id, d.address, d.protocols)

/-! ### Registries that were only observed -/

/-- A fact of the registry that each observation adds to is what the observations say. -/
theorem run_observed {R : DeviceRegistry → Prop} {gives : Observation → Prop}
    (hnew : ∀ ttl, ¬ R (.new ttl))
    (hobs : ∀ reg obs now, R (reg.observe obs now) ↔ R reg ∨ gives obs) (ttl : ℕ)
    (seen : List (Observation × ℕ)) :
    R ((DeviceRegistry.new ttl).run (seen.map Call.ofObservation)) ↔
      ∃ obs ∈ seen.map Prod.fst, gives obs := by
  induction seen using List.reverseRecOn with
  | nil => simp [DeviceRegistry.run, hnew]
  | append_singleton seen s ih =>
    rw [List.map_append, List.map_singleton, run_concat]
    simp only [Call.ofObservation, DeviceRegistry.apply, hobs]
    rw [ih]
    simp [or_and_right, exists_or]

section Perm

variable {ttl ttl' : ℕ} {seen seen' : List (Observation × ℕ)}

/-- Such a fact does not depend on the order of the observations. -/
theorem run_observed_perm {R : DeviceRegistry → Prop} {gives : Observation → Prop}
    (hnew : ∀ ttl, ¬ R (.new ttl))
    (hobs : ∀ reg obs now, R (reg.observe obs now) ↔ R reg ∨ gives obs)
    (hperm : (seen.map Prod.fst).Perm (seen'.map Prod.fst)) :
    R ((DeviceRegistry.new ttl).run (seen.map Call.ofObservation)) ↔
      R ((DeviceRegistry.new ttl').run (seen'.map Call.ofObservation)) := by
  rw [run_observed hnew hobs, run_observed hnew hobs]
  simp only [hperm.mem_iff]

theorem tracked_perm (hperm : (seen.map Prod.fst).Perm (seen'.map Prod.fst)) (a : IpAddr) :
    a ∈ ((DeviceRegistry.new ttl).run (seen.map Call.ofObservation)).entries ↔
      a ∈ ((DeviceRegistry.new ttl').run (seen'.map Call.ofObservation)).entries :=
  run_observed_perm (R := fun reg => a ∈ reg.entries) (fun _ => AList.notMem_empty a)
    (fun _ _ _ => mem_observe.trans or_comm) hperm

theorem carries_perm (hperm : (seen.map Prod.fst).Perm (seen'.map Prod.fst)) :
    Carries ((DeviceRegistry.new ttl).run (seen.map Call.ofObservation)) =
      Carries ((DeviceRegistry.new ttl').run (seen'.map Call.ofObservation)) := by
  funext a id
  exact propext (run_observed_perm (R := fun reg => Carries reg a id)
    (fun _ h => AList.notMem_empty a h.tracked) (fun _ _ _ => carries_observe) hperm)

theorem speaks_perm (hperm : (seen.map Prod.fst).Perm (seen'.map Prod.fst)) :
    Speaks ((DeviceRegistry.new ttl).run (seen.map Call.ofObservation)) =
      Speaks ((DeviceRegistry.new ttl').run (seen'.map Call.ofObservation)) := by
  funext a p
  exact propext (run_observed_perm (R := fun reg => Speaks reg a p)
    (fun _ h => AList.notMem_empty a h.tracked) (fun _ _ _ => speaks_observe) hperm)

end Perm

/-! ### Registries with the same facts -/

theorem Named.nodup_triples {reg : DeviceRegistry} {ds : List Device} (h : Named reg ds) :
    (ds.map Device.triple).Nodup := by
  refine List.pairwise_map.mpr (h.apart.imp fun {d d'} hapart heq => hapart ?_)
  have haddress : d.address = d'.address := congrArg (fun t => t.2.1) heq
  exact haddress ▸ .refl

/-- The device of the one list that has the id, address and protocols of a device of
the other. -/
theorem Named.exists_same {reg reg' : DeviceRegistry} {ds ds' : List Device} (h : Named reg ds)
    (h' : Named reg' ds') (htracked : ∀ a, a ∈ reg.entries → a ∈ reg'.entries)
    (hcarries : Carries reg = Carries reg') (hspeaks : Speaks reg = Speaks reg') {d : Device}
    (hd : d ∈ ds) : ∃ d' ∈ ds', d'.triple = d.triple := by
  obtain ⟨d', hd', hj'⟩ := h'.covers d.address (htracked _ (h.tracked d hd))
  have hj : Joined (Carries reg) d.address d'.address := hcarries ▸ hj'
  have haddress : d'.address = d.address := by
    have hle := h.best d hd d'.address hj
    have hle' := h'.best d' hd' d.address hj'.symm
    exact (Prod.mk.inj (toLex_inj.mp (le_antisymm hle' hle))).2
  have hid : d'.id = d.id := by
    have hname := (h'.name d' hd').of_joined hj'.symm
    rw [← hcarries] at hname
    exact hname.unique (h.name d hd)
  have hprotocols : d'.protocols = d.protocols := by
    have : Std.Irrefl fun p q => preferenceRank p < preferenceRank q :=
      ⟨fun p => lt_irrefl (preferenceRank p)⟩
    have : Std.Antisymm fun p q => preferenceRank p < preferenceRank q :=
      ⟨fun _ _ hpq hqp => absurd hqp hpq.asymm⟩
    refine (h'.ordered d' hd').eq_of_mem_iff (h.ordered d hd) fun p => ?_
    rw [h'.speaks d' hd', h.speaks d hd, haddress, hcarries, hspeaks]
  exact ⟨d', hd', by unfold Device.triple; rw [hid, haddress, hprotocols]⟩

theorem Named.perm {reg reg' : DeviceRegistry} {ds ds' : List Device} (h : Named reg ds)
    (h' : Named reg' ds') (htracked : ∀ a, a ∈ reg.entries ↔ a ∈ reg'.entries)
    (hcarries : Carries reg = Carries reg') (hspeaks : Speaks reg = Speaks reg') :
    (ds.map Device.triple).Perm (ds'.map Device.triple) := by
  refine (List.perm_ext_iff_of_nodup h.nodup_triples h'.nodup_triples).mpr fun t => ?_
  constructor <;> intro ht <;> obtain ⟨d, hd, rfl⟩ := List.mem_map.mp ht
  · obtain ⟨d', hd', heq⟩ := h.exists_same h' (fun a => (htracked a).mp) hcarries hspeaks hd
    exact List.mem_map.mpr ⟨d', hd', heq⟩
  · obtain ⟨d', hd', heq⟩ :=
      h'.exists_same h (fun a => (htracked a).mpr) hcarries.symm hspeaks.symm hd
    exact List.mem_map.mpr ⟨d', hd', heq⟩

/-- Observations in any two orders, at any times, make the same ids, primary addresses
and protocol lists. -/
theorem devices_order_independent (ttl ttl' : ℕ) (seen seen' : List (Observation × ℕ))
    (hperm : (seen.map Prod.fst).Perm (seen'.map Prod.fst)) (keys keys' : IterOrder IpAddr)
    (order order' : IterOrder (List IpAddr)) :
    let reg := (DeviceRegistry.new ttl).run (seen.map Call.ofObservation)
    let reg' := (DeviceRegistry.new ttl').run (seen'.map Call.ofObservation)
    ∃ ds ds', reg.devices keys order = some ds ∧ reg'.devices keys' order' = some ds' ∧
      (ds.map Device.triple).Perm (ds'.map Device.triple) ∧ ds.length = ds'.length := by
  intro reg reg'
  obtain ⟨ds, hds, h⟩ := devices_named reg keys order
  obtain ⟨ds', hds', h'⟩ := devices_named reg' keys' order'
  have hsame := h.perm h' (tracked_perm hperm) (carries_perm hperm) (speaks_perm hperm)
  exact ⟨ds, ds', hds, hds', hsame, by simpa using hsame.length_eq⟩

theorem devices_order_independent_swap :
    ∃ ds ds', ((DeviceRegistry.new 15).run ([(sampleSighting 5 none, 0),
        (sampleSighting 7 (some "uuid:1".toList), 1)].map Call.ofObservation)).devices
          (asIs _) (asIs _) = some ds ∧
      ((DeviceRegistry.new 15).run ([(sampleSighting 7 (some "uuid:1".toList), 3),
        (sampleSighting 5 none, 4)].map Call.ofObservation)).devices (asIs _) (asIs _) = some ds' ∧
      (ds.map Device.triple).Perm (ds'.map Device.triple) ∧ ds.length = ds'.length :=
  devices_order_independent 15 15
    [(sampleSighting 5 none, 0), (sampleSighting 7 (some "uuid:1".toList), 1)]
    [(sampleSighting 7 (some "uuid:1".toList), 3), (sampleSighting 5 none, 4)]
    (.swap _ _ _) _ _ _ _

end HorizonCast
