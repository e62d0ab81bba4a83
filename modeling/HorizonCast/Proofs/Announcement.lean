import HorizonCast.Proofs.Published

/-! A service that mDNS resolves in a pass, in the list of that pass: one device, whatever
else is sighted meanwhile. -/

namespace HorizonCast.DiscoveryService

open Collections Discovery History Text UnionFind

variable {reader : Ssdp.Descriptions}

/-! ### Sightings of a pass -/

/-- The latest sighting of an address that a pass has sighted is one of that pass. -/
theorem latest_of_sighted {calls : List Call} {sightings : List (Observation × ℕ)}
    {s : Observation × ℕ} (h : s ∈ sightings) :
    ∃ x ∈ sightings, ∃ after,
      latest s.1.address (calls ++ observeCalls sightings) = some (x.2, after) := by
  induction sightings using List.reverseRecOn with
  | nil => cases h
  | append_singleton sightings x ih =>
    rw [observeCalls, List.map_append, List.map_singleton, ← List.append_assoc, latest_concat]
    by_cases hx : x.1.address = s.1.address
    · exact ⟨x, by simp, [], by rw [Call.sighting, if_pos hx]⟩
    · have hold : s ∈ sightings := by
        rcases List.mem_append.mp h with hold | hnew
        · exact hold
        · exact absurd (congrArg (·.1.address) (List.mem_singleton.mp hnew)).symm hx
      obtain ⟨y, hy, after, hlatest⟩ := ih hold
      refine ⟨y, List.mem_append_left _ hy, after ++ [.observe x.1 x.2], ?_⟩
      rw [Call.sighting, if_neg hx]
      unfold observeCalls at hlatest
      rw [hlatest]
      rfl

/-- A fact that an observation gives and no other one takes away stands after the pass. -/
theorem holds_of_sighted {R : DeviceRegistry → Prop} {registry : DeviceRegistry}
    {sightings : List (Observation × ℕ)} {s : Observation × ℕ} (h : s ∈ sightings)
    (hgiven : ∀ reg : DeviceRegistry, R (reg.observe s.1 s.2))
    (hkept : ∀ (reg : DeviceRegistry) obs now, R reg → R (reg.observe obs now)) :
    R (registry.run (observeCalls sightings)) := by
  rw [run_observeCalls]
  induction sightings using List.reverseRecOn with
  | nil => cases h
  | append_singleton sightings x ih =>
    rw [List.foldl_append]
    rcases List.mem_append.mp h with hold | hnew
    · exact hkept _ _ _ (ih hold)
    · obtain rfl := List.mem_singleton.mp hnew
      exact hgiven _

theorem lookup_expire {registry : DeviceRegistry} {now : ℕ} {a : IpAddr}
    (h : a ∈ (registry.expire now).entries) :
    (registry.expire now).entries.lookup a = registry.entries.lookup a := by
  rw [← AList.lookup_isSome, DeviceRegistry.expire, lookup_retain] at h
  rw [DeviceRegistry.expire, lookup_retain]
  obtain ⟨e, he⟩ := Option.isSome_iff_exists.mp h
  rw [he, (Option.filter_eq_some_iff.mp he).1]

theorem Refines.run_within {s t : Service} {passes : List Pass} {pending : List (Observation × ℕ)}
    {as : List Action} (h : Refines s passes pending)
    (hrun : Transition.run (Service.step reader) s as = some t)
    (hwithin : ∀ a ∈ as, a.isPassEnd = false) :
    ∃ more, Refines t passes (pending ++ more) := by
  induction as generalizing s pending with
  | nil =>
    cases hrun
    exact ⟨[], by rwa [List.append_nil]⟩
  | cons a as ih =>
    obtain ⟨s', hs', hrest⟩ := Option.bind_eq_some_iff.mp hrun
    obtain ⟨more, hmore⟩ := ih (h.within (moves_of_step hs') (hwithin a (by simp))) hrest
      fun b hb => hwithin b (by simp [hb])
    exact ⟨_, by rwa [List.append_assoc] at hmore⟩

/-! ### The device -/

/-- At the end of a pass that took no longer than the time to live, what the pass has
sighted is listed with what it said. -/
theorem sighted_listed {s s' : Service} {passes : List Pass} {pending : List (Observation × ℕ)}
    {since : ℕ} {browsing : Bool} {search : SearchTask} {keys : IterOrder IpAddr}
    {groups : IterOrder (List IpAddr)} (h : Refines s passes pending)
    (htask : s.task = .scanning since browsing search) (hshort : s.clock - since ≤ defaultTtl)
    (hend : s.step reader (.passEnded keys groups) = some s') :
    Named s'.registry s'.last ∧ ∀ x ∈ pending,
      x.1.address ∈ s'.registry.entries ∧ Speaks s'.registry x.1.address x.1.protocol ∧
      ∀ id, nonEmpty x.1.stableId = some id → Carries s'.registry x.1.address id := by
  cases moves_of_step hend with
  | scanned _ hscan => cases hscan.isScan
  | @passEnded _ _ since' snapshot htask' hlisted =>
    have hafter := h.endPass htask' hlisted
    have hduring := h.during
    unfold Service.During at hduring
    rw [htask] at hduring
    obtain ⟨-, -, hstamps⟩ := hduring
    obtain ⟨registry, -, hregistry⟩ := h.ran
    refine ⟨?_, fun x hx => ?_⟩
    · obtain ⟨ds, hds, hnamed, -⟩ := devices_settled (s.registry.expire s.clock)
      rw [hds] at hlisted
      obtain rfl := Option.some.inj hlisted
      exact hnamed
    · obtain ⟨y, hy, rest, hlatest⟩ : ∃ y ∈ pending, ∃ rest,
          latest x.1.address (passes.flatMap Pass.calls ++ observeCalls pending) =
            some (y.2, rest) := latest_of_sighted hx
      have hlive : Live s.clock (passes.flatMap Pass.calls ++ observeCalls pending)
          x.1.address :=
        ⟨y.2, rest, hlatest, (Nat.sub_le_sub_left (hstamps y hy).1 _).trans hshort⟩
      have htracked : x.1.address ∈ (s.registry.expire s.clock).entries := by
        have hran := hafter.registry_eq
        dsimp only at hran
        rw [hran]
        exact (mem_entries_iff_live hafter.inTime _).mpr hlive
      have hlookup := lookup_expire htracked
      refine ⟨htracked, ?_, fun id hid => ?_⟩
      · unfold Speaks
        rw [hlookup, hregistry]
        exact holds_of_sighted (R := fun reg => Speaks reg x.1.address x.1.protocol) hx
          (fun _ => speaks_observe.mpr (.inr ⟨rfl, rfl⟩))
          fun _ _ _ hold => speaks_observe.mpr (.inl hold)
      · unfold Carries
        rw [hlookup, hregistry]
        exact holds_of_sighted (R := fun reg => Carries reg x.1.address id) hx
          (fun _ => carries_observe.mpr (.inr ⟨rfl, hid⟩))
          fun _ _ _ hold => carries_observe.mpr (.inl hold)

/-- At the end of a pass that took no longer than the time to live, a service that mDNS
resolved in it is one device of the list, at all its addresses, whatever else was sighted
and in whatever order. It is no other device, and it can be mirrored to. -/
theorem announcement_is_one_device {before within : List Action} {s s' : Service}
    {info : Mdns.ServiceInfo} {now since : ℕ} {browsing : Bool} {search : SearchTask}
    {keys : IterOrder IpAddr} {groups : IterOrder (List IpAddr)}
    (h : run reader (before ++ .resolved info now :: within) = some s)
    (hwithin : ∀ a ∈ within, a.isPassEnd = false)
    (htask : s.task = .scanning since browsing search) (hshort : s.clock - since ≤ defaultTtl)
    (hend : s.step reader (.passEnded keys groups) = some s') (hname : info.fullname ≠ [])
    {a : IpAddr} (ha : a ∈ info.addresses) :
    ∃ d ∈ s'.last, Protocol.airPlayMirror ∈ d.protocols ∧
      (∀ b ∈ info.addresses, Joined (Carries s'.registry) d.address b) ∧
      ∀ d' ∈ s'.last, ∀ b ∈ info.addresses,
        Joined (Carries s'.registry) d'.address b → d' = d := by
  -- the announcement is pending until the pass ends
  rw [run, Transition.run_append, Option.bind_eq_some_iff] at h
  obtain ⟨s₁, hbefore, hrest⟩ := h
  obtain ⟨s₂, hresolved, hrun⟩ := Option.bind_eq_some_iff.mp hrest
  obtain ⟨more, hlast⟩ :=
    ((refines_of_run hbefore).within (moves_of_step hresolved) rfl).run_within hrun hwithin
  obtain ⟨hnamed, hlisted⟩ := sighted_listed hlast htask hshort hend
  have hfacts : ∀ b ∈ info.addresses, b ∈ s'.registry.entries ∧
      Speaks s'.registry b .airPlayMirror ∧ Carries s'.registry b info.fullname := by
    intro b hb
    have hsighted : (announced info b, now) ∈
        (journal reader before).pending ++
          Action.sightings reader s₁.clock (.resolved info now) ++ more :=
      List.mem_append_left _ (List.mem_append_right _ (List.mem_map_of_mem hb))
    obtain ⟨htracked, hspeaks, hcarries⟩ := hlisted _ hsighted
    exact ⟨htracked, hspeaks, hcarries _ (Option.filter_some_pos (decide_eq_true hname))⟩
  obtain ⟨htracked, hspeaks, hcarries⟩ := hfacts a ha
  obtain ⟨d, hd, hjoined⟩ := hnamed.covers a htracked
  have hall : ∀ b ∈ info.addresses, Joined (Carries s'.registry) d.address b := fun b hb =>
    hjoined.symm.trans (.single ⟨info.fullname, hcarries, (hfacts b hb).2.2⟩)
  refine ⟨d, hd, (hnamed.speaks d hd _).mpr ⟨a, hjoined.symm, hspeaks⟩, hall,
    fun d' hd' b hb hjoined' => ?_⟩
  exact hnamed.eq_of_joined hd' hd (hjoined'.trans (hall b hb).symm)

/-- The television of the sample, of which the list knows three seconds later. -/
theorem announcement_is_one_device_television : ∃ s',
    run sampleReader
      ([.subscribe, .check] ++ .resolved sampleInfo 0 :: (samplePass ++ [sampleEnd])) = some s' ∧
    ∃ d ∈ s'.last, Protocol.airPlayMirror ∈ d.protocols := by
  have hany : (run sampleReader ([.subscribe, .check] ++ .resolved sampleInfo 0 :: samplePass)).any
      (fun s => decide (s.clock ≤ defaultTtl) && (s.step sampleReader sampleEnd).isSome) =
        true := by
    decide +kernel
  obtain ⟨s, hs, hboth⟩ := (Option.any_eq_true _ _).mp hany
  obtain ⟨hclock, hsome⟩ := Bool.and_eq_true_iff.mp hboth
  obtain ⟨s', hend⟩ := Option.isSome_iff_exists.mp hsome
  cases htask : s.task with
  | scanning since browsing search =>
    have hshort : s.clock - since ≤ defaultTtl :=
      (Nat.sub_le _ _).trans (of_decide_eq_true hclock)
    obtain ⟨d, hd, hmirror, -⟩ := announcement_is_one_device hs (by decide) htask hshort hend
      (by decide) List.mem_cons_self
    refine ⟨s', ?_, d, hd, hmirror⟩
    rw [← List.cons_append, ← List.append_assoc, run, Transition.run_concat, ← run, hs]
    exact hend
  | checking | ended =>
    have hnone : s.step sampleReader sampleEnd = none := by
      simp only [sampleEnd, Service.step, Service.endPass, htask]
    rw [hnone] at hend
    cases hend

end HorizonCast.DiscoveryService
