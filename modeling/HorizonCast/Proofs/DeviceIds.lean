import HorizonCast.Proofs.AddressText
import HorizonCast.Proofs.Merge

/-! What the id of a device identifies. The id is the least identity of the
component or the text of its address, and the two can be the same string. -/

namespace HorizonCast

open Collections Text UnionFind

/-! ### Distinct ids -/

/-- The text of an address without identities is the least identity of another device. -/
def TextIsIdentity (reg : DeviceRegistry) : Prop :=
  ∃ a b, a ∈ reg.entries ∧ b ∈ reg.entries ∧ (∀ id, ¬ Carries reg a id) ∧
    IsLeast (keysAt (Carries reg) b) a.toText

theorem keysAt_eq_empty {reg : DeviceRegistry} {a : IpAddr} (h : ∀ id, ¬ Carries reg a id) :
    keysAt (Carries reg) a = ∅ := by
  refine Set.eq_empty_of_forall_notMem ?_
  rintro id ⟨b, hb, hid⟩
  rcases Relation.ReflTransGen.cases_head hb with rfl | ⟨c, ⟨k, hk, -⟩, -⟩
  · exact h id hid
  · exact h k hk

theorem not_carries_of_keysAt_eq_empty {reg : DeviceRegistry} {a : IpAddr}
    (h : keysAt (Carries reg) a = ∅) (id : Str) : ¬ Carries reg a id :=
  fun hid => (h ▸ Set.notMem_empty id) (mem_keysAt hid)

/-- Two devices of the list with one id. -/
theorem Named.nodup_ids_iff {reg : DeviceRegistry} {ds : List Device} (h : Named reg ds) :
    (ds.map Device.id).Nodup ↔ ¬ TextIsIdentity reg := by
  constructor
  · rintro hnodup ⟨a, b, ha, hb, hnone, hleast⟩
    obtain ⟨d, hd, had⟩ := h.covers a ha
    obtain ⟨d', hd', hbd'⟩ := h.covers b hb
    have hempty := keysAt_eq_empty hnone
    have hid : d.id = a.toText :=
      ((h.name d hd).of_joined had.symm).unique (.inr ⟨hempty, rfl⟩)
    have hid' : d'.id = a.toText := ((h.name d' hd').of_joined hbd'.symm).unique (.inl hleast)
    obtain rfl := List.inj_on_of_nodup_map hnodup hd hd' (hid.trans hid'.symm)
    rw [← keysAt_of_joined (had.trans hbd'.symm), hempty] at hleast
    exact hleast.1
  · intro hclear
    refine List.pairwise_map.mpr (h.apart.imp_of_mem fun {d d'} hd hd' hapart hid => hclear ?_)
    have hname := h.name d hd
    have hname' := h.name d' hd'
    rw [← hid] at hname'
    rcases IsName.clash IpAddr.toText_injective hname hname' hapart with
      ⟨hnone, hleast⟩ | ⟨hnone, hleast⟩
    · exact ⟨d.address, d'.address, h.tracked d hd, h.tracked d' hd',
        not_carries_of_keysAt_eq_empty hnone, hleast⟩
    · exact ⟨d'.address, d.address, h.tracked d' hd', h.tracked d hd,
        not_carries_of_keysAt_eq_empty hnone, hleast⟩

/-- In every reachable state the ids of the devices are distinct exactly when no
address without identities has the least identity of another device as its text. -/
theorem ids_distinct_iff (ttl : ℕ) (calls : List Call) (keys : IterOrder IpAddr)
    (order : IterOrder (List IpAddr)) :
    let reg := (DeviceRegistry.new ttl).run calls
    ∃ ds, reg.devices keys order = some ds ∧
      ((ds.map Device.id).Nodup ↔ ¬ TextIsIdentity reg) := by
  obtain ⟨ds, hds, hnamed⟩ := devices_named ((DeviceRegistry.new ttl).run calls) keys order
  exact ⟨ds, hds, hnamed.nodup_ids_iff⟩

/-- A sighting of a renderer at `192.168.1.host`. -/
def sampleSighting (host : Fin 256) (stableId : Option Str) : Observation where
  address := .v4 ⟨0xC0A80100 + host, by omega⟩
  port := 9197
  name := none
  stableId := stableId
  protocol := .dlna
  dlnaControlUrl := none
  dlnaLocation := none

/-- The order of iteration that leaves a list as it is. -/
def asIs (α : Type) : IterOrder α := ⟨id, fun l => .refl l⟩

/-- A renderer that gives the text of another one's address as its stable id. -/
theorem id_shared :
    ¬ ∀ (ttl : ℕ) (calls : List Call) (keys : IterOrder IpAddr) (order : IterOrder (List IpAddr))
      (ds : List Device), ((DeviceRegistry.new ttl).run calls).devices keys order = some ds →
        (ds.map Device.id).Nodup := by
  intro h
  have hclash : (((DeviceRegistry.new 15).run [.observe (sampleSighting 5 none) 0,
      .observe (sampleSighting 7 (some "192.168.1.5".toList)) 1]).devices (asIs _) (asIs _)).map
        (·.map Device.id) = some ["192.168.1.5".toList, "192.168.1.5".toList] := by
    decide +kernel
  obtain ⟨ds, hds, hids⟩ := Option.map_eq_some_iff.mp hclash
  have hnodup := h _ _ _ _ ds hds
  rw [hids] at hnodup
  revert hnodup
  decide

/-! ### Ids over one more observation -/

/-- The id of `d` is listed in `ds'`, unless `d` and another device of `ds` were
merged into one device of `ds'`, which has the id of that other one. -/
def IdKept (reg' : DeviceRegistry) (ds ds' : List Device) (d : Device) : Prop :=
  (∃ d' ∈ ds', d'.id = d.id) ∨
    ∃ d₂ ∈ ds, d₂ ≠ d ∧ ∃ d' ∈ ds', Joined (Carries reg') d.address d'.address ∧
      Joined (Carries reg') d₂.address d'.address ∧ d'.id = d₂.id

/-- The observation brings to a tracked address a stable id that nobody has, that is
smaller than the identities of its device, and that is not the id of that device
already; and no other device has the id that is lost. -/
def Renames (reg : DeviceRegistry) (obs : Observation) : Prop :=
  obs.address ∈ reg.entries ∧ ∃ id, nonEmpty obs.stableId = some id ∧
    (∀ a, ¬ Carries reg a id) ∧ (∀ k ∈ keysAt (Carries reg) obs.address, id < k) ∧
    ∃ old, IsName (Carries reg) IpAddr.toText obs.address old ∧ id ≠ old ∧
      ∀ a ∈ reg.entries, IsName (Carries reg) IpAddr.toText a old →
        Joined (Carries reg) obs.address a

/-- The device that lists the name of a tracked address. -/
theorem Named.listed {reg : DeviceRegistry} {ds : List Device} (h : Named reg ds) {a : IpAddr}
    (ha : a ∈ reg.entries) {n : Str} (hn : IsName (Carries reg) IpAddr.toText a n) :
    ∃ d ∈ ds, Joined (Carries reg) a d.address ∧ d.id = n := by
  obtain ⟨d, hd, had⟩ := h.covers a ha
  exact ⟨d, hd, had, (h.name d hd).unique (hn.of_joined had)⟩

section Observe

variable {reg : DeviceRegistry} {obs : Observation} {now : ℕ} {ds ds' : List Device}

/-- A name that is kept is still listed. -/
theorem listed_of_isName (h' : Named (reg.observe obs now) ds') {a : IpAddr} {n : Str}
    (ha : a ∈ reg.entries)
    (hn : IsName (Carries (reg.observe obs now)) IpAddr.toText a n) : ∃ d' ∈ ds', d'.id = n := by
  obtain ⟨d', hd', -, hid⟩ := h'.listed (mem_observe.mpr (.inr ha)) hn
  exact ⟨d', hd', hid⟩

/-- A stable id that nobody has. -/
theorem kept_of_fresh (h : Named reg ds) (h' : Named (reg.observe obs now) ds')
    (hclear : ¬ Renames reg obs) {id : Str} (hid : nonEmpty obs.stableId = some id)
    (hfresh : ∀ a, ¬ Carries reg a id) {d : Device} (hd : d ∈ ds) : ∃ d' ∈ ds', d'.id = d.id := by
  have hcarries := carries_observe_some reg now hid
  have hname := h.name d hd
  by_cases hbelow : Joined (Carries reg) d.address obs.address ∧
      ∀ k ∈ keysAt (Carries reg) d.address, id < k
  · obtain ⟨hj, hlt⟩ := hbelow
    by_cases heq : id = d.id
    · refine listed_of_isName h' (h.tracked d hd) ?_
      rw [hcarries, ← heq]
      exact isName_add_fresh hfresh hj hlt
    · -- The id is lost here, so another device has it.
      obtain ⟨a, ha, han, hja⟩ : ∃ a ∈ reg.entries,
          IsName (Carries reg) IpAddr.toText a d.id ∧ ¬ Joined (Carries reg) obs.address a := by
        by_contra hall
        push Not at hall
        exact hclear ⟨tracked_of_joined (h.tracked d hd) hj, id, hid, hfresh,
          keysAt_of_joined hj ▸ hlt, d.id, hname.of_joined hj, heq, hall⟩
      refine listed_of_isName h' ha ?_
      rw [hcarries]
      exact han.add_fresh hfresh fun haj => absurd haj.symm hja
  · refine listed_of_isName h' (h.tracked d hd) ?_
    rw [hcarries]
    refine hname.add_fresh hfresh fun hj => ?_
    by_contra hall
    push Not at hall
    exact hbelow ⟨hj, hall⟩

/-- A device that has the name of one that is now joined to it. -/
theorem idKept_of_isName (h : Named reg ds) (h' : Named (reg.observe obs now) ds')
    {d d₂ : Device} (hd : d ∈ ds) (hd₂ : d₂ ∈ ds)
    (hj : Joined (Carries (reg.observe obs now)) d.address d₂.address)
    (hn : IsName (Carries (reg.observe obs now)) IpAddr.toText d.address d₂.id) :
    IdKept (reg.observe obs now) ds ds' d := by
  by_cases heq : d₂ = d
  · exact .inl (listed_of_isName h' (h.tracked d hd) (heq ▸ hn))
  · obtain ⟨d', hd', hdd', hid⟩ := h'.listed (mem_observe.mpr (.inr (h.tracked d hd))) hn
    exact .inr ⟨d₂, hd₂, heq, d', hd', hdd', hj.symm.trans hdd', hid⟩

/-- A stable id that some address has. -/
theorem idKept_of_owned (h : Named reg ds) (h' : Named (reg.observe obs now) ds') {id : Str}
    (hid : nonEmpty obs.stableId = some id) {o : IpAddr} (ho : Carries reg o id) {d : Device}
    (hd : d ∈ ds) : IdKept (reg.observe obs now) ds ds' d := by
  have hcarries := carries_observe_some reg now hid
  have hname := h.name d hd
  by_cases hjoined : Joined (Carries reg) d.address obs.address ∨ Joined (Carries reg) d.address o
  swap
  · obtain ⟨hi, hdo⟩ := not_or.mp hjoined
    exact .inl (listed_of_isName h' (h.tracked d hd) (hcarries ▸ hname.add_owned_of_not ho hi hdo))
  by_cases htracked : obs.address ∈ reg.entries
  · -- Two devices, which may be the same, become one.
    obtain ⟨dA, hdA, hA⟩ := h.covers _ htracked
    obtain ⟨dO, hdO, hO⟩ := h.covers _ ho.tracked
    have hAO : Joined (Carries (reg.observe obs now)) obs.address o :=
      hcarries ▸ (joined_add_owned ho).mpr (.inr (.inl ⟨.refl, .refl⟩))
    have hadd : ∀ {a b}, Joined (Carries reg) a b → Joined (Carries (reg.observe obs now)) a b :=
      fun hab => hcarries ▸ hab.add
    have hdA' : Joined (Carries (reg.observe obs now)) d.address obs.address := by
      rcases hjoined with hi | hdo
      · exact hadd hi
      · exact (hadd hdo).trans hAO.symm
    rcases IsName.add_owned ho ((h.name dA hdA).of_joined hA.symm)
      ((h.name dO hdO).of_joined hO.symm) hjoined with hn | hn
    · exact idKept_of_isName h h' hd hdA (hdA'.trans (hadd hA)) (hcarries ▸ hn)
    · exact idKept_of_isName h h' hd hdO ((hdA'.trans hAO).trans (hadd hO)) (hcarries ▸ hn)
  · -- A new address joins the device that has the id.
    have hdo : Joined (Carries reg) d.address o := by
      rcases hjoined with hi | hdo
      · exact absurd (tracked_of_joined (h.tracked d hd) hi) htracked
      · exact hdo
    have hempty : keysAt (Carries reg) obs.address = ∅ :=
      keysAt_eq_empty fun _ hk => htracked hk.tracked
    have hn := (hname.of_joined hdo).add_owned_keyless ho hempty (.inr hdo)
    exact .inl (listed_of_isName h' (h.tracked d hd) (hcarries ▸ hn))

theorem idKept_of_not_renames (h : Named reg ds) (h' : Named (reg.observe obs now) ds')
    (hclear : ¬ Renames reg obs) {d : Device} (hd : d ∈ ds) :
    IdKept (reg.observe obs now) ds ds' d := by
  cases hid : nonEmpty obs.stableId with
  | none =>
    have hname := h.name d hd
    rw [← carries_observe_none reg now hid] at hname
    exact .inl (listed_of_isName h' (h.tracked d hd) hname)
  | some id =>
    by_cases hfresh : ∀ a, ¬ Carries reg a id
    · exact .inl (kept_of_fresh h h' hclear hid hfresh hd)
    · push Not at hfresh
      obtain ⟨o, ho⟩ := hfresh
      exact idKept_of_owned h h' hid ho hd

/-- The device of a renamed address loses its id. -/
theorem Renames.not_kept (hren : Renames reg obs) (h : Named reg ds)
    (h' : Named (reg.observe obs now) ds') :
    ∃ d ∈ ds, ¬ IdKept (reg.observe obs now) ds ds' d := by
  obtain ⟨htracked, id, hid, hfresh, hlt, old, hold, hne, honly⟩ := hren
  have hcarries := carries_observe_some reg now hid
  obtain ⟨d, hd, hAd, rfl⟩ := h.listed htracked hold
  refine ⟨d, hd, ?_⟩
  rintro (⟨d', hd', heq⟩ | ⟨d₂, hd₂, hd₂d, d', -, hdd', hd₂d', -⟩)
  · have hname' := h'.name d' hd'
    rw [heq, hcarries] at hname'
    by_cases hAd' : Joined (Carries reg) obs.address d'.address
    · have hnew : IsName (addIncidence (Carries reg) obs.address id) IpAddr.toText obs.address id :=
        isName_add_fresh hfresh .refl hlt
      exact hne ((hnew.of_joined hAd'.add).unique hname')
    · have htracked' : d'.address ∈ reg.entries := by
        rcases mem_observe.mp (h'.tracked d' hd') with hA | hmem
        · exact absurd (hA ▸ .refl) hAd'
        · exact hmem
      obtain ⟨d₂, hd₂, hj⟩ := h.covers _ htracked'
      have hbefore := (h.name d₂ hd₂).of_joined hj.symm
      have hafter := hbefore.add_fresh hfresh fun hA => absurd hA.symm hAd'
      exact hAd' (honly _ htracked' (hafter.unique hname' ▸ hbefore))
  · rw [hcarries, joined_add_fresh hfresh] at hdd' hd₂d'
    exact hd₂d (h.eq_of_joined hd₂ hd (hd₂d'.trans hdd'.symm))

end Observe

/-- In every reachable state the next observation keeps the listed ids, up to the
merging of two devices, exactly when it does not bring a device a new least identity. -/
theorem ids_kept_iff (ttl : ℕ) (calls : List Call) (obs : Observation) (now : ℕ)
    (keys keys' : IterOrder IpAddr) (order order' : IterOrder (List IpAddr)) :
    let reg := (DeviceRegistry.new ttl).run calls
    ∃ ds ds', reg.devices keys order = some ds ∧
      (reg.observe obs now).devices keys' order' = some ds' ∧
      ((∀ d ∈ ds, IdKept (reg.observe obs now) ds ds' d) ↔ ¬ Renames reg obs) := by
  intro reg
  obtain ⟨ds, hds, h⟩ := devices_named reg keys order
  obtain ⟨ds', hds', h'⟩ := devices_named (reg.observe obs now) keys' order'
  refine ⟨ds, ds', hds, hds', fun hkept hren => ?_, fun hclear d hd => ?_⟩
  · obtain ⟨d, hd, hlost⟩ := hren.not_kept h h'
    exact hlost (hkept d hd)
  · exact idKept_of_not_renames h h' hclear hd

/-- The announcement of an AirPlay service by a renderer that answered a search first. -/
theorem id_lost :
    ¬ ∀ (ttl : ℕ) (calls : List Call) (obs : Observation) (now : ℕ)
      (keys keys' : IterOrder IpAddr) (order order' : IterOrder (List IpAddr))
      (ds ds' : List Device),
      ((DeviceRegistry.new ttl).run calls).devices keys order = some ds →
      (((DeviceRegistry.new ttl).run calls).observe obs now).devices keys' order' = some ds' →
      ∀ d ∈ ds, IdKept (((DeviceRegistry.new ttl).run calls).observe obs now) ds ds' d := by
  intro h
  have hbefore : (((DeviceRegistry.new 15).run
      [.observe (sampleSighting 5 (some "uuid:1".toList)) 0]).devices (asIs _) (asIs _)).map
        (·.map Device.id) = some ["uuid:1".toList] := by
    decide +kernel
  have hafter : ((((DeviceRegistry.new 15).run
      [.observe (sampleSighting 5 (some "uuid:1".toList)) 0]).observe
        { sampleSighting 5 (some "TV._airplay._tcp.local.".toList) with
          protocol := .airPlayMirror } 1).devices (asIs _) (asIs _)).map (·.map Device.id) =
      some ["TV._airplay._tcp.local.".toList] := by
    decide +kernel
  obtain ⟨ds, hds, hids⟩ := Option.map_eq_some_iff.mp hbefore
  obtain ⟨ds', hds', hids'⟩ := Option.map_eq_some_iff.mp hafter
  obtain ⟨d, rfl, hd⟩ := List.map_eq_singleton_iff.mp hids
  obtain ⟨d', rfl, hd'⟩ := List.map_eq_singleton_iff.mp hids'
  rcases h _ _ _ _ _ _ _ _ _ _ hds hds' d (by simp) with ⟨d₁, hd₁, heq⟩ | ⟨d₂, hd₂, hne, -⟩
  · rw [List.mem_singleton.mp hd₁, hd, hd'] at heq
    revert heq
    decide
  · exact hne (List.mem_singleton.mp hd₂)

end HorizonCast
