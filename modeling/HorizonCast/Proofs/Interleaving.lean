import HorizonCast.Proofs.DeviceIds
import HorizonCast.Proofs.Resighting

/-! The race of the backends. How the sightings of different addresses interleave within a
pass, and when exactly each was made, does not show in what the service publishes. -/

namespace HorizonCast

open Collections Discovery Text

/-! ### One address -/

/-- What a sighting makes of the entry of its address. -/
def Entry.sight (e : Option Entry) (s : Observation × ℕ) : Option Entry :=
  some ((e.getD (.vacant s.2)).record s.1 s.2)

/-- The sightings of an address. -/
def sightingsOf (a : IpAddr) (sightings : List (Observation × ℕ)) : List (Observation × ℕ) :=
  sightings.filter fun s => s.1.address = a

/-- The entry of an address is made by the sightings of that address. -/
theorem lookup_observeCalls (reg : DeviceRegistry) (sightings : List (Observation × ℕ))
    (a : IpAddr) : (reg.run (observeCalls sightings)).entries.lookup a =
      (sightingsOf a sightings).foldl Entry.sight (reg.entries.lookup a) := by
  induction sightings generalizing reg with
  | nil => rfl
  | cons s sightings ih =>
    have hrun : reg.run (observeCalls (s :: sightings)) =
        (reg.observe s.1 s.2).run (observeCalls sightings) := rfl
    rw [hrun, ih, sightingsOf, sightingsOf, List.filter_cons]
    by_cases ha : s.1.address = a
    · subst ha
      rw [if_pos (decide_eq_true rfl), List.foldl_cons, DeviceRegistry.observe,
        AList.lookup_insert]
      rfl
    · rw [if_neg (by simpa using ha), DeviceRegistry.observe, AList.lookup_insert_ne (Ne.symm ha)]

/-- The entries differ in their time only. -/
def Alike (e e' : Option Entry) : Prop := ∃ t, e' = e.map (Entry.touch · t)

theorem alike_refl (e : Option Entry) : Alike e e := by
  cases e with
  | none => exact ⟨0, rfl⟩
  | some e => exact ⟨e.lastSeen, rfl⟩

/-- A sighting sets the time, so the times before it do not matter. -/
theorem alike_sight {e e' : Option Entry} (h : Alike e e') {s s' : Observation × ℕ}
    (hsame : s.1 = s'.1) : Alike (Entry.sight e s) (Entry.sight e' s') := by
  obtain ⟨t, rfl⟩ := h
  refine ⟨s'.2, ?_⟩
  rw [Entry.sight, Entry.sight, ← hsame]
  cases e <;> rfl

theorem alike_foldl {l l' : List (Observation × ℕ)} (h : l.map Prod.fst = l'.map Prod.fst)
    {e e' : Option Entry} (he : Alike e e') :
    Alike (l.foldl Entry.sight e) (l'.foldl Entry.sight e') := by
  induction l generalizing l' e e' with
  | nil =>
    obtain rfl := List.map_eq_nil_iff.mp h.symm
    exact he
  | cons s l ih =>
    cases l' with
    | nil => cases h
    | cons s' l' =>
      obtain ⟨hobs, hrest⟩ := List.cons.inj h
      exact ih hrest (alike_sight he hobs)

/-- The last sighting sets the time. -/
theorem foldl_sight_lastSeen {l : List (Observation × ℕ)} (h : l ≠ []) (e : Option Entry) :
    ∃ x ∈ l, ∃ e', l.foldl Entry.sight e = some e' ∧ e'.lastSeen = x.2 := by
  obtain ⟨l, x, rfl⟩ := List.eq_nil_or_concat' l |>.resolve_left h
  rw [List.foldl_append]
  exact ⟨x, by simp, _, rfl, rfl⟩

/-! ### One pass -/

/-- The passes sight each address alike: the same observations in the same order, whenever
and however interleaved with those of other addresses. -/
def SightAlike (sightings sightings' : List (Observation × ℕ)) : Prop :=
  ∀ a, (sightingsOf a sightings).map Prod.fst = (sightingsOf a sightings').map Prod.fst

theorem touched_expire_alike {reg : DeviceRegistry} {sightings sightings' : List (Observation × ℕ)}
    {now : ℕ} (h : SightAlike sightings sightings')
    (hfresh : ∀ x ∈ sightings ++ sightings', now - x.2 ≤ reg.ttl) :
    Touched ((reg.run (observeCalls sightings)).expire now)
      ((reg.run (observeCalls sightings')).expire now) where
  ttl := by
    rw [DeviceRegistry.expire, DeviceRegistry.expire]
    exact (run_ttl reg _).trans (run_ttl reg _).symm
  entries a := by
    -- what the pass has sighted stays
    have hkept : ∀ {l}, (∀ x ∈ l, x ∈ sightings ++ sightings') → sightingsOf a l ≠ [] →
        (((reg.run (observeCalls l)).entries.lookup a).filter fun e =>
          now - e.lastSeen ≤ (reg.run (observeCalls l)).ttl) =
            (reg.run (observeCalls l)).entries.lookup a := by
      intro l hl hne
      obtain ⟨x, hx, e, he, hlast⟩ := foldl_sight_lastSeen hne (reg.entries.lookup a)
      rw [lookup_observeCalls, he, run_ttl]
      refine Option.filter_some_pos (decide_eq_true ?_)
      rw [hlast]
      exact hfresh x (hl x (List.mem_of_mem_filter hx))
    rw [DeviceRegistry.expire, DeviceRegistry.expire, lookup_retain, lookup_retain]
    by_cases hne : sightingsOf a sightings = []
    · have hne' : sightingsOf a sightings' = [] :=
        List.map_eq_nil_iff.mp ((h a).symm.trans (by rw [hne]; rfl))
      rw [lookup_observeCalls, lookup_observeCalls, hne, hne', run_ttl, run_ttl]
      exact alike_refl _
    · have hne' : sightingsOf a sightings' ≠ [] := fun hnil =>
        hne (List.map_eq_nil_iff.mp ((h a).trans (by rw [hnil]; rfl)))
      rw [hkept (fun x hx => List.mem_append_left _ hx) hne,
        hkept (fun x hx => List.mem_append_right _ hx) hne', lookup_observeCalls,
        lookup_observeCalls]
      exact alike_foldl (h a) (alike_refl (reg.entries.lookup a))

/-- Two passes that end at the same time and sight each address alike, within the time to
live, leave the same list and publish the same, however the backends race. -/
theorem race_does_not_show (s : State) {p p' : Pass} (hend : p.elapsed = p'.elapsed)
    (h : SightAlike p.sightings p'.sightings)
    (hfresh : ∀ x ∈ p.sightings ++ p'.sightings, p.elapsed - x.2 ≤ s.registry.ttl) :
    ∃ t t', s.pass p = some t ∧ s.pass p' = some t' ∧ t.last = t'.last ∧ t.sent = t'.sent := by
  obtain ⟨t, ht, hreg, hcurrent, hsent⟩ := pass_current s p
  obtain ⟨t', ht', hreg', hcurrent', hsent'⟩ := pass_current s p'
  have htouched : Touched t.registry t'.registry := by
    rw [hreg, hreg', Pass.calls, Pass.calls, HorizonCast.run_concat, HorizonCast.run_concat, ← hend]
    exact touched_expire_alike h hfresh
  have hlast : t.last = t'.last := by
    have hsame := htouched.devices p.keys p.keys p.groups p.groups
    rw [hcurrent, hcurrent'] at hsame
    exact (Option.some.inj hsame).symm
  refine ⟨t, t', ht, ht', hlast, ?_⟩
  rw [hsent, hsent', hlast]

/-- Two televisions are sighted in one order and in the other. -/
theorem race_does_not_show_two :
    let first := sampleSighting 5 (some "uuid:1".toList)
    let second := sampleSighting 7 none
    let p : Pass := ⟨[(first, 1), (second, 2)], 3, asIs _, asIs _⟩
    let p' : Pass := ⟨[(second, 1), (first, 3)], 3, asIs _, asIs _⟩
    ∃ t t', start.pass p = some t ∧ start.pass p' = some t' ∧ t.sent = t'.sent := by
  intro first second p p'
  have halike : SightAlike p.sightings p'.sightings := by
    intro a
    by_cases hfirst : first.address = a
    · have hsecond : second.address ≠ a := fun h => absurd (hfirst.trans h.symm) (by decide)
      simp [sightingsOf, p, p', hfirst, hsecond]
    · by_cases hsecond : second.address = a <;> simp [sightingsOf, p, p', hfirst, hsecond]
  obtain ⟨t, t', ht, ht', -, hsent⟩ :=
    race_does_not_show start (show p.elapsed = p'.elapsed from rfl) halike (by decide)
  exact ⟨t, t', ht, ht', hsent⟩

end HorizonCast
