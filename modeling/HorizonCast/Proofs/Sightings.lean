import HorizonCast.Proofs.DeviceIds

/-! Sightings recorded out of order. An observation stamps its address with its own
time, older or not, so the order of two sightings of one address decides how long it
stays tracked. -/

namespace HorizonCast

open Collections Text

namespace DeviceRegistry

variable {reg : DeviceRegistry}

/-- The stamp of the sighting of `a` that was recorded last. -/
def lastSeen (reg : DeviceRegistry) (a : IpAddr) : Option ℕ :=
  (reg.entries.lookup a).map Entry.lastSeen

theorem lastSeen_observe (reg : DeviceRegistry) (obs : Observation) (t : ℕ) (a : IpAddr) :
    (reg.observe obs t).lastSeen a = if a = obs.address then some t else reg.lastSeen a := by
  unfold lastSeen observe
  split_ifs with ha
  · subst ha
    rw [AList.lookup_insert]
    rfl
  · rw [AList.lookup_insert_ne ha]

theorem mem_expire {now : ℕ} {a : IpAddr} :
    a ∈ (reg.expire now).entries ↔ ∃ t, reg.lastSeen a = some t ∧ now - t ≤ reg.ttl := by
  rw [← AList.lookup_isSome, expire, lookup_retain, Option.isSome_filter]
  unfold lastSeen
  cases reg.entries.lookup a with
  | none => simp
  | some e => simp

/-- The stamps of the sightings of `a`: the one on record and the new ones. -/
def stamps (reg : DeviceRegistry) (sightings : List (Observation × ℕ)) (a : IpAddr) : List ℕ :=
  (reg.lastSeen a).toList ++ (sightings.filter fun s => s.1.address = a).map Prod.snd

/-- Recorded in either order the two sightings leave the same addresses tracked by
any later time, and whatever was seen within the time to live is among them. -/
def SightingsCommute (reg : DeviceRegistry) (o₁ o₂ : Observation) (t₁ t₂ : ℕ) : Prop :=
  ∀ now a,
    let inOrder := ((reg.observe o₁ t₁).observe o₂ t₂).expire now
    let swapped := ((reg.observe o₂ t₂).observe o₁ t₁).expire now
    (a ∈ inOrder.entries ↔ a ∈ swapped.entries) ∧
      ∀ t ∈ reg.stamps [(o₁, t₁), (o₂, t₂)] a, now - t ≤ reg.ttl →
        a ∈ inOrder.entries ∧ a ∈ swapped.entries

/-- No later sighting of the address is on record. -/
def UpToDate (reg : DeviceRegistry) (obs : Observation) (t : ℕ) : Prop :=
  ∀ last, reg.lastSeen obs.address = some last → last ≤ t

theorem mem_stamps {o₁ o₂ : Observation} {t₁ t₂ t : ℕ} {a : IpAddr} :
    t ∈ reg.stamps [(o₁, t₁), (o₂, t₂)] a ↔
      reg.lastSeen a = some t ∨ (a = o₁.address ∧ t = t₁) ∨ (a = o₂.address ∧ t = t₂) := by
  rw [stamps, List.mem_append, Option.mem_toList]
  refine or_congr Iff.rfl ?_
  by_cases h₁ : o₁.address = a
  · by_cases h₂ : o₂.address = a
    · simp [h₁, h₂]
    · simp [h₁, h₂, Ne.symm h₂]
  · by_cases h₂ : o₂.address = a
    · simp [h₁, h₂, Ne.symm h₁]
    · simp [h₁, h₂, Ne.symm h₁, Ne.symm h₂]

/-- An address stays tracked for the time to live of a sighting exactly when the stamp
on record is not older. -/
theorem kept_iff {t : ℕ} {a : IpAddr} :
    (∀ now, now - t ≤ reg.ttl → a ∈ (reg.expire now).entries) ↔
      ∃ last, reg.lastSeen a = some last ∧ t ≤ last := by
  constructor
  · intro h
    obtain ⟨last, hlast, hage⟩ := mem_expire.mp (h (t + reg.ttl) (by omega))
    exact ⟨last, hlast, by omega⟩
  · rintro ⟨last, hlast, hle⟩ now hnow
    exact mem_expire.mpr ⟨last, hlast, by omega⟩

/-- The order does not matter exactly when the stamp recorded last is the freshest
one in both. -/
theorem sightingsCommute_iff_freshest {o₁ o₂ : Observation} {t₁ t₂ : ℕ} :
    reg.SightingsCommute o₁ o₂ t₁ t₂ ↔
      ∀ a, ∀ t ∈ reg.stamps [(o₁, t₁), (o₂, t₂)] a,
        (∃ last, ((reg.observe o₁ t₁).observe o₂ t₂).lastSeen a = some last ∧ t ≤ last) ∧
          ∃ last, ((reg.observe o₂ t₂).observe o₁ t₁).lastSeen a = some last ∧ t ≤ last := by
  constructor
  · intro h a t ht
    exact ⟨kept_iff.mp fun now hnow => ((h now a).2 t ht hnow).1,
      kept_iff.mp fun now hnow => ((h now a).2 t ht hnow).2⟩
  · intro h now a
    refine ⟨⟨fun ha => ?_, fun ha => ?_⟩, fun t ht hnow =>
      ⟨kept_iff.mpr (h a t ht).1 now hnow, kept_iff.mpr (h a t ht).2 now hnow⟩⟩
    all_goals
      obtain ⟨t, ht, hnow⟩ := mem_expire.mp ha
      have hmem : t ∈ reg.stamps [(o₁, t₁), (o₂, t₂)] a := by
        rw [lastSeen_observe, lastSeen_observe] at ht
        rw [mem_stamps]
        split_ifs at ht <;> simp_all
    · exact kept_iff.mpr (h a t hmem).2 now hnow
    · exact kept_iff.mpr (h a t hmem).1 now hnow

/-- Two sightings that are up to date leave no address with an older stamp. -/
theorem freshest_of_upToDate {o₁ o₂ : Observation} {t₁ t₂ : ℕ}
    (hsame : o₁.address = o₂.address → t₁ = t₂) (h₁ : reg.UpToDate o₁ t₁)
    (h₂ : reg.UpToDate o₂ t₂) {a : IpAddr} {t : ℕ}
    (ht : reg.lastSeen a = some t ∨ (a = o₁.address ∧ t = t₁) ∨ (a = o₂.address ∧ t = t₂)) :
    ∃ last, ((reg.observe o₁ t₁).observe o₂ t₂).lastSeen a = some last ∧ t ≤ last := by
  rw [lastSeen_observe, lastSeen_observe]
  by_cases ha₂ : a = o₂.address
  · refine ⟨t₂, if_pos ha₂, ?_⟩
    rcases ht with ht | ⟨ha₁, rfl⟩ | ⟨-, rfl⟩
    · exact h₂ t (ha₂ ▸ ht)
    · exact (hsame (ha₁.symm.trans ha₂)).le
    · exact le_rfl
  · rw [if_neg ha₂]
    by_cases ha₁ : a = o₁.address
    · refine ⟨t₁, if_pos ha₁, ?_⟩
      rcases ht with ht | ⟨-, rfl⟩ | ⟨ha, -⟩
      · exact h₁ t (ha₁ ▸ ht)
      · exact le_rfl
      · exact absurd ha ha₂
    · refine ⟨t, ?_, le_rfl⟩
      rw [if_neg ha₁]
      rcases ht with ht | ⟨ha, -⟩ | ⟨ha, -⟩
      · exact ht
      · exact absurd ha ha₁
      · exact absurd ha ha₂

/-- Two sightings commute exactly when they are of two addresses or have one stamp,
and neither is older than what is on record for its address. -/
theorem sightings_commute_iff (reg : DeviceRegistry) (o₁ o₂ : Observation) (t₁ t₂ : ℕ) :
    reg.SightingsCommute o₁ o₂ t₁ t₂ ↔
      (o₁.address = o₂.address → t₁ = t₂) ∧ reg.UpToDate o₁ t₁ ∧ reg.UpToDate o₂ t₂ := by
  rw [sightingsCommute_iff_freshest]
  simp only [mem_stamps]
  constructor
  · intro h
    simp only [lastSeen_observe] at h
    refine ⟨fun hsame => ?_, fun last hlast => ?_, fun last hlast => ?_⟩
    · obtain ⟨⟨l, hl, hle⟩, -⟩ := h o₂.address t₁ (.inr (.inl ⟨hsame.symm, rfl⟩))
      obtain ⟨-, l', hl', hle'⟩ := h o₁.address t₂ (.inr (.inr ⟨hsame, rfl⟩))
      rw [if_pos rfl] at hl hl'
      cases hl
      cases hl'
      exact le_antisymm hle hle'
    · obtain ⟨-, l, hl, hle⟩ := h o₁.address last (.inl hlast)
      rw [if_pos rfl] at hl
      cases hl
      exact hle
    · obtain ⟨⟨l, hl, hle⟩, -⟩ := h o₂.address last (.inl hlast)
      rw [if_pos rfl] at hl
      cases hl
      exact hle
  · rintro ⟨hsame, h₁, h₂⟩ a t ht
    exact ⟨freshest_of_upToDate hsame h₁ h₂ ht,
      freshest_of_upToDate (fun h => (hsame h.symm).symm) h₂ h₁ (ht.imp_right Or.symm)⟩

/-- A sighting stamped at 1 and recorded after one stamped at 2: with a time to live
of 10 the address is dropped at 12. -/
theorem older_stamp_expires :
    ¬ ∀ (reg : DeviceRegistry) (o₁ o₂ : Observation) (t₁ t₂ : ℕ),
      reg.SightingsCommute o₁ o₂ t₁ t₂ := by
  intro h
  obtain ⟨-, hkept⟩ := h (.new 10) (sampleSighting 5 none) (sampleSighting 5 none) 1 2 12
    (sampleSighting 5 none).address
  have hswapped := (hkept 2 (by decide +kernel) (by decide)).2
  revert hswapped
  decide +kernel

end DeviceRegistry

end HorizonCast
