import HorizonCast.Proofs.Coalesce
import HorizonCast.Proofs.DiscoverySteps

/-! The discovery service in any order of its steps. It runs passes one after another, as
the loop does that sees a pass as one step, and what it publishes is the list of the last
pass. -/

namespace HorizonCast.DiscoveryService

open Collections Discovery History Ssdp Text

variable {reader : Descriptions}

/-! ### Passes -/

/-- The passes follow each other between two times, and each stamps what it sights in its
own time. -/
def InTime : ℕ → List Pass → ℕ → Prop
  | since, [], now => since ≤ now
  | since, p :: passes, now =>
    since ≤ p.elapsed ∧ (∀ x ∈ p.sightings, since ≤ x.2 ∧ x.2 ≤ p.elapsed) ∧
      InTime p.elapsed passes now

theorem InTime.le {passes : List Pass} {since now : ℕ} (h : InTime since passes now) :
    since ≤ now := by
  induction passes generalizing since with
  | nil => exact h
  | cons p passes ih => exact h.1.trans (ih h.2.2)

theorem InTime.mono {passes : List Pass} {since now now' : ℕ} (h : InTime since passes now)
    (hle : now ≤ now') : InTime since passes now' := by
  induction passes generalizing since with
  | nil => exact Nat.le_trans h hle
  | cons p passes ih => exact ⟨h.1, h.2.1, ih h.2.2⟩

theorem inTime_concat {passes : List Pass} {p : Pass} {since now : ℕ} :
    InTime since (passes ++ [p]) now ↔ ∃ t, InTime since passes t ∧ t ≤ p.elapsed ∧
      (∀ x ∈ p.sightings, t ≤ x.2 ∧ x.2 ≤ p.elapsed) ∧ p.elapsed ≤ now := by
  induction passes generalizing since with
  | nil =>
    constructor
    · rintro ⟨hsince, hstamps, hnow⟩
      exact ⟨since, Nat.le_refl _, hsince, hstamps, hnow⟩
    · rintro ⟨t, hsince, ht, hstamps, hnow⟩
      exact ⟨Nat.le_trans hsince ht,
        fun x hx => ⟨Nat.le_trans hsince (hstamps x hx).1, (hstamps x hx).2⟩, hnow⟩
  | cons q passes ih =>
    rw [List.cons_append, InTime, ih]
    constructor
    · rintro ⟨hq, hq', t, ht, hrest⟩
      exact ⟨t, ⟨hq, hq', ht⟩, hrest⟩
    · rintro ⟨t, ⟨hq, hq', ht⟩, hrest⟩
      exact ⟨hq, hq', t, ht, hrest⟩

/-- The times of the service: what is pending belongs to the pass that is going on. -/
def Service.During (s : Service) (passes : List Pass) (pending : List (Observation × ℕ)) : Prop :=
  match s.task with
  | .scanning since _ _ =>
    InTime 0 passes since ∧ since ≤ s.clock ∧ ∀ x ∈ pending, since ≤ x.2 ∧ x.2 ≤ s.clock
  | .checking | .ended => pending = [] ∧ InTime 0 passes s.clock

/-- The service has run these passes, and has recorded the pending sightings of the next
one. -/
structure Refines (s : Service) (passes : List Pass) (pending : List (Observation × ℕ)) :
    Prop where
  ran : ∃ registry, Discovery.run passes = some ⟨registry, s.last, s.devices.sent⟩ ∧
    s.registry = registry.run (observeCalls pending)
  initial : s.devices.initial = []
  during : s.During passes pending

theorem refines_init : Refines {} [] [] := ⟨⟨_, rfl, rfl⟩, rfl, rfl, Nat.le_refl _⟩

/-! ### The journal -/

theorem journal_concat (as : List Action) (a : Action) :
    journal reader (as ++ [a]) = (journal reader as).record reader a :=
  List.foldl_concat _ _ _ _

theorem record_within {a : Action} (hwithin : a.isPassEnd = false) (j : Journal) :
    j.record reader a = { j with
      clock := j.clock + a.ticks
      pending := j.pending ++ a.sightings reader j.clock } := by
  cases a with
  | passEnded => cases hwithin
  | _ => rfl

/-- What an action records is never lost. -/
theorem sightings_record (j : Journal) (a : Action) :
    (j.record reader a).sightings = j.sightings ++ a.sightings reader j.clock := by
  cases hend : a.isPassEnd with
  | false => rw [record_within hend, Journal.sightings, Journal.sightings, List.append_assoc]
  | true =>
    cases a with
    | passEnded keys groups =>
      rw [sightings_eq_nil rfl]
      simp [Journal.record, Journal.sightings]
    | _ => cases hend

theorem Moves.clock {s s' : Service} {a : Action} (h : Moves reader s a s') :
    s'.clock = s.clock + a.ticks := by
  cases h with
  | scanned htask hscan =>
    have hscans := hscan.isScan
    obtain ⟨browsing', search', rfl, -⟩ := hscan.next
    cases a <;> first | rfl | cases hscans
  | _ => rfl

namespace Refines

variable {s s' : Service} {passes : List Pass} {pending : List (Observation × ℕ)}

theorem scan {since : ℕ} {browsing : Bool} {search : SearchTask} {a : Action}
    (h : Refines s passes pending) (htask : s.task = .scanning since browsing search)
    (hscan : Scans reader s since search a s') :
    Refines s' passes (pending ++ a.sightings reader s.clock) := by
  obtain ⟨⟨registry, hran, hregistry⟩, hinitial, hduring⟩ := h
  obtain ⟨browsing', search', rfl, -⟩ := hscan.next
  unfold Service.During at hduring
  rw [htask] at hduring
  obtain ⟨hpasses, hsince, hpending⟩ := hduring
  refine ⟨⟨registry, hran, ?_⟩, hinitial, hpasses, hsince, fun x hx => ?_⟩
  · simp only [hregistry, run_observeCalls, List.foldl_append]
  · rcases List.mem_append.mp hx with hold | hnew
    · exact hpending x hold
    · rcases hscan.inTime x hnew with hnow | hstamp
      · rw [hnow]
        exact ⟨hsince, Nat.le_refl _⟩
      · exact hstamp

theorem endPass {since : ℕ} {keys : IterOrder IpAddr} {groups : IterOrder (List IpAddr)}
    {snapshot : List Device} (h : Refines s passes pending)
    (htask : s.task = .scanning since false (.enriching []))
    (hlisted : (s.registry.expire s.clock).devices keys groups = some snapshot) :
    Refines { s with
        registry := s.registry.expire s.clock
        last := snapshot
        devices := if snapshot = s.last then s.devices else s.devices.send snapshot
        task := .checking } (passes ++ [⟨pending, s.clock, keys, groups⟩]) [] := by
  obtain ⟨⟨registry, hran, hregistry⟩, hinitial, hduring⟩ := h
  unfold Service.During at hduring
  rw [htask] at hduring
  obtain ⟨hpasses, hsince, hpending⟩ := hduring
  refine ⟨⟨s.registry.expire s.clock, ?_, rfl⟩, ?_, rfl, ?_⟩
  · have hcalls : registry.run (Pass.calls ⟨pending, s.clock, keys, groups⟩) =
        s.registry.expire s.clock := by
      rw [Pass.calls, HorizonCast.run_concat, ← hregistry]
      rfl
    rw [Discovery.run_concat hran, State.pass]
    simp only [hcalls, hlisted, Option.bind_eq_bind, Option.bind_some]
    by_cases hsame : snapshot = s.last
    · rw [if_neg (not_not_intro hsame), if_pos hsame, hsame]
    · rw [if_pos hsame, if_neg hsame]
      rfl
  · dsimp only
    split_ifs <;> exact hinitial
  · exact inTime_concat.mpr ⟨since, hpasses, hsince, hpending, Nat.le_refl _⟩

/-- Within a pass what an action records is added to what is pending. -/
theorem within {a : Action} (h : Refines s passes pending) (hmove : Moves reader s a s')
    (hwithin : a.isPassEnd = false) :
    Refines s' passes (pending ++ a.sightings reader s.clock) := by
  obtain ⟨hran, hinitial, hduring⟩ := h
  cases hmove with
  | scanned htask hscan => exact scan ⟨hran, hinitial, hduring⟩ htask hscan
  | passEnded => cases hwithin
  | ticked ns =>
    rw [sightings_eq_nil rfl, List.append_nil]
    refine ⟨hran, hinitial, ?_⟩
    have hlater : s.clock ≤ s.clock + ns := Nat.le_add_right _ _
    unfold Service.During at hduring ⊢
    cases htask : s.task with
    | scanning since browsing search =>
      rw [htask] at hduring
      obtain ⟨hpasses, hsince, hpending⟩ := hduring
      exact ⟨hpasses, hsince.trans hlater,
        fun x hx => ⟨(hpending x hx).1, (hpending x hx).2.trans hlater⟩⟩
    | checking | ended =>
      rw [htask] at hduring
      exact ⟨hduring.1, hduring.2.mono hlater⟩
  | ended htask =>
    rw [sightings_eq_nil rfl, List.append_nil]
    refine ⟨hran, hinitial, ?_⟩
    unfold Service.During at hduring
    rw [htask] at hduring
    exact hduring
  | began htask =>
    rw [sightings_eq_nil rfl, List.append_nil]
    refine ⟨hran, hinitial, ?_⟩
    unfold Service.During at hduring
    rw [htask] at hduring
    obtain ⟨rfl, hpasses⟩ := hduring
    exact ⟨hpasses, Nat.le_refl _, nofun⟩
  | subscribed | taken | stopped =>
    rw [sightings_eq_nil rfl, List.append_nil]
    exact ⟨hran, hinitial, hduring⟩

/-- What an action records stays in the journal. -/
theorem record {j : Journal} {a : Action} (h : Refines s j.passes j.pending)
    (hclock : s.clock = j.clock) (hmove : Moves reader s a s') :
    Refines s' (j.record reader a).passes (j.record reader a).pending ∧
      s'.clock = (j.record reader a).clock := by
  cases hend : a.isPassEnd with
  | false =>
    rw [record_within hend]
    dsimp only
    rw [← hclock]
    exact ⟨h.within hmove hend, hmove.clock⟩
  | true =>
    cases hmove with
    | passEnded htask hlisted =>
      refine ⟨?_, hclock⟩
      dsimp only [Journal.record]
      rw [← hclock]
      exact h.endPass htask hlisted
    | scanned htask hscan =>
      rw [hscan.notPassEnd] at hend
      cases hend
    | _ => cases hend

end Refines

/-- However its steps are ordered, the service runs its loop pass by pass: the list, what
was sent and the registry are those of the passes in turn, each with what the backends
recorded in it, and what they record meanwhile belongs to the next pass. -/
theorem refines_of_run {as : List Action} {s : Service} (h : run reader as = some s) :
    Refines s (journal reader as).passes (journal reader as).pending := by
  refine (Transition.run_invariant (fun as s =>
    Refines s (journal reader as).passes (journal reader as).pending ∧
      s.clock = (journal reader as).clock) ⟨refines_init, rfl⟩ ?_ h).1
  intro as s a s' _ ⟨hrefines, hclock⟩ hstep
  rw [journal_concat]
  exact hrefines.record hclock (moves_of_step hstep)

end HorizonCast.DiscoveryService
