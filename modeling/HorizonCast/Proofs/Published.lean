import HorizonCast.Proofs.DiscoveryService
import HorizonCast.Proofs.Merge
import Mathlib.Data.List.Chain

/-! What the discovery service publishes: the devices that were sighted within the time to
live as of the last pass, each once, to every subscriber. -/

namespace HorizonCast.DiscoveryService

open Collections Discovery History Text UnionFind

variable {reader : Ssdp.Descriptions}

/-! ### Live addresses -/

/-- The most recent sighting of the address is at most as old as the time to live. -/
def Live (now : ℕ) (calls : List Call) (a : IpAddr) : Prop :=
  ∃ t after, latest a calls = some (t, after) ∧ now - t ≤ defaultTtl

/-- Right after the latest expiry, the live addresses are tracked. -/
theorem tracked_iff_live {calls : List Call} {now : ℕ} {a : IpAddr}
    (h : ∀ t, .expire t ∈ calls → t ≤ now) :
    tracked defaultTtl a (calls ++ [.expire now]) = true ↔ Live now calls a := by
  rw [tracked_other rfl, Option.any_eq_true]
  constructor
  · rintro ⟨⟨t, after⟩, hlatest, hkeeps⟩
    exact ⟨t, after, hlatest, of_decide_eq_true (Bool.and_eq_true_iff.mp hkeeps).2⟩
  · rintro ⟨t, after, hlatest, hage⟩
    refine ⟨(t, after), hlatest, Bool.and_eq_true_iff.mpr ⟨?_, decide_eq_true hage⟩⟩
    obtain ⟨pre, obs, hcalls, -⟩ := latest_eq_some hlatest
    refine List.all_eq_true.mpr fun c hc => ?_
    cases c with
    | observe => rfl
    | expire t' =>
      -- an earlier expiry found the sighting younger still
      have hle : t' ≤ now := h t' (by simp [hcalls, hc])
      exact decide_eq_true ((Nat.sub_le_sub_right hle t).trans hage)

theorem InTime.expire_le {passes : List Pass} {since now t : ℕ} (h : InTime since passes now)
    (ht : .expire t ∈ passes.flatMap Pass.calls) : t ≤ now := by
  induction passes generalizing since with
  | nil => cases ht
  | cons p passes ih =>
    rw [List.flatMap_cons] at ht
    rcases List.mem_append.mp ht with hp | hrest
    · rcases List.mem_append.mp hp with hobserved | hend
      · obtain ⟨x, -, hx⟩ := List.mem_map.mp hobserved
        cases hx
      · cases List.mem_singleton.mp hend
        exact h.2.2.le
    · exact ih h.2.2 hrest

/-- The calls of the passes, up to the expiry of the last one. -/
theorem calls_concat (passes : List Pass) (p : Pass) :
    (passes ++ [p]).flatMap Pass.calls =
      (passes.flatMap Pass.calls ++ observeCalls p.sightings) ++ [.expire p.elapsed] := by
  simp [Pass.calls]

/-- After a pass the live addresses are tracked. -/
theorem mem_entries_iff_live {passes : List Pass} {p : Pass} {now : ℕ}
    (h : InTime 0 (passes ++ [p]) now) (a : IpAddr) :
    a ∈ ((DeviceRegistry.new defaultTtl).run ((passes ++ [p]).flatMap Pass.calls)).entries ↔
      Live p.elapsed (passes.flatMap Pass.calls ++ observeCalls p.sightings) a := by
  obtain ⟨t, hpasses, hle, -⟩ := inTime_concat.mp h
  rw [← AList.lookup_isSome, run_lookup, entry_isSome, calls_concat]
  refine tracked_iff_live fun t' ht' => ?_
  rcases List.mem_append.mp ht' with hpast | hpending
  · exact (hpasses.expire_le hpast).trans hle
  · obtain ⟨x, -, hx⟩ := List.mem_map.mp hpending
    cases hx

/-! ### The list -/

namespace Refines

variable {s : Service} {passes : List Pass} {pending : List (Observation × ℕ)}

theorem inTime (h : Refines s passes pending) : InTime 0 passes s.clock := by
  have hduring := h.during
  unfold Service.During at hduring
  cases htask : s.task with
  | scanning since browsing search =>
    rw [htask] at hduring
    exact hduring.1.mono hduring.2.1
  | checking | ended =>
    rw [htask] at hduring
    exact hduring.2

/-- Between passes the registry is as the last pass left it. -/
theorem registry_eq (h : Refines s passes []) :
    s.registry = (DeviceRegistry.new defaultTtl).run (passes.flatMap Pass.calls) := by
  obtain ⟨registry, hran, hregistry⟩ := h.ran
  obtain ⟨s', hran', hsame, -⟩ := run_current passes
  cases hran.symm.trans hran'
  exact hregistry.trans hsame

theorem registry_checking (h : Refines s passes pending) (htask : s.task = .checking) :
    s.registry = (DeviceRegistry.new defaultTtl).run (passes.flatMap Pass.calls) := by
  have hduring := h.during
  unfold Service.During at hduring
  rw [htask] at hduring
  obtain ⟨rfl, -⟩ := hduring
  exact h.registry_eq

/-- The list is that of the registry as the last pass left it. -/
theorem listed (h : Refines s passes pending) (keys : IterOrder IpAddr)
    (groups : IterOrder (List IpAddr)) :
    ((DeviceRegistry.new defaultTtl).run (passes.flatMap Pass.calls)).devices keys groups =
      some s.last := by
  obtain ⟨registry, hran, -⟩ := h.ran
  obtain ⟨s', hran', hregistry, hcurrent⟩ := run_current passes
  cases hran.symm.trans hran'
  rw [← hregistry]
  exact hcurrent keys groups

/-- The list has one device for each component of what the last pass left tracked. -/
theorem components (h : Refines s passes pending) :
    OneEachComponent ((DeviceRegistry.new defaultTtl).run (passes.flatMap Pass.calls))
      s.last := by
  let same {α : Type} : IterOrder α := ⟨id, fun l => .refl l⟩
  obtain ⟨ds, hds, hcomponents⟩ := devices_merge
    ((DeviceRegistry.new defaultTtl).run (passes.flatMap Pass.calls)) same same
  rw [h.listed] at hds
  obtain rfl := Option.some.inj hds
  exact hcomponents

end Refines

/-- What is sent differs from what was sent before, and the last of it is the list. -/
theorem run_sent {passes : List Pass} {t : State} (h : Discovery.run passes = some t) :
    t.sent.getLastD [] = t.last ∧ ([] :: t.sent).IsChain (· ≠ ·) := by
  induction passes using List.reverseRecOn generalizing t with
  | nil =>
    cases h
    exact ⟨rfl, .singleton _⟩
  | append_singleton passes p ih =>
    obtain ⟨s, hs, -⟩ := run_current passes
    obtain ⟨s', hs', -, -, hsent⟩ := pass_current s p
    rw [Discovery.run_concat hs, hs'] at h
    obtain rfl := Option.some.inj h
    obtain ⟨hlast, hchain⟩ := ih hs
    by_cases hsame : s'.last = s.last
    · rw [hsent, if_pos hsame, hsame]
      exact ⟨hlast, hchain⟩
    · rw [hsent, if_neg hsame]
      refine ⟨List.getLastD_concat, ?_⟩
      rw [← List.cons_append]
      refine hchain.append (.singleton _) fun x hx y hy => ?_
      rw [List.getLast?_cons, ← List.getLastD_eq_getLast?, hlast] at hx
      obtain rfl := Option.some.inj hx
      obtain rfl := Option.some.inj hy
      exact Ne.symm hsame

theorem Refines.value {s : Service} {passes : List Pass} {pending : List (Observation × ℕ)}
    (h : Refines s passes pending) : s.devices.value = s.last := by
  obtain ⟨registry, hran, -⟩ := h.ran
  rw [Watch.value, h.initial]
  exact (run_sent hran).1

/-- In every order of its steps the service runs its loop pass by pass, each pass with the
sightings that the actions record in it. What it publishes is the device list of the last
pass: each address whose latest sighting was within the time to live at the end of that
pass is in one device, and no others are. -/
theorem published_live {as : List Action} {s : Service} (h : run reader as = some s) :
    let passes := (journal reader as).passes
    Refines s passes (journal reader as).pending ∧ s.devices.value = s.last ∧
      (passes = [] → s.last = []) ∧
      ∀ earlier p, passes = earlier ++ [p] →
        let registry := (DeviceRegistry.new defaultTtl).run (passes.flatMap Pass.calls)
        (∀ a, a ∈ registry.entries ↔
          Live p.elapsed (earlier.flatMap Pass.calls ++ observeCalls p.sightings) a) ∧
        OneEachComponent registry s.last := by
  have hrefines := refines_of_run h
  dsimp only
  generalize (journal reader as).passes = passes at hrefines ⊢
  refine ⟨hrefines, hrefines.value, ?_, ?_⟩
  · rintro rfl
    obtain ⟨registry, hran, -⟩ := hrefines.ran
    exact congrArg State.last (Option.some.inj hran.symm)
  · rintro earlier p rfl
    exact ⟨mem_entries_iff_live hrefines.inTime, hrefines.components⟩

/-- The service finds a television. -/
theorem sampleRun_listed : ∃ s, run sampleReader sampleRun = some s ∧
    ∃ d ∈ s.last, d.dlnaControlUrl = some "http://192.168.1.50:9197/c".toList := by
  have hany : (run sampleReader sampleRun).any (fun s => s.last.any fun d =>
      d.dlnaControlUrl = some "http://192.168.1.50:9197/c".toList) = true := by
    decide +kernel
  obtain ⟨s, hs, hlisted⟩ := (Option.any_eq_true _ _).mp hany
  obtain ⟨d, hd, hurl⟩ := List.any_eq_true.mp hlisted
  exact ⟨s, hs, d, hd, of_decide_eq_true hurl⟩

/-- The sample run has one pass, which tracks the television at its second address too. -/
theorem published_live_television : ∃ s p, run sampleReader sampleRun = some s ∧
    (journal sampleReader sampleRun).passes = [p] ∧ s.devices.value = s.last ∧ s.last ≠ [] ∧
    .v6 ⟨0xFE80 <<< 112 + 1, by decide⟩ ∈ ((DeviceRegistry.new defaultTtl).run p.calls).entries ∧
    OneEachComponent ((DeviceRegistry.new defaultTtl).run p.calls) s.last := by
  have hpasses : (journal sampleReader sampleRun).passes.map Pass.elapsed = [3 * 10 ^ 9] := by
    decide +kernel
  have hlatest : (latest (.v6 ⟨0xFE80 <<< 112 + 1, by decide⟩) (observeCalls
      ((journal sampleReader sampleRun).passes.flatMap Pass.sightings))).map Prod.fst = some 0 := by
    decide +kernel
  obtain ⟨p, hp, helapsed⟩ := List.map_eq_singleton_iff.mp hpasses
  rw [hp, List.flatMap_singleton, Option.map_eq_some_iff] at hlatest
  obtain ⟨⟨t, after⟩, hlatest, rfl⟩ := hlatest
  obtain ⟨s, hs, d, hd, -⟩ := sampleRun_listed
  obtain ⟨-, hvalue, -, hlast⟩ := published_live hs
  obtain ⟨htracked, hcomponents⟩ := hlast [] p hp
  rw [hp, List.flatMap_singleton] at htracked hcomponents
  refine ⟨s, p, hs, hp, hvalue, List.ne_nil_of_mem hd, ?_, hcomponents⟩
  exact (htracked _).mpr ⟨0, after, hlatest, by rw [helapsed]; decide⟩

/-! ### Subscribers -/

/-- Every subscriber keeps up with the channel. -/
def Service.Followed (s : Service) : Prop := ∀ r ∈ s.subscribers, r.Follows s.devices

theorem Service.Followed.step {s s' : Service} {a : Action} (h : s.Followed)
    (hmove : Moves reader s a s') : s'.Followed := by
  cases hmove with
  | scanned htask hscan =>
    obtain ⟨browsing', search', rfl, -⟩ := hscan.next
    exact h
  | @passEnded keys groups since snapshot =>
    intro r hr
    dsimp only
    split_ifs
    · exact h r hr
    · exact (h r hr).send snapshot
  | subscribed =>
    intro r hr
    rcases List.mem_append.mp hr with hold | hnew
    · exact h r hold
    · cases List.mem_singleton.mp hnew
      exact Watch.Receiver.follows_new _
  | taken hfound htook =>
    intro r hr
    rcases List.mem_or_eq_of_mem_set hr with hold | rfl
    · exact h r hold
    · exact (h _ (List.mem_of_getElem? hfound)).take htook
  | ticked | ended | began | stopped => exact h

/-- In every run each list that is published differs from the one before it. A subscriber
takes some of them, in order and each at most once, and holds the device list of the last
pass when there is nothing new for it. -/
theorem subscribers_follow {as : List Action} {s : Service} (h : run reader as = some s) :
    ([] :: s.devices.sent).IsChain (· ≠ ·) ∧
      ∀ r ∈ s.subscribers, r.taken.Sublist s.devices.sent ∧
        (s.devices.take r = none → r.held [] = s.last) := by
  have hrefines := refines_of_run h
  obtain ⟨registry, hran, -⟩ := hrefines.ran
  have hfollowed : s.Followed := Transition.run_invariant (fun _ s => s.Followed) nofun
    (fun _ hfollowed hstep => hfollowed.step (moves_of_step hstep)) h
  refine ⟨(run_sent hran).2, fun r hr => ⟨(hfollowed r hr).sublist, fun hcurrent => ?_⟩⟩
  have hheld := (hfollowed r hr).held_eq hcurrent
  rwa [hrefines.initial, hrefines.value] at hheld

theorem subscribers_follow_television : ∃ s, run sampleReader sampleRun = some s ∧
    ∀ r ∈ s.subscribers, r.taken.Sublist s.devices.sent := by
  obtain ⟨s, hs, -⟩ := sampleRun_listed
  exact ⟨s, hs, fun r hr => ((subscribers_follow hs).2 r hr).1⟩

end HorizonCast.DiscoveryService
