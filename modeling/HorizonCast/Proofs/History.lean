import HorizonCast.Spec.History

/-! The registry refines its history: after any calls at any times, each entry is
the one computed from the calls alone. -/

namespace HorizonCast

open Collections Text History

/-! ### One more call -/

theorem latest_concat (a : IpAddr) (calls : List Call) (c : Call) :
    latest a (calls ++ [c]) =
      match c.sighting a with
      | some s => some (s.2, [])
      | none => (latest a calls).map fun r => (r.1, r.2 ++ [c]) := by
  induction calls with
  | nil =>
    cases h : c.sighting a with
    | none => simp [latest, h]
    | some s => simp [latest, h]
  | cons d calls ih =>
    rw [List.cons_append, latest, ih]
    cases h : c.sighting a with
    | none =>
      cases hl : latest a calls with
      | none => cases hd : d.sighting a <;> simp [latest, hl, hd]
      | some r => simp [latest, hl]
    | some s => simp

/-- The most recent sighting is the last one of the calls. -/
theorem latest_eq_some {a : IpAddr} {calls after : List Call} {t : ℕ}
    (h : latest a calls = some (t, after)) :
    ∃ pre obs, calls = pre ++ .observe obs t :: after ∧ obs.address = a := by
  induction calls with
  | nil => cases h
  | cons c calls ih =>
    rw [latest, Option.or_eq_some_iff] at h
    rcases h with h | ⟨-, h⟩
    · obtain ⟨pre, obs, hcalls, ha⟩ := ih h
      exact ⟨c :: pre, obs, by rw [hcalls, List.cons_append], ha⟩
    · obtain ⟨⟨obs, now⟩, hs, heq⟩ := Option.map_eq_some_iff.mp h
      obtain ⟨rfl, rfl⟩ := Prod.mk.inj heq
      cases c with
      | observe o n =>
        obtain ⟨ha, heq⟩ := Option.ite_none_right_eq_some.mp hs
        cases heq
        exact ⟨[], obs, rfl, ha⟩
      | expire n => cases hs

theorem tracked_sighting {a : IpAddr} {c : Call} {s : Observation × ℕ} (h : c.sighting a = some s)
    (ttl : ℕ) (calls : List Call) : tracked ttl a (calls ++ [c]) = true := by
  simp [tracked, latest_concat, h]

theorem tracked_other {a : IpAddr} {c : Call} (h : c.sighting a = none) (ttl : ℕ)
    (calls : List Call) :
    tracked ttl a (calls ++ [c]) =
      (latest a calls).any fun (t, after) => after.all (Call.keeps ttl t) && c.keeps ttl t := by
  simp [tracked, latest_concat, h, Option.any_map]

theorem seen_eq (ttl : ℕ) (a : IpAddr) (calls : List Call) :
    seen ttl a calls =
      ((since (fun calls => tracked ttl a calls = false) calls).filterMap
        (Call.sighting a)).map Prod.fst := rfl

theorem seen_of_untracked {ttl : ℕ} {a : IpAddr} {calls : List Call}
    (h : tracked ttl a calls = false) : seen ttl a calls = [] := by
  rw [seen_eq, since_of_holds h]
  rfl

/-- A call that leaves `a` tracked adds its sighting, if it is one. -/
theorem seen_concat {ttl : ℕ} {a : IpAddr} {calls : List Call} {c : Call}
    (h : tracked ttl a (calls ++ [c]) = true) :
    seen ttl a (calls ++ [c]) = seen ttl a calls ++ ((c.sighting a).map Prod.fst).toList := by
  rw [seen_eq, seen_eq, since_concat (by simp [h]), List.filterMap_append, List.map_append]
  cases h : c.sighting a <;> simp [h]

/-- What is tracked was seen. -/
theorem seen_ne_nil {ttl : ℕ} {a : IpAddr} {calls : List Call}
    (h : tracked ttl a calls = true) : seen ttl a calls ≠ [] := by
  induction calls using List.reverseRecOn with
  | nil => simp [tracked, latest] at h
  | append_singleton calls c ih =>
    rw [seen_concat h]
    cases hs : c.sighting a with
    | some s => simp
    | none =>
      have hbefore : tracked ttl a calls = true := by
        rw [tracked_other hs] at h
        unfold tracked
        cases hl : latest a calls with
        | none => simp [hl] at h
        | some r =>
          rw [hl] at h
          exact (Bool.and_eq_true_iff.mp h).1
      simpa using ih hbefore

/-! ### Entries -/

@[simp] theorem summary_lastSeen (obs : List Observation) (last : ℕ) :
    (summary obs last).lastSeen = last := rfl

theorem ne_nil_of_nonEmpty {s : Option Str} {t : Str} (h : nonEmpty s = some t) : t ≠ [] :=
  of_decide_eq_true (Option.filter_eq_some_iff.mp h).2

/-- Recording one more observation. -/
theorem record_summary (obs : List Observation) (last : ℕ) (o : Observation) (now : ℕ) :
    (summary obs last).record o now = summary (obs ++ [o]) now := by
  unfold summary Entry.record
  dsimp only
  congr 1
  · -- the name kept so far is never empty
    rw [List.findSome?_append]
    cases hold : obs.findSome? fun o => nonEmpty o.name with
    | none => cases h : nonEmpty o.name <;> simp [h]
    | some name =>
      obtain ⟨o', -, hname⟩ := List.exists_of_findSome?_eq_some hold
      have hne := ne_nil_of_nonEmpty hname
      cases h : nonEmpty o.name <;> simp [hne]
  · rw [List.filterMap_append]
    cases h : nonEmpty o.stableId with
    | none => simp [h]
    | some id => simp [h, BTreeSet.ofList_concat]
  · rw [List.map_append, List.find?_append]
    cases hold : (obs.map Observation.port).find? (· ≠ 0) with
    | none => by_cases h : o.port = 0 <;> simp [h]
    | some port =>
      have hne := List.find?_some hold
      simp_all
  · rw [List.map_append, List.map_singleton, eraseDups_concat]
  · rw [List.findSome?_append]
    cases obs.findSome? fun o => nonEmpty o.dlnaControlUrl <;> simp
  · rw [List.findSome?_append]
    cases obs.findSome? fun o => nonEmpty o.dlnaLocation <;> simp

theorem entry_sighting {a : IpAddr} {c : Call} {o : Observation} {now : ℕ}
    (h : c.sighting a = some (o, now)) (ttl : ℕ) (calls : List Call) :
    entry ttl a (calls ++ [c]) = some (summary (seen ttl a calls ++ [o]) now) := by
  have htracked := tracked_sighting h ttl calls
  simp [entry, htracked, latest_concat, h, seen_concat htracked]

/-- A call that is no sighting of `a` keeps its entry or lets go of it. -/
theorem entry_other {a : IpAddr} {c : Call} (h : c.sighting a = none) (ttl : ℕ)
    (calls : List Call) :
    entry ttl a (calls ++ [c]) =
      (entry ttl a calls).filter fun e => c.keeps ttl e.lastSeen := by
  have hconcat := tracked_other h ttl calls
  unfold entry
  cases hl : latest a calls with
  | none => simp [tracked, hl, latest_concat, h]
  | some r =>
    obtain ⟨t, after⟩ := r
    rw [hl] at hconcat
    have hold : tracked ttl a calls = after.all (Call.keeps ttl t) := by simp [tracked, hl]
    by_cases hkeeps : c.keeps ttl t = true
    · have hsame : tracked ttl a (calls ++ [c]) = tracked ttl a calls := by
        simp [hconcat, hold, hkeeps]
      by_cases htracked : tracked ttl a calls = true
      · have hseen := seen_concat (hsame.trans htracked)
        simp [hsame, htracked, latest_concat, h, hl, hseen, hkeeps, Option.filter]
      · simp [hsame, htracked]
    · by_cases htracked : tracked ttl a calls = true <;>
        simp [hconcat, hkeeps, htracked, Option.filter]

/-- `observe` on the entry that the calls say, or on a vacant one. -/
theorem record_entry (ttl : ℕ) (a : IpAddr) (calls : List Call) (o : Observation) (now : ℕ) :
    ((entry ttl a calls).getD (.vacant now)).record o now =
      summary (seen ttl a calls ++ [o]) now := by
  unfold entry
  by_cases htracked : tracked ttl a calls = true
  · obtain ⟨⟨t, after⟩, hl, -⟩ := Option.any_eq_true _ _ |>.mp htracked
    rw [if_pos htracked, hl]
    exact record_summary _ t o now
  · rw [if_neg htracked, seen_of_untracked (Bool.eq_false_iff.mpr htracked)]
    exact record_summary [] now o now

theorem entry_eq_some {ttl : ℕ} {a : IpAddr} {calls : List Call} {e : Entry}
    (h : entry ttl a calls = some e) :
    tracked ttl a calls = true ∧ ∃ t after, latest a calls = some (t, after) ∧
      summary (seen ttl a calls) t = e := by
  obtain ⟨htracked, h⟩ := Option.ite_none_right_eq_some.mp h
  obtain ⟨⟨t, after⟩, hl, he⟩ := Option.map_eq_some_iff.mp h
  exact ⟨htracked, t, after, hl, he⟩

theorem entry_isSome {ttl : ℕ} {a : IpAddr} {calls : List Call} :
    (entry ttl a calls).isSome = true ↔ tracked ttl a calls = true := by
  constructor
  · intro h
    obtain ⟨e, he⟩ := Option.isSome_iff_exists.mp h
    exact (entry_eq_some he).1
  · intro h
    obtain ⟨r, hl, -⟩ := (Option.any_eq_true _ _).mp h
    simp [entry, h, hl]

/-! ### Runs -/

theorem run_concat (reg : DeviceRegistry) (calls : List Call) (c : Call) :
    reg.run (calls ++ [c]) = (reg.run calls).apply c := by
  simp [DeviceRegistry.run]

theorem run_ttl (reg : DeviceRegistry) (calls : List Call) : (reg.run calls).ttl = reg.ttl := by
  induction calls using List.reverseRecOn with
  | nil => rfl
  | append_singleton calls c ih =>
    rw [run_concat, ← ih]
    cases c <;> rfl

/-- After any calls the registry holds what the calls say. -/
theorem run_lookup (ttl : ℕ) (calls : List Call) (a : IpAddr) :
    ((DeviceRegistry.new ttl).run calls).entries.lookup a = entry ttl a calls := by
  induction calls using List.reverseRecOn with
  | nil => rfl
  | append_singleton calls c ih =>
    rw [run_concat]
    cases c with
    | observe obs now =>
      simp only [DeviceRegistry.apply, DeviceRegistry.observe]
      by_cases ha : obs.address = a
      · subst ha
        have hs : (Call.observe obs now).sighting obs.address = some (obs, now) := if_pos rfl
        rw [AList.lookup_insert, ih, entry_sighting hs, ← record_entry]
      · have hs : (Call.observe obs now).sighting a = none := if_neg ha
        rw [AList.lookup_insert_ne (Ne.symm ha), ih, entry_other hs]
        cases entry ttl a calls <;> rfl
    | expire now =>
      simp only [DeviceRegistry.apply, DeviceRegistry.expire]
      rw [lookup_retain, ih, entry_other rfl, run_ttl]
      rfl

/-- What is tracked was seen on some protocol. -/
theorem entry_protocols_ne_nil {ttl : ℕ} {a : IpAddr} {calls : List Call} {e : Entry}
    (h : entry ttl a calls = some e) : e.protocols ≠ [] := by
  obtain ⟨htracked, t, after, -, rfl⟩ := entry_eq_some h
  obtain ⟨o, ho⟩ := List.exists_mem_of_ne_nil _ (seen_ne_nil htracked)
  exact List.ne_nil_of_mem (List.mem_eraseDups.mpr (List.mem_map_of_mem ho))

/-- The registry refines its history: after any calls at any times, an address is
tracked exactly when the calls say so, its entry is the one that what was seen of it
says, its protocols are never empty, and its identities are the stable ids seen. -/
theorem registry_refines_history (ttl : ℕ) (calls : List Call) :
    let reg := (DeviceRegistry.new ttl).run calls
    reg.ttl = ttl ∧ ∀ a,
      reg.entries.lookup a = entry ttl a calls ∧
      (a ∈ reg.entries ↔ tracked ttl a calls = true) ∧
      ∀ e, reg.entries.lookup a = some e → e.protocols ≠ [] ∧
        ∀ id, id ∈ e.identities ↔ ∃ o ∈ seen ttl a calls, nonEmpty o.stableId = some id := by
  intro reg
  refine ⟨run_ttl _ calls, fun a => ⟨run_lookup ttl calls a, ?_, fun e he => ?_⟩⟩
  · rw [← AList.lookup_isSome, run_lookup, entry_isSome]
  · rw [run_lookup] at he
    refine ⟨entry_protocols_ne_nil he, fun id => ?_⟩
    obtain ⟨-, t, after, -, rfl⟩ := entry_eq_some he
    simp [summary, BTreeSet.mem_ofList]

end HorizonCast
