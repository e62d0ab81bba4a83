import HorizonCast.Proofs.DiscoverySteps

/-! Stopping the discovery service. The pass that is going on is the last one, and it can
always come to its end. -/

namespace HorizonCast.DiscoveryService

open Collections Discovery Text

variable {reader : Ssdp.Descriptions}

/-! ### What is left -/

/-- The passes that may still come to their end once the service is stopped. -/
def RunTask.passesLeft : RunTask → ℕ
  | checking | ended => 0
  | scanning _ _ _ => 1

/-- What a step of a stopped service may change. -/
structure Closing (s : Service) (a : Action) (s' : Service) : Prop where
  stopped : s'.shutdown = true
  passes : [a].countP Action.isPassEnd + s'.task.passesLeft ≤ s.task.passesLeft
  sent : ∃ new, s'.devices.sent = s.devices.sent ++ new ∧
    new.length ≤ [a].countP Action.isPassEnd
  ended : s.task = .ended →
    s'.task = .ended ∧ s'.registry = s.registry ∧ s'.devices = s.devices

theorem Moves.closing {s s' : Service} {a : Action} (hmove : Moves reader s a s')
    (hstop : s.shutdown = true) : Closing s a s' := by
  cases hmove with
  | ticked | subscribed | taken =>
    exact ⟨hstop, by simp [Action.isPassEnd], ⟨[], by simp⟩, fun h => ⟨h, rfl, rfl⟩⟩
  | ended htask =>
    refine ⟨hstop, ?_, ⟨[], by simp⟩, fun h => ?_⟩
    · simp [Action.isPassEnd, RunTask.passesLeft]
    · rw [htask] at h
      cases h
  | began htask hrunning =>
    rw [hstop] at hrunning
    cases hrunning
  | scanned htask hscan =>
    have hnot := hscan.notPassEnd
    obtain ⟨browsing', search', rfl, -⟩ := hscan.next
    refine ⟨hstop, ?_, ⟨[], by simp⟩, fun h => ?_⟩
    · simp [hnot, htask, RunTask.passesLeft]
    · rw [htask] at h
      cases h
  | @passEnded keys groups since snapshot htask hlisted =>
    refine ⟨hstop, ?_, ?_, fun h => ?_⟩
    · simp [Action.isPassEnd, htask, RunTask.passesLeft]
    · dsimp only
      split_ifs
      · exact ⟨[], by simp⟩
      · exact ⟨[snapshot], rfl, by simp [Action.isPassEnd]⟩
    · rw [htask] at h
      cases h
  | stopped hrunning =>
    rw [hstop] at hrunning
    cases hrunning

/-- What a run of a stopped service may change. -/
theorem closing_run {s t : Service} {as : List Action} (hstop : s.shutdown = true)
    (h : Transition.run (Service.step reader) s as = some t) :
    as.countP Action.isPassEnd + t.task.passesLeft ≤ s.task.passesLeft ∧
      (∃ new, t.devices.sent = s.devices.sent ++ new ∧
        new.length ≤ as.countP Action.isPassEnd) ∧
      (s.task = .ended → t.task = .ended ∧ t.registry = s.registry ∧ t.devices = s.devices) := by
  induction as generalizing s with
  | nil =>
    cases h
    exact ⟨Nat.le_of_eq (Nat.zero_add _), ⟨[], by simp⟩, fun h => ⟨h, rfl, rfl⟩⟩
  | cons a as ih =>
    obtain ⟨s', hs', hrest⟩ := Option.bind_eq_some_iff.mp h
    have hclosing := (moves_of_step hs').closing hstop
    obtain ⟨hpasses, ⟨new, hnew, hlength⟩, hended⟩ := ih hclosing.stopped hrest
    obtain ⟨first, hfirst, hfirstLength⟩ := hclosing.sent
    have hcount : (a :: as).countP Action.isPassEnd =
        [a].countP Action.isPassEnd + as.countP Action.isPassEnd := by
      rw [← List.countP_append]
      rfl
    have hpassed := hclosing.passes
    rw [hcount]
    refine ⟨by omega, ⟨first ++ new, ?_, ?_⟩, fun hend => ?_⟩
    · rw [hnew, hfirst, List.append_assoc]
    · rw [List.length_append]
      exact Nat.add_le_add hfirstLength hlength
    · obtain ⟨htask', hregistry', hdevices'⟩ := hclosing.ended hend
      obtain ⟨htask, hregistry, hdevices⟩ := hended htask'
      exact ⟨htask, hregistry.trans hregistry', hdevices.trans hdevices'⟩

/-! ### The end can be reached -/

/-- The task of the service can come to its end. -/
def CanEnd (reader : Ssdp.Descriptions) (s : Service) : Prop :=
  ∃ as t, Transition.run (Service.step reader) s as = some t ∧ t.task = .ended

theorem CanEnd.step {s s' : Service} (a : Action) (h : s.step reader a = some s')
    (hend : CanEnd reader s') : CanEnd reader s := by
  obtain ⟨as, t, hrun, ht⟩ := hend
  exact ⟨a :: as, t, by rw [Transition.run, h]; exact hrun, ht⟩

theorem canEnd_checking {s : Service} (htask : s.task = .checking) (hstop : s.shutdown = true) :
    CanEnd reader s := by
  have hstep : s.step reader .check = some { s with task := .ended } := by
    change s.check = _
    rw [Service.check, htask]
    exact if_pos hstop
  exact .step .check hstep ⟨[], _, rfl, rfl⟩

/-- The list is always there, so the end of a pass does not fail. -/
theorem canEnd_returned {s : Service} {since : ℕ}
    (htask : s.task = .scanning since false (.enriching [])) (hstop : s.shutdown = true) :
    CanEnd reader s := by
  let same {α : Type} : IterOrder α := ⟨id, fun l => .refl l⟩
  obtain ⟨snapshot, hlisted, -⟩ := devices_settled (s.registry.expire s.clock)
  have hend : ∃ s', s.endPass same same = some s' ∧ s'.task = .checking ∧ s'.shutdown = true := by
    rw [Service.endPass, htask]
    simp only [hlisted, Option.bind_eq_bind, Option.bind_some]
    split_ifs
    · exact ⟨_, rfl, rfl, hstop⟩
    · exact ⟨_, rfl, rfl, hstop⟩
  obtain ⟨s', hs', htask', hstop'⟩ := hend
  exact .step (.passEnded same same) hs' (canEnd_checking htask' hstop')

theorem canEnd_enriching {s : Service} {since : ℕ} {tasks : List (IpAddr × Str)}
    (htask : s.task = .scanning since false (.enriching tasks)) (hstop : s.shutdown = true) :
    CanEnd reader s := by
  induction tasks generalizing s with
  | nil => exact canEnd_returned htask hstop
  | cons task tasks ih =>
    have hstep : s.step reader (.described task.1 task.2 (.error [])) =
        some { s with task := .scanning since false (.enriching tasks) } := by
      change s.scan reader _ = _
      rw [Service.scan, htask]
      refine (if_pos List.mem_cons_self).trans ?_
      rw [List.erase_cons_head]
      rfl
    exact .step _ hstep (ih rfl hstop)

theorem canEnd_browsed {s : Service} {since : ℕ} {search : SearchTask}
    (htask : s.task = .scanning since false search) (hstop : s.shutdown = true) :
    CanEnd reader s := by
  cases search with
  | enriching tasks => exact canEnd_enriching htask hstop
  | receiving renderers =>
    have hstep : s.step reader .receiveEnded =
        some { s with task := .scanning since false (.enriching (enrichTasks renderers)) } := by
      change s.scan reader _ = _
      rw [Service.scan, htask]
      rfl
    exact .step _ hstep (canEnd_enriching rfl hstop)

theorem canEnd_of_stopped {s : Service} (hstop : s.shutdown = true) : CanEnd reader s := by
  cases htask : s.task with
  | checking => exact canEnd_checking htask hstop
  | ended => exact ⟨[], s, rfl, htask⟩
  | scanning since browsing search =>
    cases browsing with
    | false => exact canEnd_browsed htask hstop
    | true =>
      have hstep : s.step reader .browseEnded =
          some { s with task := .scanning since false search } := by
        change s.scan reader _ = _
        rw [Service.scan, htask]
        rfl
      exact .step _ hstep (canEnd_browsed rfl hstop)

/-- Once the service is told to stop, it can always come to its end, and however it goes
on, at most the pass that is going on still ends and at most one more list is published.
When its task has ended, registry and list stay as they are. -/
theorem stop_ends_service {s : Service} (hstop : s.shutdown = true) :
    (∃ as t, Transition.run (Service.step reader) s as = some t ∧ t.task = .ended) ∧
      ∀ as t, Transition.run (Service.step reader) s as = some t →
        as.countP Action.isPassEnd ≤ 1 ∧
        (∃ new, t.devices.sent = s.devices.sent ++ new ∧ new.length ≤ 1) ∧
        (s.task = .ended →
          t.task = .ended ∧ t.registry = s.registry ∧ t.devices = s.devices) := by
  refine ⟨canEnd_of_stopped hstop, fun as t hrun => ?_⟩
  obtain ⟨hpasses, ⟨new, hnew, hlength⟩, hended⟩ := closing_run hstop hrun
  have hleft : s.task.passesLeft ≤ 1 := by cases s.task <;> simp [RunTask.passesLeft]
  exact ⟨by omega, ⟨new, hnew, by omega⟩, hended⟩

/-- The service is told to stop while a pass is going on. The pass ends, its list is the
last one, and nothing changes any more. -/
theorem stop_ends_service_scanning : ∃ s t,
    run sampleReader [.check, .resolved sampleInfo 0, .stop] = some s ∧
      s.task = .scanning 0 true (.receiving ∅) ∧ s.devices.sent = [] ∧
      Transition.run (Service.step sampleReader) s (samplePass ++ [sampleEnd, .check]) = some t ∧
      t.task = .ended ∧ (∃ last, t.devices.sent = [last]) ∧
      ∀ as u, Transition.run (Service.step sampleReader) t as = some u →
        u.task = .ended ∧ u.devices = t.devices := by
  obtain ⟨s, hs, hstop, htask, hnone⟩ :
      ∃ s, run sampleReader [.check, .resolved sampleInfo 0, .stop] = some s ∧
        s.shutdown = true ∧ s.task = .scanning 0 true (.receiving ∅) ∧ s.devices.sent = [] :=
    ⟨_, rfl, rfl, rfl, rfl⟩
  have hpass : (run sampleReader ([.check, .resolved sampleInfo 0, .stop] ++
      (samplePass ++ [sampleEnd, .check]))).map (fun t => (t.shutdown, t.devices.sent.length)) =
        some (true, 1) := by
    decide +kernel
  obtain ⟨t, ht, hafter⟩ := Option.map_eq_some_iff.mp hpass
  obtain ⟨hstopped, hone⟩ := Prod.mk.inj hafter
  rw [run, Transition.run_append, ← run, hs, Option.bind_some] at ht
  -- the loop sees at its head that it was stopped
  have hended : t.task = .ended := by
    have hsplit : samplePass ++ [sampleEnd, .check] = (samplePass ++ [sampleEnd]) ++ [.check] := rfl
    have hlast := ht
    rw [hsplit, Transition.run_concat] at hlast
    obtain ⟨t', -, hcheck⟩ := Option.bind_eq_some_iff.mp hlast
    cases moves_of_step hcheck with
    | ended => rfl
    | began _ hrunning => rw [hrunning] at hstopped; cases hstopped
    | scanned _ hscan => cases hscan.isScan
  obtain ⟨-, ⟨new, hnew, -⟩, -⟩ := (stop_ends_service hstop).2 _ t ht
  rw [hnone, List.nil_append] at hnew
  rw [hnew] at hone
  refine ⟨s, t, hs, htask, hnone, ht, hended, hnew ▸ List.length_eq_one_iff.mp hone,
    fun as u hrun => ?_⟩
  obtain ⟨-, -, hsame⟩ := (stop_ends_service hstopped).2 as u hrun
  exact ⟨(hsame hended).1, (hsame hended).2.2⟩

end HorizonCast.DiscoveryService
