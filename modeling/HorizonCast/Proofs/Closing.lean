import HorizonCast.Proofs.Servers
import HorizonCast.Spec.Process

/-! What closing the window does to a cast. `main` returns without waiting for
the background thread, so a cast is ended for certain only when nothing was left
to end: which states these are, and that every other one can exit too early. -/

namespace HorizonCast.Casting

open Routine Text Transition

abbrev Process.Leads (p q : Process) : Prop := Reaches Process.step (fun _ _ => True) p q

def Process.Reachable (p : Process) : Prop := Process.Leads {} p

/-- A cast is being started, or a renderer was told to play and no `Stop` was
attempted since. -/
def Process.Underway (p : Process) : Prop :=
  (∃ rest, p.system.loop = .starting rest) ∨ unstopped p.wire ≠ []

def OnlyStops (commands : List Cmd) : Prop := ∀ cmd ∈ commands, cmd = .stop

/-- Every command that is still to be carried out is `Stop`. -/
def Loop.NothingToStart (commands : List Cmd) : Loop → Prop
  | .idle _ => OnlyStops commands
  | .tearingDown _ cmd => cmd = .stop ∧ OnlyStops commands
  | .starting _ => False
  | .finishing _ | .done => True

/-- No renderer plays without a `Stop` on its way, and none will be told to play. -/
structure Process.Over (p : Process) : Prop where
  silent : unstopped p.wire = []
  nothing : p.system.loop.NothingToStart p.system.commands

/-! ### The end of a session -/

/-- The calls of a teardown, and of the end of the background task, do not
start a playback. -/
def Ending : Op → Prop
  | .sendSoapAction _ .play _ => False
  | _ => True

/-- The calls of a pump after its loop. -/
def PumpEnding : Op → Prop
  | .clearCasting | .sendSoapAction _ .stop _ | .stopServer _ => True
  | _ => False

theorem endPump_only (session : LiveMirrorSession) (captureEnded : Bool) :
    (endPump session captureEnded).Only PumpEnding := by
  have hstop : (do let _ ← session.stop : Async Unit).Only PumpEnding :=
    ⟨trivial, fun _ => ⟨trivial, fun _ => trivial⟩⟩
  cases captureEnded with
  | false => exact hstop
  | true => exact ⟨trivial, fun _ => hstop⟩

theorem teardown_only (active : Active) : (teardown active).Only Ending := by
  cases active with
  | none => exact trivial
  | media session =>
    obtain ⟨controlUrl, mediaUrl, server⟩ := session
    refine ⟨trivial, fun _ => ?_⟩
    cases server with
    | none => exact trivial
    | some server => exact ⟨trivial, fun _ => trivial⟩
  | mirror pump => exact ⟨trivial, fun _ => ⟨trivial, fun _ => ⟨trivial, fun _ => trivial⟩⟩⟩

theorem finish_only (active : Active) : (finish active).Only Ending :=
  (teardown_only active).bind fun _ => ⟨trivial, fun _ => trivial⟩

theorem ending_of_pumpEnding {o : Op} (ho : PumpEnding o) : Ending o := by
  cases o with
  | sendSoapAction url action body =>
    cases action with
    | play => exact ho
    | _ => trivial
  | _ => trivial

theorem unstopped_snoc (wire : List Exchange) (e : Exchange) :
    unstopped (wire ++ [e]) = match e with
      | .answered url .play true => unstopped wire ++ [url]
      | .sent url .stop => (unstopped wire).filter (· ≠ url)
      | _ => unstopped wire := by
  rw [unstopped, List.foldl_append]
  rfl

/-- Where nothing plays, a call that begins leaves it so. -/
theorem unstopped_sends {wire : List Exchange} (h : unstopped wire = []) (o : Op) :
    unstopped (wire ++ o.sends) = [] := by
  cases o with
  | sendSoapAction url action body =>
    rw [Op.sends, unstopped_snoc]
    cases action <;> simp [h]
  | _ => simpa [Op.sends] using h

/-- So does the answer to one that starts no playback. -/
theorem unstopped_answered {wire : List Exchange} (h : unstopped wire = []) {o : Op}
    (ho : Ending o) (reply : Reply o) : unstopped (wire ++ o.answered reply) = [] := by
  cases o with
  | sendSoapAction url action body =>
    rw [Op.answered, unstopped_snoc]
    cases action with
    | play => exact ho.elim
    | setAvTransportUri | stop => exact h
  | _ => simpa [Op.answered] using h

/-- A pump does not wait for other tasks. -/
theorem exec_pumpEnding (w : World) {o : Op} (ho : PumpEnding o) (answer : Reply o) :
    ∃ w', w.exec o answer = some (answer, w') ∧ w'.pumps = w.pumps := by
  cases o with
  | clearCasting | stopServer | sendSoapAction => exact ⟨_, rfl, rfl⟩
  | _ => exact ho.elim

/-! ### What is left to do starts nothing -/

def Loop.Ends : Loop → Prop
  | .tearingDown (.pure _) _ => False
  | .tearingDown rest _ | .finishing rest => rest.Only Ending
  | _ => True

def PumpPhase.Ends : PumpPhase → Prop
  | .ending (.pure _) => False
  | .ending rest => rest.Only PumpEnding
  | _ => True

/-- Teardowns and pumps only end sessions. -/
structure System.Ends (s : System) : Prop where
  loop : s.loop.Ends
  pumps : ∀ task ∈ s.world.pumps, task.phase.Ends

theorem ends_ofStart (rest : Async Active) : (Loop.ofStart rest).Ends := by
  cases rest <;> trivial

theorem ends_ofTeardown {rest : Async Unit} (h : rest.Only Ending) (cmd : Cmd) :
    (Loop.ofTeardown rest cmd).Ends := by
  cases rest with
  | pure u => exact ends_ofStart (startCmd cmd)
  | op o next => exact h

theorem ends_ofFinish {rest : Async Unit} (h : rest.Only Ending) : (Loop.ofFinish rest).Ends := by
  cases rest with
  | pure u => trivial
  | op o next => exact h

theorem ends_ofRest {rest : Async Unit} (h : rest.Only PumpEnding) :
    (PumpPhase.ofRest rest).Ends := by
  cases rest with
  | pure u => trivial
  | op o next => exact h

theorem ends_setPump {w : World} {k : ℕ} {f : PumpTask → PumpTask}
    (h : ∀ task ∈ w.pumps, task.phase.Ends)
    (hf : ∀ task ∈ w.pumps, (f task).phase.Ends) :
    ∀ task ∈ (w.setPump k f).pumps, task.phase.Ends := by
  intro task htask
  obtain ⟨i, hi⟩ := List.getElem?_of_mem htask
  rw [World.setPump, List.getElem?_modify] at hi
  obtain ⟨old, hold, rfl⟩ := Option.map_eq_some_iff.mp hi
  have hmem := List.mem_of_getElem? hold
  split_ifs
  · exact hf old hmem
  · exact h old hmem

/-- A call leaves every phase as it is, and what it spawns is in its loop. -/
theorem ends_exec {w w' : World} {o : Op} {answer reply : Reply o}
    (he : w.exec o answer = some (reply, w')) (h : ∀ task ∈ w.pumps, task.phase.Ends) :
    ∀ task ∈ w'.pumps, task.phase.Ends := by
  cases o with
  | spawnPump session =>
    cases he
    intro task htask
    obtain hold | hnew := List.mem_append.mp htask
    · exact h task hold
    · rw [List.mem_singleton.mp hnew]
      trivial
  | signalStop pump =>
    cases he
    exact ends_setPump h h
  | awaitPump pump =>
    obtain ⟨-, heq⟩ := Option.ite_none_right_eq_some.mp he
    cases heq
    exact h
  | _ =>
    cases he
    exact h

theorem ends_loopMove {s s' : System} (hs : s.Ends) (h : s.LoopMove s') : s'.Ends := by
  obtain ⟨hloop, hpumps⟩ := hs
  cases h with
  | update devices active idle => exact ⟨hloop, hpumps⟩
  | receive active cmd rest idle queued =>
    exact ⟨ends_ofTeardown (teardown_only active) cmd, hpumps⟩
  | leave active idle => exact ⟨ends_ofFinish (finish_only active), hpumps⟩
  | teardown o next cmd answer reply world tearing exec =>
    rw [tearing] at hloop
    exact ⟨ends_ofTeardown (hloop.2 reply) cmd, ends_exec exec hpumps⟩
  | start o next answer reply world starting exec =>
    exact ⟨ends_ofStart (next reply), ends_exec exec hpumps⟩
  | finish o next answer reply world finishing exec =>
    rw [finishing] at hloop
    exact ⟨ends_ofFinish (hloop.2 reply), ends_exec exec hpumps⟩

theorem ends_pumpMove {s s' : System} (hs : s.Ends) {k : ℕ} {task : PumpTask}
    (hk : s.world.pumps[k]? = some task) (h : s.PumpMove k task s') : s'.Ends := by
  cases h with
  | leave captureEnded pumping =>
    have hrest := endPump_only task.session captureEnded
    exact ⟨hs.loop, ends_setPump hs.pumps fun _ _ => ends_ofRest hrest⟩
  | call o next answer reply world ending exec =>
    have hends := hs.pumps task (List.mem_of_getElem? hk)
    rw [ending] at hends
    exact ⟨hs.loop, ends_setPump (ends_exec exec hs.pumps) fun _ _ => ends_ofRest (hends.2 reply)⟩

theorem ends_step {s s' : System} {a : Action} (hs : s.Ends) (h : s.step a = some s') :
    s'.Ends := by
  obtain ⟨-, hmove⟩ := System.moves_of_step h
  cases hmove with
  | ui _ move => cases move <;> exact ⟨hs.loop, hs.pumps⟩
  | background _ move => exact ends_loopMove hs move
  | pump k task _ spawned move => exact ends_pumpMove hs spawned move

theorem ends_init : System.Ends {} where
  loop := trivial
  pumps _ htask := absurd htask List.not_mem_nil

theorem ends_of_leads {s t : System} (hs : s.Ends) (h : Leads s t) : t.Ends :=
  h.invariant (fun hs _ hstep => ends_step hs hstep) hs

theorem ending_of_loop {commands : List Cmd} {loop : Loop} (hends : loop.Ends)
    (hnothing : loop.NothingToStart commands) {o : Op} (ho : loop.awaits = some o) : Ending o := by
  unfold Loop.awaits at ho
  split at ho
  · cases ho
    exact hends.1
  · exact hnothing.elim
  · cases ho
    exact hends.1
  · cases ho

theorem ending_of_phase {phase : PumpPhase} (hends : phase.Ends) {o : Op}
    (ho : phase.awaits = some o) : Ending o := by
  unfold PumpPhase.awaits at ho
  split at ho
  · cases ho
    exact ending_of_pumpEnding hends.1
  · cases ho

/-! ### What is over stays over -/

theorem nothing_ofTeardown {commands : List Cmd} (h : OnlyStops commands) (rest : Async Unit) :
    (Loop.ofTeardown rest .stop).NothingToStart commands := by
  cases rest with
  | pure u => exact h
  | op o next => exact ⟨rfl, h⟩

theorem nothing_ofFinish (commands : List Cmd) (rest : Async Unit) :
    (Loop.ofFinish rest).NothingToStart commands := by
  cases rest <;> trivial

theorem nothing_loopMove {s s' : System} (hs : s.loop.NothingToStart s.commands)
    (h : s.LoopMove s') : s'.loop.NothingToStart s'.commands := by
  cases h with
  | update devices active idle => exact hs
  | receive active cmd rest idle queued =>
    rw [idle, queued] at hs
    obtain ⟨rfl, hrest⟩ := List.forall_mem_cons.mp hs
    exact nothing_ofTeardown hrest _
  | leave active idle => exact nothing_ofFinish _ _
  | teardown o next cmd answer reply world tearing exec =>
    rw [tearing] at hs
    obtain ⟨rfl, hrest⟩ := hs
    exact nothing_ofTeardown hrest _
  | start o next answer reply world starting exec =>
    rw [starting] at hs
    exact hs.elim
  | finish o next answer reply world finishing exec => exact nothing_ofFinish _ _

/-- Once the window is closed no command is sent. -/
theorem nothing_step {s s' : System} {a : Action} (hclosed : s.window ≠ .shown)
    (hs : s.loop.NothingToStart s.commands) (h : s.step a = some s') :
    s'.loop.NothingToStart s'.commands := by
  obtain ⟨-, hmove⟩ := System.moves_of_step h
  cases hmove with
  | ui _ move =>
    cases move with
    | send cmd shown => exact absurd shown hclosed
    | close | dropSenders | exit => exact hs
  | background _ move => exact nothing_loopMove hs move
  | pump k task _ spawned move => cases move <;> exact hs

theorem closed_step {s s' : System} {a : Action} (hs : s.window ≠ .shown)
    (h : s.step a = some s') : s'.window ≠ .shown := by
  obtain ⟨-, hmove⟩ := System.moves_of_step h
  cases hmove with
  | ui _ move =>
    cases move with
    | send cmd shown | close shown => exact absurd shown hs
    | dropSenders closed | exit returned => nofun
  | background _ move => cases move <;> exact hs
  | pump k task _ spawned move => cases move <;> exact hs

/-- What a deed does: a call is begun, or the system takes a step, and what it shows of a call
is the answer. -/
inductive Process.Does (p : Process) : Process → Prop where
  | begins (o : Op) (begun : Bool) (pumpsBegun : List ℕ)
      (awaited : p.system.loop.awaits = some o ∨ ∃ pump, p.awaitsAt pump = some o) :
      Does p ⟨p.system, begun, pumpsBegun, p.wire ++ o.sends⟩
  | returns (a : Action) (system : System) (o : Op) (reply : Reply o) (begun : Bool)
      (pumpsBegun : List ℕ)
      (awaited : p.system.loop.awaits = some o ∨ ∃ pump, p.awaitsAt pump = some o)
      (next : p.system.step a = some system) :
      Does p ⟨system, begun, pumpsBegun, p.wire ++ o.answered reply⟩
  | other (a : Action) (system : System) (next : p.system.step a = some system) :
      Does p { p with system }

theorem Process.does_of_step {p p' : Process} {d : Deed} (h : p.step d = some p') :
    p.Does p' := by
  unfold Process.step at h
  split at h
  · obtain ⟨-, h⟩ := Option.ite_none_left_eq_some.mp h
    obtain ⟨o, ho, rfl⟩ := Option.map_eq_some_iff.mp h
    exact .begins o _ _ (.inl ho)
  · obtain ⟨-, h⟩ := Option.ite_none_left_eq_some.mp h
    obtain ⟨o, ho, rfl⟩ := Option.map_eq_some_iff.mp h
    exact .begins o _ _ (.inr ⟨_, ho⟩)
  · obtain ⟨-, h⟩ := Option.ite_none_right_eq_some.mp h
    obtain ⟨o, ho, h⟩ := Option.bind_eq_some_iff.mp h
    obtain ⟨system, hnext, rfl⟩ := Option.map_eq_some_iff.mp h
    exact .returns _ system o _ _ _ (.inl ho) hnext
  · obtain ⟨-, h⟩ := Option.ite_none_right_eq_some.mp h
    obtain ⟨o, ho, h⟩ := Option.bind_eq_some_iff.mp h
    obtain ⟨system, hnext, rfl⟩ := Option.map_eq_some_iff.mp h
    exact .returns _ system o _ _ _ (.inr ⟨_, ho⟩) hnext
  · obtain ⟨system, hnext, rfl⟩ := Option.map_eq_some_iff.mp h
    exact .other _ system hnext

/-- The window is closed, and the cast is over. -/
structure Finished (p : Process) : Prop where
  ends : p.system.Ends
  closed : p.system.window ≠ .shown
  isOver : p.Over

/-- What a task still awaits starts nothing. -/
theorem Finished.awaits {p : Process} (h : Finished p) {o : Op}
    (ho : p.system.loop.awaits = some o ∨ ∃ pump, p.awaitsAt pump = some o) : Ending o := by
  rcases ho with ho | ⟨pump, ho⟩
  · exact ending_of_loop h.ends.loop h.isOver.nothing ho
  · obtain ⟨task, htask, ho⟩ := Option.bind_eq_some_iff.mp ho
    exact ending_of_phase (h.ends.pumps task (List.mem_of_getElem? htask)) ho

theorem finished_step {p p' : Process} {d : Deed} (hp : Finished p) (h : p.step d = some p') :
    Finished p' := by
  obtain ⟨hends, hclosed, hsilent, hnothing⟩ := hp
  cases Process.does_of_step h with
  | begins o begun pumpsBegun awaited =>
    exact ⟨hends, hclosed, unstopped_sends hsilent o, hnothing⟩
  | returns a system o reply begun pumpsBegun awaited next =>
    have ho : Ending o := Finished.awaits ⟨hends, hclosed, hsilent, hnothing⟩ awaited
    exact ⟨ends_step hends next, closed_step hclosed next, unstopped_answered hsilent ho reply,
      nothing_step hclosed hnothing next⟩
  | other a system next =>
    exact ⟨ends_step hends next, closed_step hclosed next, hsilent,
      nothing_step hclosed hnothing next⟩

theorem finished_of_leads {p q : Process} (hp : Finished p) (h : p.Leads q) : Finished q :=
  h.invariant (fun hp _ hstep => finished_step hp hstep) hp

theorem not_underway {p : Process} (hp : p.Over) : ¬ p.Underway := by
  rintro (⟨rest, hstarting⟩ | hplaying)
  · have hnothing := hp.nothing
    rw [hstarting] at hnothing
    exact hnothing
  · exact hplaying hp.silent

/-! ### What is not over can go on -/

/-- Some run leads from one state to the other in which only pumps take steps. -/
structure Waits (s t : System) : Prop where
  leads : Leads s t
  loop : t.loop = s.loop
  window : t.window = s.window
  commands : t.commands = s.commands

theorem Waits.refl (s : System) : Waits s s := ⟨.refl, rfl, rfl, rfl⟩

theorem Waits.trans {s t u : System} (h : Waits s t) (h' : Waits t u) : Waits s u :=
  ⟨h.leads.trans h'.leads, h'.loop.trans h.loop, h'.window.trans h.window,
    h'.commands.trans h.commands⟩

/-- One step of a pump. -/
theorem waits_toPhase {s : System} {k : ℕ} {task : PumpTask} {a : Action} {world : World}
    {rest : Async Unit} (hk : s.world.pumps[k]? = some task) (hpumps : world.pumps = s.world.pumps)
    (hstep : s.step a = some (s.toPhase k world rest)) :
    Waits s (s.toPhase k world rest) ∧
      (s.toPhase k world rest).world.pumps[k]? = some { task with phase := .ofRest rest } := by
  refine ⟨⟨.single a trivial hstep, rfl, rfl, rfl⟩, ?_⟩
  simp [System.toPhase, World.setPump, hpumps, hk]

/-- A pump that is out of its loop can be run to its end. -/
theorem rest_ends {rest : Async Unit} (hrest : rest.Only PumpEnding) {s : System}
    (live : s.window ≠ .exited) {k : ℕ} {task : PumpTask} (hk : s.world.pumps[k]? = some task)
    (hphase : task.phase = .ofRest rest) :
    ∃ t, Waits s t ∧ t.world.pumps[k]?.all (·.phase.hasEnded) := by
  induction rest generalizing s task with
  | pure u =>
    refine ⟨s, .refl s, ?_⟩
    simp [hk, hphase, PumpPhase.ofRest, PumpPhase.hasEnded]
  | op o next ih =>
    obtain ⟨world, he, hpumps⟩ := exec_pumpEnding s.world hrest.1 (allSucceed o)
    have hstep : s.step (.pump k allSucceed) =
        some (s.toPhase k world (next (allSucceed o))) := by
      simp [System.step, live, hk, System.pump, hphase, PumpPhase.ofRest, he]
    obtain ⟨hwaits, hk'⟩ := waits_toPhase hk hpumps hstep
    obtain ⟨t, ht, hended⟩ := ih _ (hrest.2 _) (hwaits.window ▸ live) hk' rfl
    exact ⟨t, hwaits.trans ht, hended⟩

/-- Whatever a pump is doing, it can come to its end. -/
theorem pump_ends {s : System} (hends : s.Ends) (live : s.window ≠ .exited) (k : ℕ) :
    ∃ t, Waits s t ∧ t.world.pumps[k]?.all (·.phase.hasEnded) := by
  cases hk : s.world.pumps[k]? with
  | none => exact ⟨s, .refl s, by simp [hk]⟩
  | some task =>
    have hphase := hends.pumps task (List.mem_of_getElem? hk)
    cases htask : task.phase with
    | ended => exact ⟨s, .refl s, by simp [hk, htask, PumpPhase.hasEnded]⟩
    | ending rest =>
      rw [htask] at hphase
      cases rest with
      | pure u => exact hphase.elim
      | op o next => exact rest_ends hphase live hk htask
    | pumping =>
      have hstep : s.step (.captureEnds k) =
          some (s.toPhase k s.world (endPump task.session true)) := by
        simp [System.step, live, hk, System.pump, htask]
      obtain ⟨hwaits, hk'⟩ := waits_toPhase hk rfl hstep
      obtain ⟨t, ht, hended⟩ :=
        rest_ends (endPump_only task.session true) (hwaits.window ▸ live) hk' rfl
      exact ⟨t, hwaits.trans ht, hended⟩

/-- Whatever a task awaits, it can return. -/
theorem call_returns {s : System} (hends : s.Ends) (live : s.window ≠ .exited) (o : Op) :
    ∃ t, Waits s t ∧ ∃ reply world, t.world.exec o (allSucceed o) = some (reply, world) := by
  cases o with
  | awaitPump k =>
    obtain ⟨t, hwaits, hended⟩ := pump_ends hends live k
    exact ⟨t, hwaits, _, _, if_pos hended⟩
  | _ => exact ⟨s, .refl s, _, _, rfl⟩

/-- Every teardown can come to its end. -/
theorem teardown_ends {rest : Async Unit} {cmd : Cmd} {s : System} (hends : s.Ends)
    (live : s.window ≠ .exited) (hloop : s.loop = .ofTeardown rest cmd) :
    ∃ t, Leads s t ∧ t.loop = .ofStart (startCmd cmd) ∧ t.window = s.window ∧
      t.commands = s.commands := by
  induction rest generalizing s with
  | pure u => exact ⟨s, .refl, hloop, rfl, rfl⟩
  | op o next ih =>
    obtain ⟨u, hwaits, reply, world, he⟩ := call_returns hends live o
    have hlive : u.window ≠ .exited := hwaits.window ▸ live
    have hstep : u.step (.background allSucceed) =
        some { u with world, loop := .ofTeardown (next reply) cmd } := by
      simp [System.step, hlive, System.background, hwaits.loop, hloop, Loop.ofTeardown, he]
    have hleads := hwaits.leads.trans (.single _ trivial hstep)
    obtain ⟨t, ht, hstart, hwindow, hcommands⟩ := ih reply
      (s := { u with world, loop := .ofTeardown (next reply) cmd }) (ends_of_leads hends hleads)
      hlive rfl
    exact ⟨t, hleads.trans ht, hstart, hwindow.trans hwaits.window,
      hcommands.trans hwaits.commands⟩

theorem starting_of_ne_stop {cmd : Cmd} (h : cmd ≠ .stop) :
    ∃ rest, Loop.ofStart (startCmd cmd) = .starting rest := by
  cases cmd with
  | stop => exact absurd rfl h
  | _ => exact ⟨_, rfl⟩

/-- A run in which a cast comes to be started, with the window as it is. -/
def CanStart (s : System) : Prop :=
  ∃ t, Leads s t ∧ t.window = s.window ∧ ∃ rest, t.loop = .starting rest

theorem CanStart.of_leads {s t : System} (h : Leads s t) (hwindow : t.window = s.window)
    (ht : CanStart t) : CanStart s := by
  obtain ⟨u, hu, huw, hstarting⟩ := ht
  exact ⟨u, h.trans hu, huw.trans hwindow, hstarting⟩

/-- A command in the channel that is not `Stop` can be got to. -/
theorem canStart_idle {commands : List Cmd} {s : System} {active : Active} (hends : s.Ends)
    (live : s.window ≠ .exited) (hidle : s.loop = .idle active) (hqueue : s.commands = commands)
    (hstart : ¬ OnlyStops commands) : CanStart s := by
  induction commands generalizing s active with
  | nil => exact absurd nofun hstart
  | cons cmd rest ih =>
    have hstep : s.step .receive =
        some { s with commands := rest, loop := .ofTeardown (teardown active) cmd } := by
      simp [System.step, live, hidle, hqueue]
    have hleads : Leads s _ := .single _ trivial hstep
    obtain ⟨t, ht, hloop, hwindow, hcommands⟩ :=
      teardown_ends (ends_of_leads hends hleads) live rfl
    have hs := hleads.trans ht
    by_cases hcmd : cmd = .stop
    · subst hcmd
      refine .of_leads hs hwindow (ih (ends_of_leads hends hs) (hwindow ▸ live) hloop hcommands ?_)
      exact fun hrest => hstart (List.forall_mem_cons.mpr ⟨rfl, hrest⟩)
    · obtain ⟨starting, heq⟩ := starting_of_ne_stop hcmd
      exact ⟨t, hs, hwindow, starting, hloop.trans heq⟩

theorem canStart_of_something {s : System} (hends : s.Ends) (live : s.window ≠ .exited)
    (hnothing : ¬ s.loop.NothingToStart s.commands) : CanStart s := by
  cases hloop : s.loop with
  | idle active =>
    rw [hloop] at hnothing
    exact canStart_idle hends live hloop rfl hnothing
  | tearingDown rest cmd =>
    rw [hloop] at hnothing
    have hrest : s.loop = .ofTeardown rest cmd := by
      have hloopEnds := hends.loop
      rw [hloop] at hloopEnds ⊢
      cases rest with
      | pure u => exact hloopEnds.elim
      | op o next => rfl
    obtain ⟨t, ht, hstart, hwindow, hcommands⟩ := teardown_ends hends live hrest
    by_cases hcmd : cmd = .stop
    · subst hcmd
      apply CanStart.of_leads ht hwindow
      apply canStart_idle (ends_of_leads hends ht) (hwindow ▸ live) hstart hcommands
      exact fun hstops => hnothing ⟨rfl, hstops⟩
    · obtain ⟨starting, heq⟩ := starting_of_ne_stop hcmd
      exact ⟨t, ht, hwindow, starting, hstart.trans heq⟩
  | starting rest => exact ⟨s, .refl, rfl, rest, hloop⟩
  | finishing rest =>
    rw [hloop] at hnothing
    exact absurd trivial hnothing
  | done =>
    rw [hloop] at hnothing
    exact absurd trivial hnothing

/-! ### Every step of the system is one of the process -/

theorem awaits_of_background {s s' : System} {answers : Answers}
    (h : s.step (.background answers) = some s') : ∃ o, s.loop.awaits = some o := by
  obtain ⟨-, h⟩ := Option.ite_none_left_eq_some.mp h
  simp only [System.background] at h
  split at h
  case h_1 o next cmd hloop => exact ⟨o, by rw [hloop, Loop.awaits]⟩
  case h_2 o next hloop => exact ⟨o, by rw [hloop, Loop.awaits]⟩
  case h_3 o next hloop => exact ⟨o, by rw [hloop, Loop.awaits]⟩
  case h_4 => cases h

theorem awaits_of_pump {p : Process} {s' : System} {k : ℕ} {answers : Answers}
    (h : p.system.step (.pump k answers) = some s') : ∃ o, p.awaitsAt k = some o := by
  obtain ⟨-, h⟩ := Option.ite_none_left_eq_some.mp h
  obtain ⟨task, hk, h⟩ := Option.bind_eq_some_iff.mp h
  simp only [System.pump] at h
  split at h
  case h_1 o next hphase =>
    exact ⟨o, by rw [Process.awaitsAt, hk, Option.bind_some, hphase, PumpPhase.awaits]⟩
  case h_2 => cases h

theorem live_of_step {s s' : System} {a : Action} (h : s.step a = some s') :
    s.window ≠ .exited := (System.moves_of_step h).1

/-- A call of the background task begins, if it has not, and returns. -/
theorem lift_background (p : Process) {answers : Answers} {s' : System}
    (h : p.system.step (.background answers) = some s') : ∃ q, p.Leads q ∧ q.system = s' := by
  obtain ⟨o, ho⟩ := awaits_of_background h
  have hreturns : ∀ q : Process, q.system = p.system → q.begun = true →
      ∃ r, q.Leads r ∧ r.system = s' := by
    intro q hq hbegun
    exact ⟨_, .single (.act (.background answers)) trivial
      (by simp only [Process.step, hbegun, hq, ho, h, if_true, Option.bind_some, Option.map_some];
          rfl), rfl⟩
  by_cases hbegun : p.begun = true
  · exact hreturns p rfl hbegun
  · have hbegin : p.step .begin = some { p with begun := true, wire := p.wire ++ o.sends } := by
      simp [Process.step, live_of_step h, hbegun, ho]
    obtain ⟨r, hr, hsystem⟩ := hreturns { p with begun := true, wire := p.wire ++ o.sends } rfl rfl
    exact ⟨r, (Reaches.single _ trivial hbegin).trans hr, hsystem⟩

/-- So does one of a pump. -/
theorem lift_pump (p : Process) {k : ℕ} {answers : Answers} {s' : System}
    (h : p.system.step (.pump k answers) = some s') : ∃ q, p.Leads q ∧ q.system = s' := by
  obtain ⟨o, ho⟩ := awaits_of_pump h
  have hreturns : ∀ q : Process, q.system = p.system → k ∈ q.pumpsBegun →
      ∃ r, q.Leads r ∧ r.system = s' := by
    intro q hq hbegun
    have ho' : q.awaitsAt k = some o := by rw [← ho, Process.awaitsAt, hq, Process.awaitsAt]
    exact ⟨_, .single (.act (.pump k answers)) trivial
      (by simp only [Process.step, hbegun, hq, ho', h, if_true, Option.bind_some, Option.map_some];
          rfl), rfl⟩
  by_cases hbegun : k ∈ p.pumpsBegun
  · exact hreturns p rfl hbegun
  · have hbegin : p.step (.beginPump k) =
        some { p with pumpsBegun := k :: p.pumpsBegun, wire := p.wire ++ o.sends } := by
      simp [Process.step, live_of_step h, hbegun, ho]
    obtain ⟨r, hr, hsystem⟩ := hreturns
      { p with pumpsBegun := k :: p.pumpsBegun, wire := p.wire ++ o.sends } rfl
      List.mem_cons_self
    exact ⟨r, (Reaches.single _ trivial hbegin).trans hr, hsystem⟩

/-- Every other step is the system's own. -/
theorem lift_other (p : Process) {a : Action} {s' : System} (h : p.system.step a = some s')
    (hact : p.step (.act a) = (p.system.step a).map fun system => { p with system }) :
    ∃ q, p.Leads q ∧ q.system = s' :=
  ⟨{ p with system := s' }, .single (.act a) trivial (by rw [hact, h]; rfl), rfl⟩

theorem lift_step (p : Process) {a : Action} {s' : System} (h : p.system.step a = some s') :
    ∃ q, p.Leads q ∧ q.system = s' := by
  cases a with
  | background answers => exact lift_background p h
  | pump k answers => exact lift_pump p h
  | _ => exact lift_other p h rfl

/-- So every run of the system is one of the process. -/
theorem lift_leads {p : Process} {t : System} (h : Leads p.system t) :
    ∃ q, p.Leads q ∧ q.system = t := by
  induction h with
  | refl => exact ⟨p, .refl, rfl⟩
  | tail a _ _ next ih =>
    obtain ⟨q, hq, rfl⟩ := ih
    obtain ⟨r, hr, hsystem⟩ := lift_step q next
    exact ⟨r, hq.trans hr, hsystem⟩

/-- And a run of the process is one of its system. -/
theorem reachable_system {p : Process} (h : p.Reachable) : Reachable p.system := by
  have hkeep : ∀ {p : Process} {d : Deed} {p' : Process}, Reachable p.system → True →
      p.step d = some p' → Reachable p'.system := by
    intro p d p' hp _ hstep
    cases Process.does_of_step hstep with
    | begins => exact hp
    | returns a system o reply begun pumpsBegun awaited next => exact hp.tail a trivial next
    | other a system next => exact hp.tail a trivial next
  have hinit : Reachable ({} : Process).system := Reaches.refl
  exact Reaches.invariant hkeep hinit h

/-- The UI thread can return and end the process at any time. -/
theorem exits {p : Process} (hclosed : p.system.window = .closed) :
    p.Leads { p with system := { p.system with window := .exited } } := by
  have hdrop : p.step (.act .dropSenders) =
      some { p with system := { p.system with window := .returned } } := by
    simp [Process.step, System.step, hclosed]
  exact (Reaches.single _ trivial hdrop).trans (.single (.act .exit) trivial rfl)

/-- In every state of every run in which the window has been closed: the process
never exits, whatever the order of the steps from there, while a cast is under
way, if and only if no cast is and nothing can start one. -/
theorem closing_ends_cast_iff {p : Process} (h : p.Reachable)
    (hclosed : p.system.window = .closed) :
    (∀ q, p.Leads q → q.system.window = .exited → ¬ q.Underway) ↔ p.Over := by
  have hends : p.system.Ends := ends_of_leads ends_init (reachable_system h)
  constructor
  · intro hexits
    refine ⟨?_, ?_⟩
    · by_contra hplaying
      exact hexits _ (exits hclosed) rfl (.inr hplaying)
    · by_contra hnothing
      obtain ⟨t, ht, hwindow, hstarting⟩ :=
        canStart_of_something hends (by rw [hclosed]; nofun) hnothing
      obtain ⟨q, hq, rfl⟩ := lift_leads ht
      exact hexits _ (hq.trans (exits (hwindow.trans hclosed))) rfl (.inl hstarting)
  · intro hover q hq _
    exact not_underway (finished_of_leads ⟨hends, by rw [hclosed]; nofun, hover⟩ hq).isOver

/-- The window is closed after the user stopped a link, while the call of `Stop` is
under way. -/
theorem closing_ends_cast_iff_stopped : ∃ p : Process, p.system.window = .closed ∧
    p.begun = true ∧ p.Over ∧ ∀ q, p.Leads q → q.system.window = .exited → ¬ q.Underway := by
  have hreach : Process.Reachable _ := Reaches.of_run_met (linkRun ++
    [.act (.send .stop), .act .receive, .begin, .act .close]) rfl
  have hstops : OnlyStops [] := fun cmd hcmd => absurd hcmd List.not_mem_nil
  refine ⟨_, ?_, ?_, ?_, (closing_ends_cast_iff hreach rfl).mpr ?_⟩
  · rfl
  · rfl
  · exact ⟨rfl, rfl, hstops⟩
  · exact ⟨rfl, rfl, hstops⟩

/-- The window is closed while a renderer plays a link, and the process exits. -/
theorem exit_while_playing :
    let url := "http://192.168.1.9:9197/upnp/control/AVTransport1".toList
    ∃ p q : Process, p.Reachable ∧ p.system.window = .closed ∧
      (∃ session, p.system.loop = .idle (.media session)) ∧ p.Leads q ∧
      q.system.window = .exited ∧ q.Underway ∧
      q.wire = [.sent url .setAvTransportUri, .answered url .setAvTransportUri true,
        .sent url .play, .answered url .play true] := by
  intro url
  have hreach : Process.Reachable _ := Reaches.of_run_met (linkRun ++ [.act .close]) rfl
  refine ⟨_, _, hreach, rfl, ⟨_, rfl⟩, exits rfl, rfl, .inr ?_, ?_⟩
  · decide
  · rfl

/-- The renderer of what is active: that of a media session, or that of a pump
in its loop. -/
def Active.renderer (w : World) : Active → Option Str
  | none => Option.none
  | media session => some session.controlUrl
  | mirror pump =>
    w.pumps[pump]?.bind fun task =>
      match task.phase with
      | .pumping => some task.session.controlUrl
      | _ => Option.none

/-- What is active plays. -/
theorem playing_of_active {s : System} (h : Reachable s) {active : Active}
    (hidle : s.loop = .idle active) {url : Str} (hurl : active.renderer s.world = some url) :
    playing s.world.log = [url] := by
  obtain ⟨t, hfits, htracks⟩ := owned_of_reachable h
  rw [hidle] at hfits
  obtain rfl : t = active.token := hfits
  cases active with
  | none => cases hurl
  | media session =>
    cases hurl
    exact htracks.2.playing
  | mirror pump =>
    obtain ⟨task, hpump, -, hbacked⟩ := htracks
    rw [Active.renderer, hpump, Option.bind_some] at hurl
    split at hurl
    case h_1 hphase =>
      rw [PumpTask.Backed, hphase] at hbacked
      cases hurl
      exact hbacked.playing
    case h_2 => cases hurl

/-- Closing the window while anything is active can leave it playing. -/
theorem cast_outlives_app {p : Process} (h : p.Reachable) (hclosed : p.system.window = .closed)
    {active : Active} (hidle : p.system.loop = .idle active) {url : Str}
    (hurl : active.renderer p.system.world = some url) :
    ∃ q, p.Leads q ∧ q.system.window = .exited ∧ playing q.system.world.log = [url] :=
  ⟨_, exits hclosed, rfl, playing_of_active (reachable_system h) hidle hurl⟩

end HorizonCast.Casting
