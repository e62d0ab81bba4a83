import HorizonCast.Lib.Transition
import HorizonCast.Proofs.CastSteps
import HorizonCast.Proofs.Discipline

/-! No cast leaks a server: what the background task and the pump hold is what
the log leaves running, in every state of every run. -/

namespace HorizonCast.Casting

open Routine Text Transition

/-! ### What is held and what happened -/

/-- The log is in order, and leaves running and playing what is held. -/
structure Backs (h : Hold) (log : List Event) : Prop where
  exclusive : Leases.Exclusive Event.mark log h.server
  numbered : started log = List.range (started log).length
  playing : playing log = h.playing.toList

theorem playing_snoc (log : List Event) (e : Event) :
    playing (log ++ [e]) =
      match e with
      | .soapAction url .play true => playing log ++ [url]
      | .soapAction url .stop _ => (playing log).filter (· ≠ url)
      | _ => playing log := by
  rw [playing, List.foldl_append]
  rfl

/-- An event that starts no server keeps the numbering. -/
theorem numbered_snoc {log : List Event} (h : started log = List.range (started log).length)
    {e : Event} (he : ∀ id, e.mark ≠ .acquire id) :
    started (log ++ [e]) = List.range (started (log ++ [e])).length := by
  have hlog : started (log ++ [e]) = started log := by
    rw [started, Leases.acquired_snoc]
    cases hm : e.mark with
    | acquire id => exact absurd hm (he id)
    | _ => exact List.append_nil _
  rw [hlog]
  exact h

namespace Backs

variable {h : Hold} {log : List Event}

theorem init : Backs .free [] := ⟨.nil, rfl, rfl⟩

theorem running_eq (hb : Backs h log) : running log = h.server.toList := hb.exclusive.held_eq

theorem lookUp (hb : Backs .free log) (id : Str) : Backs .free (log ++ [.lookedUp id]) where
  exclusive := hb.exclusive.barrier rfl
  numbered := numbered_snoc hb.numbered nofun
  playing := by
    rw [playing_snoc]
    exact hb.playing

theorem start (hb : Backs h log) (hh : h.server = none) :
    Backs { h with server := some (started log).length }
      (log ++ [.serverStarted (started log).length]) where
  exclusive := by
    have hfree : Leases.Exclusive Event.mark log none := hh ▸ hb.exclusive
    apply hfree.acquire rfl
    change (started log).length ∉ started log
    rw [hb.numbered, List.length_range]
    exact List.not_mem_range_self
  numbered := by
    have hlog : started (log ++ [.serverStarted (started log).length]) =
        started log ++ [(started log).length] := Leases.acquired_snoc ..
    rw [hlog, List.length_append, List.length_singleton, List.range_succ, ← hb.numbered]
  playing := by
    rw [playing_snoc]
    exact hb.playing

theorem stop (hb : Backs h log) {id : ℕ} (hh : h.server = some id) :
    Backs { h with server := none } (log ++ [.serverStopped id]) where
  exclusive := (hh ▸ hb.exclusive : Leases.Exclusive _ _ (some id)).release rfl
  numbered := numbered_snoc hb.numbered nofun
  playing := by
    rw [playing_snoc]
    exact hb.playing

/-- An exchange with a renderer. -/
theorem soap (hb : Backs h log) (url : Str) (action : SoapAction) (ok : Bool) {now : Option Str}
    (hnow : Casting.playing (log ++ [.soapAction url action ok]) = now.toList) :
    Backs { h with playing := now } (log ++ [.soapAction url action ok]) where
  exclusive := hb.exclusive.other rfl
  numbered := numbered_snoc hb.numbered nofun
  playing := hnow

/-- A call that the rules allow, made by whoever holds `h`. -/
theorem exec {w w' : World} (hb : Backs h w.log) {o : Op} {answer reply : Reply o}
    (he : w.exec o answer = some (reply, w')) (ho : sessionRules.allows h o) :
    Backs (sessionRules.after h o reply) w'.log ∧ w'.pumps = w.pumps := by
  cases o with
  | findDevice id =>
    cases he
    obtain rfl : h = .free := ho
    exact ⟨hb.lookUp id, rfl⟩
  | spawnServer =>
    cases he
    exact ⟨hb.start ho, rfl⟩
  | stopServer id =>
    cases he
    exact ⟨hb.stop ho, rfl⟩
  | sendSoapAction url action body =>
    cases he
    refine ⟨?_, rfl⟩
    cases action with
    | setAvTransportUri => exact hb.soap url _ _ ((playing_snoc _ _).trans hb.playing)
    | play =>
      have hnone : Casting.playing w.log = [] := by
        rw [hb.playing, show h.playing = none from ho, Option.toList_none]
      cases answer with
      | error e => exact hb.soap url _ _ ((playing_snoc _ _).trans hb.playing)
      | ok text =>
        apply hb.soap url .play true
        rw [playing_snoc, hnone]
        rfl
    | stop =>
      apply hb.soap url .stop
      rw [playing_snoc, hb.playing, show h.playing = some url from ho]
      simp
  | spawnPump | signalStop | awaitPump => exact ho.elim
  | _ =>
    cases he
    exact ⟨hb, rfl⟩

end Backs

/-! ### The pumps -/

/-- Nothing is held. -/
def Spent (_ : Unit) (h : Hold) : Prop := h = .free

/-- What a pump holds is what the log leaves running, and the rest of it gives
that back. -/
def PumpTask.Backed (task : PumpTask) (log : List Event) : Prop :=
  match task.phase with
  | .pumping => Backs task.session.hold log
  | .ending rest => ∃ url, Backs ⟨some task.session.live.id, url⟩ log ∧
      rest.Follows pumpRules Spent ⟨some task.session.live.id, url⟩
  | .ended => Backs .free log

/-- A pump never changes servers. -/
theorem server_after {h : Hold} {o : Op} (ho : pumpRules.allows h o) (reply : Reply o) :
    (pumpRules.after h o reply).server = h.server ∨ (pumpRules.after h o reply).server = none := by
  cases o with
  | spawnServer => exact absurd ho.2 ho.1
  | stopServer id => exact .inr rfl
  | sendSoapAction url action body =>
    cases action <;> cases reply <;> exact .inl rfl
  | _ => exact .inl rfl

/-- A pump that has stopped its server has nothing left to do. -/
theorem backed_ofRest {task : PumpTask} {h : Hold} {log : List Event} {rest : Async Unit}
    (hb : Backs h log) (hrest : rest.Follows pumpRules Spent h)
    (hserver : h.server = some task.session.live.id ∨ h.server = none) :
    ({ task with phase := .ofRest rest } : PumpTask).Backed log := by
  cases rest with
  | pure u =>
    obtain rfl : h = .free := hrest
    exact hb
  | op o next =>
    have hsome := hserver.resolve_right hrest.1.1
    obtain ⟨server, url⟩ := h
    obtain rfl : server = some task.session.live.id := hsome
    exact ⟨url, hb, hrest⟩

/-- What a token says of the world: at most one pump is left, and it or the task
itself holds what is running. -/
def Token.Tracks (w : World) : Token → Prop
  | .hold h => (∀ task ∈ w.pumps, task.phase.hasEnded) ∧ Backs h w.log
  | .mirror pump => ∃ task, w.pumps[pump]? = some task ∧
      (∀ i task', i ≠ pump → w.pumps[i]? = some task' → task'.phase.hasEnded) ∧
      task.Backed w.log

namespace Token.Tracks

/-- A change of the one pump that is left. -/
theorem setPump {w : World} {pump : ℕ} {task : PumpTask} {f : PumpTask → PumpTask}
    (hpump : w.pumps[pump]? = some task)
    (hothers : ∀ i task', i ≠ pump → w.pumps[i]? = some task' → task'.phase.hasEnded)
    (hf : (f task).Backed w.log) : (Token.mirror pump).Tracks (w.setPump pump f) := by
  refine ⟨f task, ?_, ?_, hf⟩
  · rw [World.setPump, List.getElem?_modify_eq, hpump]
    rfl
  · intro i task' hi htask'
    apply hothers i task' hi
    rw [← htask', World.setPump, List.getElem?_modify_ne _ _ hi.symm]

/-- The background task makes a call. -/
theorem exec {w w' : World} {t : Token} (ht : t.Tracks w) {o : Op} {answer reply : Reply o}
    (he : w.exec o answer = some (reply, w')) (ho : taskRules.allows t o) :
    (taskRules.after t o reply).Tracks w' := by
  cases t with
  | hold h =>
    obtain ⟨hended, hb⟩ := ht
    cases o with
    | spawnPump session =>
      cases he
      obtain rfl : h = session.hold := ho
      refine ⟨{ session }, List.getElem?_concat_length, ?_, hb⟩
      intro i task' hi htask'
      obtain hmem | hnew := List.mem_append.mp (List.mem_of_getElem? htask')
      · exact hended task' hmem
      · have hlt : i < w.pumps.length + 1 := by
          simpa using (List.getElem?_eq_some_iff.mp htask').1
        rw [List.getElem?_append_left (by omega)] at htask'
        exact hended task' (List.mem_of_getElem? htask')
    | _ =>
      obtain ⟨hb', hpumps⟩ := hb.exec he ho
      exact ⟨hpumps ▸ hended, hb'⟩
  | mirror pump =>
    obtain ⟨task, hpump, hothers, hbacked⟩ := ht
    cases o with
    | signalStop p =>
      cases he
      obtain rfl : p = pump := ho
      exact setPump hpump hothers hbacked
    | awaitPump p =>
      obtain rfl : p = pump := ho
      obtain ⟨hended, heq⟩ := Option.ite_none_right_eq_some.mp he
      cases heq
      have htask : task.phase.hasEnded := by simpa [hpump] using hended
      refine ⟨?_, ?_⟩
      · intro task' htask'
        obtain ⟨i, hi⟩ := List.getElem?_of_mem htask'
        by_cases hip : i = p
        · subst hip
          cases hpump.symm.trans hi
          exact htask
        · exact hothers i task' hip hi
      · obtain ⟨session, stopSent, phase⟩ := task
        cases phase with
        | ended => exact hbacked
        | _ => exact absurd htask nofun
    | _ => exact ho.elim

/-- A pump that has not ended is the one that is left. -/
theorem eq_mirror {w : World} {t : Token} (ht : t.Tracks w) {pump : ℕ} {task : PumpTask}
    (hpump : w.pumps[pump]? = some task) (hlive : ¬ task.phase.hasEnded) :
    t = .mirror pump ∧
      (∀ i task', i ≠ pump → w.pumps[i]? = some task' → task'.phase.hasEnded) ∧
      task.Backed w.log := by
  cases t with
  | hold h => exact absurd (ht.1 task (List.mem_of_getElem? hpump)) hlive
  | mirror p =>
    obtain ⟨task', hp, hothers, hbacked⟩ := ht
    obtain rfl : p = pump := by
      by_contra hne
      exact hlive (hothers pump task (Ne.symm hne) hpump)
    cases hp.symm.trans hpump
    exact ⟨rfl, hothers, hbacked⟩

/-- A pump takes a step. -/
theorem pump {s s' : System} {t : Token} (ht : t.Tracks s.world) {k : ℕ} {task : PumpTask}
    (hk : s.world.pumps[k]? = some task) (h : s.PumpMove k task s') : t.Tracks s'.world := by
  cases h with
  | leave captureEnded pumping =>
    obtain ⟨rfl, hothers, hbacked⟩ := ht.eq_mirror hk (by simp [pumping, PumpPhase.hasEnded])
    rw [PumpTask.Backed, pumping] at hbacked
    exact setPump hk hothers
      (backed_ofRest hbacked (endPump_follows task.session captureEnded) (.inl rfl))
  | call o next answer reply world ending exec =>
    obtain ⟨rfl, hothers, hbacked⟩ := ht.eq_mirror hk (by simp [ending, PumpPhase.hasEnded])
    rw [PumpTask.Backed, ending] at hbacked
    obtain ⟨url, hb, hallows, hnext⟩ := hbacked
    obtain ⟨hb', hpumps⟩ := hb.exec exec hallows.2
    rw [← hpumps] at hk hothers
    exact setPump hk hothers (backed_ofRest hb' (hnext reply) (server_after hallows reply))

end Token.Tracks

/-! ### The loop -/

/-- What is left to do gives back what the background task holds. -/
def Loop.Fits (t : Token) : Loop → Prop
  | .idle active => Left active t
  | .tearingDown rest _ => rest.Follows taskRules NoneLeft t
  | .starting rest => rest.Follows taskRules Left t
  | .finishing rest => rest.Follows taskRules NoneLeft t
  | .done => NoneLeft () t

theorem fits_ofStart {rest : Async Active} {t : Token} (h : rest.Follows taskRules Left t) :
    (Loop.ofStart rest).Fits t := by
  cases rest
  · exact h
  · exact h

theorem fits_ofTeardown {rest : Async Unit} {t : Token} (h : rest.Follows taskRules NoneLeft t)
    (cmd : Cmd) : (Loop.ofTeardown rest cmd).Fits t := by
  cases rest with
  | pure u =>
    obtain rfl : t = .hold .free := h
    exact fits_ofStart (startCmd_follows cmd)
  | op o next => exact h

theorem fits_ofFinish {rest : Async Unit} {t : Token} (h : rest.Follows taskRules NoneLeft t) :
    (Loop.ofFinish rest).Fits t := by
  cases rest
  · exact h
  · exact h

/-- What the background task holds, by itself and through a pump, is what runs. -/
def System.Owned (s : System) : Prop := ∃ t : Token, s.loop.Fits t ∧ t.Tracks s.world

theorem owned_init : System.Owned {} := ⟨.hold .free, rfl, nofun, .init⟩

theorem owned_loopMove {s s' : System} (hs : s.Owned) (h : s.LoopMove s') : s'.Owned := by
  obtain ⟨t, hfits, htracks⟩ := hs
  cases h with
  | update devices active idle => exact ⟨t, hfits, by cases t <;> exact htracks⟩
  | receive active cmd rest idle queued =>
    rw [idle] at hfits
    obtain rfl : t = active.token := hfits
    exact ⟨_, fits_ofTeardown (teardown_follows active) cmd, htracks⟩
  | leave active idle =>
    rw [idle] at hfits
    obtain rfl : t = active.token := hfits
    exact ⟨_, fits_ofFinish (finish_follows active), htracks⟩
  | teardown o next cmd answer reply world tearing exec =>
    rw [tearing] at hfits
    exact ⟨_, fits_ofTeardown (hfits.2 reply) cmd, htracks.exec exec hfits.1⟩
  | start o next answer reply world starting exec =>
    rw [starting] at hfits
    exact ⟨_, fits_ofStart (hfits.2 reply), htracks.exec exec hfits.1⟩
  | finish o next answer reply world finishing exec =>
    rw [finishing] at hfits
    exact ⟨_, fits_ofFinish (hfits.2 reply), htracks.exec exec hfits.1⟩

theorem owned_step {s s' : System} {a : Action} (hs : s.Owned) (h : s.step a = some s') :
    s'.Owned := by
  obtain ⟨-, hmove⟩ := System.moves_of_step h
  cases hmove with
  | ui _ move =>
    obtain ⟨t, hfits, htracks⟩ := hs
    cases move <;> exact ⟨t, hfits, htracks⟩
  | background _ move => exact owned_loopMove hs move
  | pump k task _ spawned move =>
    obtain ⟨t, hfits, htracks⟩ := hs
    refine ⟨t, ?_, htracks.pump spawned move⟩
    cases move <;> exact hfits

/-- Some run leads from one state to the other, whatever the calls return and
however the tasks interleave. -/
abbrev Leads (s t : System) : Prop := Reaches System.step (fun _ _ => True) s t

def Reachable (s : System) : Prop := Leads {} s

theorem owned_of_reachable {s : System} (h : Reachable s) : s.Owned :=
  h.invariant (fun hs _ hstep => owned_step hs hstep) owned_init

/-! ### No server leaks -/

/-- The server that `Active` owns: that of a media session, or that of the
session in a pump that has not ended. -/
def Active.server (w : World) : Active → Option ℕ
  | none => Option.none
  | media session => session.server.map (·.id)
  | mirror pump =>
    w.pumps[pump]?.bind fun task =>
      if task.phase.hasEnded then Option.none else some task.session.live.id

theorem Token.Tracks.exclusive {w : World} {t : Token} (h : t.Tracks w) :
    ∃ server, Leases.Exclusive Event.mark w.log server := by
  cases t with
  | hold held => exact ⟨_, h.2.exclusive⟩
  | mirror pump =>
    obtain ⟨task, -, -, hbacked⟩ := h
    rw [PumpTask.Backed] at hbacked
    split at hbacked
    · exact ⟨_, hbacked.exclusive⟩
    · obtain ⟨url, hb, -⟩ := hbacked
      exact ⟨_, hb.exclusive⟩
    · exact ⟨_, hbacked.exclusive⟩

theorem Token.Tracks.running_eq {w : World} {active : Active} (h : active.token.Tracks w) :
    running w.log = (active.server w).toList := by
  cases active with
  | none => exact h.2.running_eq
  | media session => exact h.2.running_eq
  | mirror pump =>
    obtain ⟨task, hpump, -, hbacked⟩ := h
    rw [Active.server, hpump, Option.bind_some]
    rw [PumpTask.Backed] at hbacked
    split at hbacked <;> rename_i hphase
    · rw [hphase]
      exact hbacked.running_eq
    · obtain ⟨url, hb, -⟩ := hbacked
      rw [hphase]
      exact hb.running_eq
    · rw [hphase]
      exact hbacked.running_eq

/-- In every state of every run: whenever a start begins or a server is started,
none is running; servers are distinct, and each is either running or was stopped
exactly once; between commands what runs is what `Active` owns, at most one; and
nothing runs after the final teardown. -/
theorem servers_not_leaked {s : System} (h : Reachable s) :
    (∀ earlier e later, s.world.log = earlier ++ e :: later →
      (∃ id, e = .lookedUp id) ∨ (∃ id, e = .serverStarted id) → running earlier = []) ∧
    (started s.world.log).Nodup ∧
    started s.world.log = stopped s.world.log ++ running s.world.log ∧
    (∀ active, s.loop = .idle active →
      running s.world.log = (active.server s.world).toList) ∧
    (s.loop = .done → running s.world.log = []) := by
  obtain ⟨t, hfits, htracks⟩ := owned_of_reachable h
  obtain ⟨server, hexcl⟩ := htracks.exclusive
  refine ⟨?_, hexcl.nodup, ?_, ?_, ?_⟩
  · intro earlier e later hlog he
    apply hexcl.free_before hlog
    obtain ⟨id, rfl⟩ | ⟨id, rfl⟩ := he
    · exact .inl rfl
    · exact .inr ⟨id, rfl⟩
  · exact hexcl.acquired_eq.trans (congrArg _ hexcl.held_eq.symm)
  · intro active hidle
    rw [hidle] at hfits
    obtain rfl : t = active.token := hfits
    exact htracks.running_eq
  · intro hdone
    rw [hdone] at hfits
    obtain rfl : t = .hold .free := hfits
    exact htracks.2.running_eq

/-- A file was cast, and the screen after it: the first server was stopped, the
second one runs. -/
theorem servers_not_leaked_mirror : ∃ s : System, s.loop = .idle (.mirror 0) ∧
    started s.world.log = [0, 1] ∧
    started s.world.log = stopped s.world.log ++ running s.world.log ∧
    running s.world.log = [1] := by
  have hreach : Reachable _ := Reaches.of_run_met (castLocal ++
    [.send (.mirror "tv".toList 30 12000), .receive] ++
    List.replicate 11 (.background allSucceed)) rfl
  obtain ⟨-, -, hstarted, hidle, -⟩ := servers_not_leaked hreach
  exact ⟨_, rfl, rfl, hstarted, hidle (.mirror 0) rfl⟩

end HorizonCast.Casting
