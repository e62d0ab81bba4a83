import HorizonCast.Proofs.Servers
import HorizonCast.Proofs.SessionStages

/-! The casts of the app keep to the protocol of a session, however its tasks
interleave: a stage is in the hands of the background task or of one pump, and
each brings it on in turn. -/

namespace HorizonCast.Casting

open Routine Text Transition

/-! ### The log -/

/-- What a call records is what it shows. -/
theorem exec_log {w w' : World} {o : Op} {answer reply : Reply o}
    (he : w.exec o answer = some (reply, w')) : w'.log = w.log ++ (o.event reply).toList := by
  cases o with
  | awaitPump pump =>
    obtain ⟨-, heq⟩ := Option.ite_none_right_eq_some.mp he
    cases heq
    exact (List.append_nil _).symm
  | findDevice | spawnServer | stopServer | sendSoapAction =>
    cases he
    rfl
  | _ =>
    cases he
    exact (List.append_nil _).symm

theorem exec_pumps {w w' : World} {o : Op} (ho : o.aboutPumps = false) {answer reply : Reply o}
    (he : w.exec o answer = some (reply, w')) : w'.pumps = w.pumps := by
  cases o with
  | spawnPump | signalStop | awaitPump => cases ho
  | _ =>
    cases he
    rfl

/-- A call that is in turn leaves a log of the protocol. -/
theorem Conforms.exec {w w' : World} {stage : Stage} (h : Conforms w.log stage) {o : Op}
    {answer reply : Reply o} (he : w.exec o answer = some (reply, w'))
    (ho : ownRules.allows stage o) : Conforms w'.log (ownRules.after stage o reply) := by
  rw [exec_log he]
  exact run_ofProtocol h ho.2 reply

/-! ### The tasks -/

/-- The stage that a pump has brought the session to. -/
def PumpTask.Keeps (task : PumpTask) (log : List Event) : Prop :=
  match task.phase with
  | .pumping => Conforms log task.session.stage
  | .ending rest => ∃ stage, Conforms log stage ∧
      rest.Follows ownRules Over stage
  | .ended => Conforms log .idle

/-- The log stands where whoever has the session has brought it. At most one pump
is left. -/
def Share.Keeps (w : World) : Share → Prop
  | .own stage => (∀ task ∈ w.pumps, task.phase.hasEnded) ∧ Conforms w.log stage
  | .lent pump => ∃ task, w.pumps[pump]? = some task ∧
      (∀ i task', i ≠ pump → w.pumps[i]? = some task' → task'.phase.hasEnded) ∧
      task.Keeps w.log

theorem keeps_ofRest {task : PumpTask} {stage : Stage} {log : List Event} {rest : Async Unit}
    (h : Conforms log stage)
    (hrest : rest.Follows ownRules Over stage) :
    ({ task with phase := .ofRest rest } : PumpTask).Keeps log := by
  cases rest with
  | pure u =>
    obtain rfl : stage = .idle := hrest
    exact h
  | op o next => exact ⟨stage, h, hrest⟩

namespace Share.Keeps

/-- A change of the one pump that is left. -/
theorem setPump {w : World} {k : ℕ} {task : PumpTask} {f : PumpTask → PumpTask}
    (hk : w.pumps[k]? = some task)
    (hothers : ∀ i task', i ≠ k → w.pumps[i]? = some task' → task'.phase.hasEnded)
    (hf : (f task).Keeps w.log) : (Share.lent k).Keeps (w.setPump k f) := by
  refine ⟨f task, ?_, ?_, hf⟩
  · rw [World.setPump, List.getElem?_modify_eq, hk]
    rfl
  · intro i task' hi htask'
    apply hothers i task' hi
    rw [← htask', World.setPump, List.getElem?_modify_ne _ _ hi.symm]

/-- A pump that is awaited has ended, and all have. -/
theorem awaited {w : World} {k : ℕ} (h : (Share.lent k).Keeps w)
    (hended : w.pumps[k]?.all (·.phase.hasEnded) = true) : (Share.own .idle).Keeps w := by
  obtain ⟨task, hk, hothers, hkeeps⟩ := h
  have htask : task.phase.hasEnded := by simpa [hk] using hended
  refine ⟨?_, ?_⟩
  · intro task' hmem
    obtain ⟨i, hi⟩ := List.getElem?_of_mem hmem
    by_cases hik : i = k
    · subst hik
      cases hk.symm.trans hi
      exact htask
    · exact hothers i task' hik hi
  · obtain ⟨session, stopSent, phase⟩ := task
    cases phase with
    | ended => exact hkeeps
    | _ => exact absurd htask nofun

/-- The background task makes a call. -/
theorem exec {w w' : World} {t : Share} (h : t.Keeps w) {o : Op} {answer reply : Reply o}
    (he : w.exec o answer = some (reply, w')) (ho : shareRules.allows t o) :
    (shareRules.after t o reply).Keeps w' := by
  cases t with
  | own stage =>
    obtain ⟨hended, hlog⟩ := h
    cases o with
    | spawnPump session =>
      cases he
      obtain rfl : stage = session.stage := ho
      refine ⟨{ session }, List.getElem?_concat_length, ?_, hlog⟩
      intro i task' hi htask'
      have hlt : i < w.pumps.length := by
        have hle : i < w.pumps.length + 1 := by
          simpa using (List.getElem?_eq_some_iff.mp htask').1
        omega
      rw [List.getElem?_append_left hlt] at htask'
      exact hended task' (List.mem_of_getElem? htask')
    | signalStop | awaitPump => cases ho.1
    | _ =>
      have hpumps := exec_pumps rfl he
      exact ⟨hpumps ▸ hended, hlog.exec he ho⟩
  | lent k =>
    cases o with
    | signalStop p =>
      cases he
      obtain rfl : p = k := ho
      obtain ⟨task, hk, hothers, hkeeps⟩ := h
      exact setPump hk hothers hkeeps
    | awaitPump p =>
      obtain rfl : p = k := ho
      obtain ⟨hended, heq⟩ := Option.ite_none_right_eq_some.mp he
      cases heq
      exact h.awaited hended
    | _ => exact ho.elim

/-- A pump that has not ended is the one that is left. -/
theorem eq_lent {w : World} {t : Share} (h : t.Keeps w) {k : ℕ} {task : PumpTask}
    (hk : w.pumps[k]? = some task) (hlive : ¬ task.phase.hasEnded) :
    t = .lent k ∧ (∀ i task', i ≠ k → w.pumps[i]? = some task' → task'.phase.hasEnded) ∧
      task.Keeps w.log := by
  cases t with
  | own stage => exact absurd (h.1 task (List.mem_of_getElem? hk)) hlive
  | lent p =>
    obtain ⟨task', hp, hothers, hkeeps⟩ := h
    obtain rfl : p = k := by
      by_contra hne
      exact hlive (hothers k task (Ne.symm hne) hk)
    cases hp.symm.trans hk
    exact ⟨rfl, hothers, hkeeps⟩

/-- A pump takes a step. -/
theorem pump {s s' : System} {t : Share} (h : t.Keeps s.world) {k : ℕ} {task : PumpTask}
    (hk : s.world.pumps[k]? = some task) (hmove : s.PumpMove k task s') : t.Keeps s'.world := by
  cases hmove with
  | leave captureEnded pumping =>
    obtain ⟨rfl, hothers, hkeeps⟩ := h.eq_lent hk (by simp [pumping, PumpPhase.hasEnded])
    rw [PumpTask.Keeps, pumping] at hkeeps
    exact setPump hk hothers (keeps_ofRest hkeeps (endPump_stages task.session captureEnded))
  | call o next answer reply world ending exec =>
    obtain ⟨rfl, hothers, hkeeps⟩ := h.eq_lent hk (by simp [ending, PumpPhase.hasEnded])
    rw [PumpTask.Keeps, ending] at hkeeps
    obtain ⟨stage, hlog, hallows, hnext⟩ := hkeeps
    rw [← exec_pumps hallows.1 exec] at hk hothers
    exact setPump hk hothers (keeps_ofRest (hlog.exec exec hallows) (hnext reply))

end Share.Keeps

/-! ### The loop -/

/-- What is left to do brings the session on from where the background task has it. -/
def Loop.Keeps (t : Share) : Loop → Prop
  | .idle active => Leaves active t
  | .tearingDown rest _ => rest.Follows shareRules NothingLeft t
  | .starting rest => rest.Follows shareRules Leaves t
  | .finishing rest => rest.Follows shareRules NothingLeft t
  | .done => NothingLeft () t

theorem loopKeeps_ofStart {rest : Async Active} {t : Share}
    (h : rest.Follows shareRules Leaves t) : (Loop.ofStart rest).Keeps t := by
  cases rest
  · exact h
  · exact h

theorem loopKeeps_ofTeardown {rest : Async Unit} {t : Share}
    (h : rest.Follows shareRules NothingLeft t) (cmd : Cmd) :
    (Loop.ofTeardown rest cmd).Keeps t := by
  cases rest with
  | pure u =>
    obtain rfl : t = .own .idle := h
    exact loopKeeps_ofStart (startCmd_stages cmd)
  | op o next => exact h

theorem loopKeeps_ofFinish {rest : Async Unit} {t : Share}
    (h : rest.Follows shareRules NothingLeft t) :
    (Loop.ofFinish rest).Keeps t := by
  cases rest
  · exact h
  · exact h

/-- The session has come as far as the tasks say. -/
def System.Keeps (s : System) : Prop := ∃ t : Share, s.loop.Keeps t ∧ t.Keeps s.world

theorem keeps_init : System.Keeps {} := ⟨.own .idle, rfl, nofun, rfl⟩

theorem keeps_loopMove {s s' : System} (hs : s.Keeps) (h : s.LoopMove s') : s'.Keeps := by
  obtain ⟨t, hloop, hworld⟩ := hs
  cases h with
  | update devices active idle => exact ⟨t, hloop, by cases t <;> exact hworld⟩
  | receive active cmd rest idle queued =>
    rw [idle] at hloop
    obtain rfl : t = active.share := hloop
    exact ⟨_, loopKeeps_ofTeardown (teardown_stages active) cmd, hworld⟩
  | leave active idle =>
    rw [idle] at hloop
    obtain rfl : t = active.share := hloop
    exact ⟨_, loopKeeps_ofFinish (finish_stages active), hworld⟩
  | teardown o next cmd answer reply world tearing exec =>
    rw [tearing] at hloop
    exact ⟨_, loopKeeps_ofTeardown (hloop.2 reply) cmd, hworld.exec exec hloop.1⟩
  | start o next answer reply world starting exec =>
    rw [starting] at hloop
    exact ⟨_, loopKeeps_ofStart (hloop.2 reply), hworld.exec exec hloop.1⟩
  | finish o next answer reply world finishing exec =>
    rw [finishing] at hloop
    exact ⟨_, loopKeeps_ofFinish (hloop.2 reply), hworld.exec exec hloop.1⟩

theorem keeps_step {s s' : System} {a : Action} (hs : s.Keeps) (h : s.step a = some s') :
    s'.Keeps := by
  obtain ⟨-, hmove⟩ := System.moves_of_step h
  cases hmove with
  | ui _ move =>
    obtain ⟨t, hloop, hworld⟩ := hs
    cases move <;> exact ⟨t, hloop, hworld⟩
  | background _ move => exact keeps_loopMove hs move
  | pump k task _ spawned move =>
    obtain ⟨t, hloop, hworld⟩ := hs
    refine ⟨t, ?_, hworld.pump spawned move⟩
    cases move <;> exact hloop

theorem keeps_of_reachable {s : System} (h : Reachable s) :
    s.Keeps :=
  h.invariant (fun hs _ hstep => keeps_step hs hstep) keeps_init

/-! ### The protocol -/

theorem Share.Keeps.conforms {w : World} {t : Share} (h : t.Keeps w) :
    ∃ stage, Conforms w.log stage := by
  cases t with
  | own stage => exact ⟨stage, h.2⟩
  | lent k =>
    obtain ⟨task, -, -, hkeeps⟩ := h
    rw [PumpTask.Keeps] at hkeeps
    split at hkeeps
    · exact ⟨_, hkeeps⟩
    · obtain ⟨stage, hlog, -⟩ := hkeeps
      exact ⟨stage, hlog⟩
    · exact ⟨_, hkeeps⟩

theorem Conforms.unique {log : List Event} {stage stage' : Stage} (h : Conforms log stage)
    (h' : Conforms log stage') : stage = stage' := Option.some.inj (h.symm.trans h')

/-- Between commands the protocol stands where `Active` says. -/
theorem Share.Keeps.at_active {w : World} {active : Active} (h : active.share.Keeps w)
    {stage : Stage} (hlog : Conforms w.log stage) : active.At w stage := by
  cases active with
  | none => exact hlog.unique h.2
  | media session => exact hlog.unique h.2
  | mirror k =>
    obtain ⟨task, hk, -, hkeeps⟩ := h
    refine ⟨task, hk, ?_⟩
    rw [PumpTask.Keeps] at hkeeps
    cases hphase : task.phase with
    | pumping =>
      rw [hphase] at hkeeps
      exact hlog.unique hkeeps
    | ending rest => trivial
    | ended =>
      rw [hphase] at hkeeps
      exact hlog.unique hkeeps

/-- A log of the protocol, up to its last event. -/
theorem conforms_concat {log : List Event} {e : Event} {stage : Stage} :
    Conforms (log ++ [e]) stage ↔ ∃ before, Conforms log before ∧ before.next e = some stage := by
  unfold Conforms
  rw [Transition.run_concat, Option.bind_eq_some_iff]

/-- Every event of such a log was in turn. -/
theorem Conforms.in_turn {earlier later : List Event} {e : Event} {stage : Stage}
    (h : Conforms (earlier ++ e :: later) stage) :
    ∃ before after, Conforms earlier before ∧ before.next e = some after := by
  rw [Conforms, Transition.run_append] at h
  obtain ⟨before, hbefore, hrest⟩ := Option.bind_eq_some_iff.mp h
  obtain ⟨after, hafter, -⟩ := Option.bind_eq_some_iff.mp hrest
  exact ⟨before, after, hbefore, hafter⟩

/-- The event that leads to a stage. -/
def Stage.LedBy (e : Event) : Stage → Prop
  | idle => True
  | serving id => e = .serverStarted id
  | loaded _ url => e = .soapAction url .setAvTransportUri true
  | playing _ url => e = .soapAction url .play true
  | closing _ => ∃ url action ok, e = .soapAction url action ok ∧ (action = .stop ∨ ok = false)

theorem ledBy_over {e : Event} {server : Option ℕ} {url : Str} {action : SoapAction} {ok : Bool}
    (he : e = .soapAction url action ok) (hok : action = .stop ∨ ok = false) :
    (Stage.closed server).LedBy e := by
  cases server with
  | none => trivial
  | some id => exact ⟨url, action, ok, he, hok⟩

theorem ledBy_next {before after : Stage} {e : Event} (h : before.next e = some after) :
    after.LedBy e := by
  unfold Stage.next at h
  split at h
  case h_1 | h_2 =>
    cases h
    trivial
  case h_3 url ok =>
    cases h
    cases ok <;> trivial
  case h_4 id url ok =>
    cases h
    cases ok with
    | true => rfl
    | false => exact ⟨url, _, false, rfl, .inr rfl⟩
  case h_5 server url target ok =>
    obtain ⟨rfl, hafter⟩ := Option.ite_none_right_eq_some.mp h
    obtain rfl := Option.some.inj hafter
    cases ok with
    | true => rfl
    | false => exact ledBy_over rfl (.inr rfl)
  case h_6 server url target ok =>
    obtain ⟨rfl, hafter⟩ := Option.ite_none_right_eq_some.mp h
    obtain rfl := Option.some.inj hafter
    exact ledBy_over rfl (.inl rfl)
  case h_7 =>
    obtain ⟨-, hafter⟩ := Option.ite_none_right_eq_some.mp h
    obtain rfl := Option.some.inj hafter
    trivial
  case h_8 => cases h

/-- The last event is the one that led to the stage. -/
theorem Conforms.ledBy {log : List Event} {stage : Stage} (h : Conforms log stage)
    (hstage : stage ≠ .idle) : ∃ before e, log = before ++ [e] ∧ stage.LedBy e := by
  obtain rfl | ⟨before, e, rfl⟩ := log.eq_nil_or_concat'
  · exact absurd (Option.some.inj h).symm hstage
  · obtain ⟨_, -, hnext⟩ := conforms_concat.mp h
    exact ⟨before, e, rfl, ledBy_next hnext⟩

/-- An event that is in turn only at one stage, at which that stage's own event
came just before. -/
theorem Conforms.after_last {earlier later : List Event} {e : Event} {last : Stage}
    (h : Conforms (earlier ++ e :: later) last)
    (hidle : Stage.next .idle e = none) :
    ∃ before f, earlier = before ++ [f] ∧
      ∃ stage after : Stage, stage.LedBy f ∧ stage.next e = some after := by
  obtain ⟨stage, after, hlog, hnext⟩ := h.in_turn
  have hstage : stage ≠ .idle := by
    rintro rfl
    rw [hidle] at hnext
    cases hnext
  obtain ⟨before, f, rfl, hled⟩ := hlog.ledBy hstage
  exact ⟨before, f, rfl, stage, after, hled, hnext⟩

theorem play_after_load {before after : Stage} {e : Event} {url : Str} {ok : Bool}
    (hled : before.LedBy e) (hnext : before.next (.soapAction url .play ok) = some after) :
    e = .soapAction url .setAvTransportUri true := by
  cases before with
  | loaded server target =>
    obtain ⟨rfl, -⟩ := Option.ite_none_right_eq_some.mp hnext
    exact hled
  | _ => cases hnext

theorem stop_after_play {before after : Stage} {e : Event} {url : Str} {ok : Bool}
    (hled : before.LedBy e) (hnext : before.next (.soapAction url .stop ok) = some after) :
    e = .soapAction url .play true := by
  cases before with
  | playing server target =>
    obtain ⟨rfl, -⟩ := Option.ite_none_right_eq_some.mp hnext
    exact hled
  | _ => cases hnext

theorem stopServer_after {before after : Stage} {e : Event} {id : ℕ} (hled : before.LedBy e)
    (hnext : before.next (.serverStopped id) = some after) :
    ∃ url action ok, e = .soapAction url action ok ∧ (action = .stop ∨ ok = false) := by
  cases before with
  | closing server => exact hled
  | _ => cases hnext

/-- In every run, a renderer is told to play directly after it took a URI, and to
stop directly after it took the `Play`; a server is stopped directly after a
renderer was told to stop or failed to start. Nothing about renderers or servers
happens in between, whichever tasks run. -/
theorem actions_in_turn {s : System} (h : Reachable s)
    {earlier later : List Event} {e : Event} (hlog : s.world.log = earlier ++ e :: later) :
    (∀ url ok, e = .soapAction url .play ok →
      ∃ before, earlier = before ++ [.soapAction url .setAvTransportUri true]) ∧
    (∀ url ok, e = .soapAction url .stop ok →
      ∃ before, earlier = before ++ [.soapAction url .play true]) ∧
    (∀ id, e = .serverStopped id → ∃ before url action ok,
      earlier = before ++ [.soapAction url action ok] ∧ (action = .stop ∨ ok = false)) := by
  obtain ⟨t, -, hworld⟩ := keeps_of_reachable h
  obtain ⟨last, hconforms⟩ := hworld.conforms
  rw [hlog] at hconforms
  refine ⟨?_, ?_, ?_⟩
  · rintro url ok rfl
    obtain ⟨before, f, rfl, stage, after, hled, hnext⟩ := hconforms.after_last rfl
    exact ⟨before, by rw [play_after_load hled hnext]⟩
  · rintro url ok rfl
    obtain ⟨before, f, rfl, stage, after, hled, hnext⟩ := hconforms.after_last rfl
    exact ⟨before, by rw [stop_after_play hled hnext]⟩
  · rintro id rfl
    obtain ⟨before, f, rfl, stage, after, hled, hnext⟩ := hconforms.after_last rfl
    obtain ⟨url, action, ok, rfl, hok⟩ := stopServer_after hled hnext
    exact ⟨before, url, action, ok, rfl, hok⟩

/-- A link is played, and then stopped. -/
theorem actions_in_turn_stop : ∃ (s : System) (earlier before : List Event) (url : Str),
    s.world.log = earlier ++ [.soapAction url .stop true] ∧
      earlier = before ++ [.soapAction url .play true] := by
  let url : Str := "http://192.168.1.9:9197/upnp/control/AVTransport1".toList
  obtain ⟨s, hreach, hlog⟩ : ∃ s, Reachable s ∧ s.world.log =
      [.lookedUp "tv".toList, .soapAction url .setAvTransportUri true,
        .soapAction url .play true] ++ [.soapAction url .stop true] :=
    ⟨_, Reaches.of_run_met (castLink ++ [.send .stop, .receive, .background allSucceed]) rfl, rfl⟩
  obtain ⟨-, hstop, -⟩ := actions_in_turn hreach hlog
  obtain ⟨before, hbefore⟩ := hstop url true rfl
  exact ⟨s, _, before, url, hlog, hbefore⟩

end HorizonCast.Casting
