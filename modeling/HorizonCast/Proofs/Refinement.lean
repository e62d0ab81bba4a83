import HorizonCast.Proofs.CastSteps
import HorizonCast.Proofs.WindowSteps

/-! Every run of the casts, call by call, is one of the window's model, with the same
commands coming in and the same closures going out. A step of that model stands for many
calls: it is taken with the last of them, or with the one that posts. -/

namespace HorizonCast.Casting

open Routine Text Transition

/-! ### The steps of the casts -/

theorem exec_snapshot {w w' : World} {o : Op} {answer reply : Reply o}
    (he : w.exec o answer = some (reply, w')) : w'.snapshot = w.snapshot := by
  cases o with
  | awaitPump pump =>
    obtain ⟨-, heq⟩ := Option.ite_none_right_eq_some.mp he
    cases heq
    rfl
  | _ =>
    cases he
    rfl

/-- The background task has left its loop. -/
def System.Leaving (s : System) : Prop :=
  match s.loop with
  | .finishing _ | .done => True
  | _ => False

theorem Layered.goes {s : Posting} {app app' : App} (h : Layered s app) {posts : List Closure}
    (hgoes : Goes app posts app') {system : System}
    (hcommands : system.commands = s.system.commands)
    (hsnapshot : system.world.snapshot = s.system.world.snapshot)
    (hmatches : Matches system.world system.loop app'.loop app'.active) :
    ∃ bs app', run backStep app bs = some app' ∧ bs.flatMap BackAction.sends = [] ∧
      Layered ⟨system, s.posted ++ posts⟩ app' := by
  obtain ⟨bs, hrun, hsends, hcommands', hsnapshot', hclosures⟩ := hgoes
  refine ⟨bs, app', hrun, hsends, ?_, ?_, ?_, hmatches⟩
  · rw [hcommands', hcommands, h.commands]
  · rw [hsnapshot', hsnapshot, h.snapshot]
  · rw [hclosures, h.closures]

/-- What is left of the teardown of a file or a link is matched. -/
theorem goes_ofMedia {w : World} {rest : Async Unit} (hquiet : rest.Only Quiet)
    (hended : AllEnded w.pumps) (cmd : Cmd) {app : App} (hloop : app.loop = .tearingDown .media cmd)
    (hactive : app.active = .none) (hsnapshot : app.snapshot = w.snapshot) :
    ∃ app', Goes app [] app' ∧ Matches w (.ofTeardown rest cmd) app'.loop app'.active := by
  cases rest with
  | pure u => exact goes_tornDown hended rfl cmd hloop hactive hsnapshot
  | op o next =>
    refine ⟨app, .refl app, ?_⟩
    rw [hloop, hactive]
    exact .tearingDown (.media hquiet hended)

theorem PumpPhase.Is.finished {phase : PumpPhase} {pump : Pump} (h : phase.Is pump)
    (hended : phase.hasEnded = true) : (HorizonCast.Active.mirror pump).isPumping = false := by
  cases h with
  | ended => rfl
  | _ => cases hended

section Steps

variable {s : Posting} {app : App}

theorem layered_teardown (h : Layered s app) {o : Op} {next : Reply o → Async Unit} {cmd : Cmd}
    {answer reply : Reply o} {world : World}
    (htearing : s.system.loop = .tearingDown (.op o next) cmd)
    (hexec : s.system.world.exec o answer = some (reply, world)) :
    ∃ app', Goes app o.posts app' ∧ world.snapshot = s.system.world.snapshot ∧
      Matches world (.ofTeardown (next reply) cmd) app'.loop app'.active := by
  have hmatches := h.loop
  have hsnapshot := h.snapshot
  rw [htearing] at hmatches
  generalize hloop : app.loop = back at hmatches
  generalize hactive : app.active = held at hmatches
  cases hmatches with
  | tearingDown tears =>
    cases tears with
    | media quiet ended =>
      obtain ⟨hpumps, hsame⟩ := exec_quiet quiet.1 hexec
      obtain ⟨app', hgoes, hmatches⟩ := goes_ofMedia (quiet.2 reply) (hpumps ▸ ended) cmd hloop
        hactive (hsnapshot.trans hsame.symm)
      rw [posts_quiet quiet.1]
      exact ⟨app', hgoes, hsame, hmatches⟩
    | mirror alone phase left =>
      cases left with
      | signal going =>
        cases hexec
        refine ⟨app, .refl app, rfl, ?_⟩
        rw [hloop, hactive]
        exact .tearingDown (.mirror (alone.modify _) phase .await)
      | @await =>
        obtain ⟨hended, heq⟩ := Option.ite_none_right_eq_some.mp hexec
        cases heq
        rw [alone.spawned, Option.all_some] at hended
        refine ⟨app, .refl app, rfl, ?_⟩
        rw [hloop, hactive]
        exact .tearingDown (.mirror alone phase (.capture hended))
      | capture ended =>
        cases hexec
        obtain ⟨app', hgoes, hmatches⟩ := goes_tornDown (alone.allEnded ended)
          (phase.finished ended) cmd hloop hactive hsnapshot
        exact ⟨app', hgoes, rfl, hmatches⟩

theorem layered_start (h : Layered s app) {o : Op} {next : Reply o → Async Active}
    {answer reply : Reply o} {world : World} (hstarting : s.system.loop = .starting (.op o next))
    (hexec : s.system.world.exec o answer = some (reply, world)) :
    ∃ app', Goes app o.posts app' ∧ world.snapshot = s.system.world.snapshot ∧
      Matches world (.ofStart (next reply)) app'.loop app'.active := by
  have hmatches := h.loop
  rw [hstarting] at hmatches
  generalize hloop : app.loop = back at hmatches
  generalize hactive : app.active = held at hmatches
  cases hmatches with
  | starting follows holds =>
    have hsame : world.snapshot = s.system.world.snapshot := exec_snapshot hexec
    obtain ⟨app', hgoes, hmatches⟩ := goes_ofStart (follows.2 reply) (holds.exec follows.1 hexec)
      hloop hactive (h.snapshot.trans hsame.symm)
    rw [owed_after follows.1] at hgoes
    exact ⟨app', hgoes, hsame, hmatches⟩

theorem layered_receive (h : Layered s app) {active : Active} {cmd : Cmd} {rest : List Cmd}
    (hidle : s.system.loop = .idle active) (hqueued : s.system.commands = cmd :: rest) :
    ∃ bs app', run backStep app bs = some app' ∧ bs.flatMap BackAction.sends = [] ∧
      Layered ⟨{ s.system with commands := rest, loop := .ofTeardown (teardown active) cmd },
        s.posted⟩ app' := by
  have hmatches := h.loop
  have hcommands := h.commands
  rw [hidle] at hmatches
  rw [hqueued] at hcommands
  generalize hloop : app.loop = back at hmatches
  generalize hactive : app.active = held at hmatches
  cases hmatches with
  | idle same =>
    -- the window's model has received the command
    have hreceive : app.background .receive = some { app with
        commands := rest, loop := .tearingDown held cmd, active := .none } := by
      simp only [App.background, hloop, hcommands, hactive]
    obtain ⟨app', ⟨bs, hrun, hsends, hcommands', hsnapshot', hclosures'⟩, hmatches⟩ :
        ∃ app', Goes { app with
            commands := rest, loop := .tearingDown held cmd, active := .none } [] app' ∧
          Matches s.system.world (.ofTeardown (teardown active) cmd) app'.loop app'.active := by
      cases same with
      | none ended => exact goes_tornDown ended rfl cmd rfl rfl h.snapshot
      | media session ended =>
        exact ⟨_, .refl _, .tearingDown (.media
          ((mediaStop_quiet session).bind fun _ => trivial) ended)⟩
      | mirror alone going phase =>
        exact ⟨_, .refl _, .tearingDown (.mirror alone phase (.signal going))⟩
    refine ⟨.step .receive :: bs, app', ?_, hsends, ?_, ?_, ?_, hmatches⟩
    · simp only [run, backStep, hreceive, Option.bind_some, hrun]
    · exact hcommands'
    · exact hsnapshot'.trans h.snapshot
    · rw [hclosures', List.append_nil]
      exact h.closures

theorem layered_update (h : Layered s app) {active : Active} (hidle : s.system.loop = .idle active)
    (devices : List Device) :
    ∃ bs app', run backStep app bs = some app' ∧ bs.flatMap BackAction.sends = [] ∧
      Layered ⟨{ s.system with world := { s.system.world with snapshot := devices } },
        s.posted ++ [.setDevices (devices.map toItem)]⟩ app' := by
  have hmatches := h.loop
  rw [hidle] at hmatches
  generalize hloop : app.loop = back at hmatches
  generalize hactive : app.active = held at hmatches
  cases hmatches with
  | idle same =>
    refine ⟨[.step (.update devices), .step .publish],
      { app with
        snapshot := devices, loop := .idle,
        closures := app.closures ++ [.setDevices (devices.map toItem)] }, ?_, rfl,
      h.commands, rfl, ?_, ?_⟩
    · simp only [run, backStep, App.background, hloop, if_true, Option.bind_some, App.post]
    · exact congrArg (· ++ _) h.closures
    · dsimp only
      rw [hidle, hactive]
      exact .idle same

/-- What is left of a pump after its loop is matched: by its end if nothing is left. -/
theorem goes_ofRest {rest : Async Unit} (hquiet : rest.Only Quiet) {place : Place}
    (hloop : app.loop = place.loop .stopping) (hactive : app.active = place.active .stopping) :
    ∃ app' pump, Goes app [] app' ∧ app'.loop = place.loop pump ∧
      app'.active = place.active pump ∧ (PumpPhase.ofRest rest).Is pump := by
  cases rest with
  | pure u =>
    obtain ⟨app', hgoes, hloop', hactive'⟩ := goes_pumpFinishes hloop hactive
    exact ⟨app', .finished, hgoes, hloop', hactive', .ended⟩
  | op o next => exact ⟨app, .stopping, .refl app, hloop, hactive, .stopping hquiet⟩

section Pumps

variable {k : ℕ} {task : PumpTask}

theorem layered_stopSignal (h : Layered s app) (hk : s.system.world.pumps[k]? = some task)
    (hphase : task.phase = .pumping) (hstop : task.stopSent = true) {system : System}
    (hsystem : system = s.system.toPhase k s.system.world (endPump task.session false)) :
    ∃ app', Goes app [] app' ∧ Matches system.world system.loop app'.loop app'.active := by
  obtain ⟨place, pump, hloop, hactive, his, hgoing, hnext⟩ :=
    h.loop.alive hk (by rw [hphase]; rfl)
  rw [hphase] at his
  cases his
  cases place with
  | none => simp [hgoing rfl] at hstop
  | some cmd =>
    obtain ⟨app', hgoes, hloop', hactive'⟩ := goes_stopSignal hloop
    refine ⟨app', hgoes, ?_⟩
    rw [hsystem, hloop', hactive', hactive]
    exact hnext _ _ .stopping rfl (.stopping ((liveStop_quiet task.session).bind fun _ => trivial))

theorem layered_captureEnds (h : Layered s app) (hk : s.system.world.pumps[k]? = some task)
    (hphase : task.phase = .pumping) {system : System}
    (hsystem : system = s.system.toPhase k s.system.world (endPump task.session true)) :
    ∃ app', Goes app [] app' ∧ Matches system.world system.loop app'.loop app'.active := by
  obtain ⟨place, pump, hloop, hactive, his, -, hnext⟩ := h.loop.alive hk (by rw [hphase]; rfl)
  rw [hphase] at his
  cases his
  refine ⟨app, .refl app, ?_⟩
  rw [hsystem, hloop, hactive]
  exact hnext _ _ .pumping rfl (.leaving ((liveStop_quiet task.session).bind fun _ => trivial))

theorem layered_endPump (h : Layered s app) (hk : s.system.world.pumps[k]? = some task) {o : Op}
    {next : Reply o → Async Unit} {answer reply : Reply o} {world : World}
    (hphase : task.phase = .ending (.op o next))
    (hexec : s.system.world.exec o answer = some (reply, world)) {system : System}
    (hsystem : system = s.system.toPhase k world (next reply)) :
    ∃ app', Goes app o.posts app' ∧ Matches system.world system.loop app'.loop app'.active := by
  obtain ⟨place, pump, hloop, hactive, his, -, hnext⟩ := h.loop.alive hk (by rw [hphase]; rfl)
  rw [hphase] at his
  cases his with
  | leaving quiet =>
    cases hexec
    obtain ⟨app₁, hgoes₁, hloop₁, hactive₁⟩ := goes_captureEnds hloop hactive
    obtain ⟨app₂, pump, hgoes₂, hloop₂, hactive₂, his⟩ := goes_ofRest quiet hloop₁ hactive₁
    refine ⟨app₂, hgoes₁.trans hgoes₂, ?_⟩
    rw [hsystem, hloop₂, hactive₂]
    exact hnext _ _ pump rfl his
  | stopping quiet =>
    obtain ⟨hpumps, -⟩ := exec_quiet quiet.1 hexec
    obtain ⟨app', pump, hgoes, hloop', hactive', his⟩ := goes_ofRest (quiet.2 reply) hloop hactive
    refine ⟨app', ?_, ?_⟩
    · rw [posts_quiet quiet.1]
      exact hgoes
    · rw [hsystem, hloop', hactive']
      exact hnext _ _ pump (by rw [← hpumps]; rfl) his

end Pumps

end Steps

/-! ### Runs -/

/-- The systems stand side by side until the background task leaves its loop. -/
def Refines (s : Posting) (app : App) : Prop := s.system.Leaving ∨ Layered s app

/-- The window's model matches a step. -/
def Matched (s : Posting) (app : App) (a : Action) (system : System) : Prop :=
  ∃ bs app', run backStep app bs = some app' ∧ bs.flatMap BackAction.sends = a.sends ∧
    Refines ⟨system, s.posted ++ s.system.posts a⟩ app'

section Runs

variable {s : Posting} {app : App} {a : Action} {system : System}

theorem matched_of_leaving (hsends : a.sends = []) {rest : Async Unit}
    (hloop : system.loop = .ofFinish rest) : Matched s app a system := by
  refine ⟨[], app, rfl, hsends.symm, .inl ?_⟩
  rw [System.Leaving, hloop]
  cases rest <;> trivial

theorem matched_of_layered (h : ∃ bs app', run backStep app bs = some app' ∧
      bs.flatMap BackAction.sends = [] ∧ Layered ⟨system, s.posted ++ s.system.posts a⟩ app')
    (hsends : a.sends = []) : Matched s app a system := by
  obtain ⟨bs, app', hrun, hnone, hlayered⟩ := h
  exact ⟨bs, app', hrun, hnone.trans hsends.symm, .inr hlayered⟩

theorem matched_of_goes (h : Layered s app) {app' : App} {posts : List Closure}
    (hgoes : Goes app posts app') (hsends : a.sends = []) (hposts : s.system.posts a = posts)
    (hcommands : system.commands = s.system.commands)
    (hsnapshot : system.world.snapshot = s.system.world.snapshot)
    (hmatches : Matches system.world system.loop app'.loop app'.active) :
    Matched s app a system :=
  matched_of_layered (hposts ▸ h.goes hgoes hcommands hsnapshot hmatches) hsends

theorem matched_background (h : Layered s app) {answers : Answers}
    (hstep : s.system.background answers = some system) :
    Matched s app (.background answers) system := by
  unfold System.background at hstep
  split at hstep
  case h_1 o next cmd hloop =>
    obtain ⟨⟨reply, world⟩, hexec, rfl⟩ := Option.map_eq_some_iff.mp hstep
    obtain ⟨app', hgoes, hsnapshot, hmatches⟩ := layered_teardown h hloop hexec
    exact matched_of_goes h hgoes rfl (by rw [System.posts, hloop]; rfl) rfl hsnapshot hmatches
  case h_2 o next hloop =>
    obtain ⟨⟨reply, world⟩, hexec, rfl⟩ := Option.map_eq_some_iff.mp hstep
    obtain ⟨app', hgoes, hsnapshot, hmatches⟩ := layered_start h hloop hexec
    exact matched_of_goes h hgoes rfl (by rw [System.posts, hloop]; rfl) rfl hsnapshot hmatches
  case h_3 o next hloop =>
    obtain ⟨⟨reply, world⟩, -, rfl⟩ := Option.map_eq_some_iff.mp hstep
    exact matched_of_leaving rfl rfl
  case h_4 => cases hstep

theorem matched_pump (h : Layered s app) {k : ℕ} {task : PumpTask}
    (hk : s.system.world.pumps[k]? = some task)
    (ha : a = .stopSignal k ∨ a = .captureEnds k ∨ ∃ answers, a = .pump k answers)
    (hstep : s.system.pump k task a = some system) : Matched s app a system := by
  rcases ha with rfl | rfl | ⟨answers, rfl⟩
  · simp only [System.pump] at hstep
    split at hstep
    · obtain ⟨hstop, heq⟩ := Option.ite_none_right_eq_some.mp hstep
      obtain ⟨app', hgoes, hmatches⟩ :=
        layered_stopSignal h hk ‹_› hstop (Option.some.inj heq).symm
      cases heq
      exact matched_of_goes h hgoes rfl rfl rfl rfl hmatches
    · cases hstep
  · simp only [System.pump] at hstep
    split at hstep
    · obtain ⟨app', hgoes, hmatches⟩ := layered_captureEnds h hk ‹_› (Option.some.inj hstep).symm
      cases hstep
      exact matched_of_goes h hgoes rfl rfl rfl rfl hmatches
    · cases hstep
  · simp only [System.pump] at hstep
    split at hstep
    case h_1 o next hphase =>
      obtain ⟨⟨reply, world⟩, hexec, heq⟩ := Option.map_eq_some_iff.mp hstep
      obtain ⟨app', hgoes, hmatches⟩ := layered_endPump h hk hphase hexec heq.symm
      have hsnapshot : world.snapshot = s.system.world.snapshot := exec_snapshot hexec
      cases heq
      refine matched_of_goes h hgoes rfl ?_ rfl hsnapshot hmatches
      simp only [System.posts, hk, Option.elim_some, hphase]
      rfl
    case h_2 => cases hstep

theorem matched_step (h : Layered s app) (hstep : s.system.step a = some system) :
    Matched s app a system := by
  obtain ⟨-, hstep⟩ := Option.ite_none_left_eq_some.mp hstep
  cases a with
  | send cmd =>
    obtain ⟨-, heq⟩ := Option.ite_none_right_eq_some.mp hstep
    cases heq
    refine ⟨[.send cmd], app.send cmd, rfl, rfl, .inr ⟨?_, h.snapshot, ?_, h.loop⟩⟩
    · exact congrArg (· ++ [cmd]) h.commands
    · exact h.closures.trans (List.append_nil _).symm
  | close | dropSenders | exit =>
    obtain ⟨-, heq⟩ := Option.ite_none_right_eq_some.mp hstep
    cases heq
    exact matched_of_goes h (.refl app) rfl rfl rfl rfl h.loop
  | update devices =>
    simp only at hstep
    split at hstep
    · cases hstep
      exact matched_of_layered (layered_update h ‹_› devices) rfl
    · cases hstep
  | discoveryEnds =>
    simp only at hstep
    split at hstep
    · cases hstep
      exact matched_of_leaving rfl rfl
    · cases hstep
  | receive =>
    simp only at hstep
    split at hstep
    · cases hstep
      have hposted : s.posted ++ s.system.posts .receive = s.posted := List.append_nil _
      exact matched_of_layered (hposted.symm ▸ layered_receive h ‹_› ‹_›) rfl
    · cases hstep
  | channelClosed =>
    simp only at hstep
    split at hstep
    · obtain ⟨-, heq⟩ := Option.ite_none_right_eq_some.mp hstep
      cases heq
      exact matched_of_leaving rfl rfl
    · cases hstep
  | background answers => exact matched_background h hstep
  | stopSignal k | captureEnds k | pump k answers =>
    obtain ⟨task, hk, hpump⟩ := Option.bind_eq_some_iff.mp hstep
    exact matched_pump h hk (by simp) hpump

/-- Once it has left its loop, the background task does not come back to it. -/
theorem leaving_step (h : s.system.Leaving) (hstep : s.system.step a = some system) :
    system.Leaving := by
  have hidle : ∀ active, s.system.loop ≠ .idle active := by
    intro active hloop
    rw [System.Leaving, hloop] at h
    exact h
  obtain ⟨-, hmoves⟩ := System.moves_of_step hstep
  cases hmoves with
  | ui _ move => cases move <;> exact h
  | background _ move =>
    cases move with
    | update _ active idle => exact absurd idle (hidle active)
    | receive active _ _ idle _ => exact absurd idle (hidle active)
    | leave active idle => exact absurd idle (hidle active)
    | teardown _ _ _ _ _ _ tearing _ =>
      rw [System.Leaving, tearing] at h
      exact h.elim
    | start _ _ _ _ _ starting _ =>
      rw [System.Leaving, starting] at h
      exact h.elim
    | finish _ next _ reply _ _ _ =>
      rw [System.Leaving]
      cases next reply <;> trivial
  | pump k task _ _ move => cases move <;> exact h

theorem refines_step (h : Refines s app) (hstep : s.system.step a = some system) :
    Matched s app a system := by
  rcases h with hleaving | hlayered
  · have hleft : system.Leaving := leaving_step hleaving hstep
    cases a with
    | send cmd => exact ⟨[.send cmd], app.send cmd, rfl, rfl, .inl hleft⟩
    | _ => exact ⟨[], app, rfl, rfl, .inl hleft⟩
  · exact matched_step hlayered hstep

end Runs

/-- Every run of the casts, call by call, up to the end of the background loop is one of the
window's model: with the same commands sent, the same closures posted in the same order and
the same devices known, and with the loop at the same place. -/
theorem casts_refine_window {as : List Action} {s : Posting}
    (h : run Posting.step {} as = some s) (hstay : ¬ s.system.Leaving) :
    ∃ bs app, run backStep {} bs = some app ∧
      bs.flatMap BackAction.sends = as.flatMap Action.sends ∧ app.closures = s.posted ∧
      app.commands = s.system.commands ∧ app.snapshot = s.system.world.snapshot ∧
      Matches s.system.world s.system.loop app.loop app.active := by
  have hinit : Refines {} {} := .inr ⟨rfl, rfl, rfl, .idle (.none nofun)⟩
  have hmatched : ∀ {s app a s'}, Refines s app → s.step a = some s' →
      ∃ bs app', run backStep app bs = some app' ∧ bs.flatMap BackAction.sends = a.sends ∧
        Refines s' app' := by
    intro s app a s' hrefines hstep
    obtain ⟨system, hsystem, rfl⟩ := Option.map_eq_some_iff.mp hstep
    exact refines_step hrefines hsystem
  obtain ⟨bs, app, hrun, hsends, hrefines⟩ :=
    run_simulates Action.sends BackAction.sends Refines hmatched hinit h
  have hlayered := hrefines.resolve_left hstay
  exact ⟨bs, app, hrun, hsends, hlayered.closures, hlayered.commands, hlayered.snapshot,
    hlayered.loop⟩

/-- A device that is not there: the start fails, and the window is told. -/
theorem casts_refine_window_failed : ∃ bs app, run backStep {} bs = some app ∧
    bs.flatMap BackAction.sends = [.castUrl [] []] ∧ app.closures = [.clearCasting] := by
  obtain ⟨s, hs, hposted, hloop⟩ : ∃ s, run Posting.step {} [.send (.castUrl [] []), .receive,
      .background allSucceed, .background allSucceed] = some s ∧ s.posted = [.clearCasting] ∧
      s.system.loop = .idle .none := ⟨_, rfl, rfl, rfl⟩
  have hstay : ¬ s.system.Leaving := by
    rw [System.Leaving, hloop]
    exact id
  obtain ⟨bs, app, hrun, hsends, hclosures, -⟩ := casts_refine_window hs hstay
  exact ⟨bs, app, hrun, hsends, hclosures.trans hposted⟩

end HorizonCast.Casting
