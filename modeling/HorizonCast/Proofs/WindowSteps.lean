import HorizonCast.Proofs.SideBySide

/-! How the window's model goes on beside the casts: through the end of a teardown, through a
start, and with a pump wherever it is kept. -/

namespace HorizonCast.Casting

open Routine Text Transition

/-! ### Steps of the window's model -/

/-- The window's model goes on by itself, and posts. -/
def Goes (app : App) (posts : List Closure) (app' : App) : Prop :=
  ∃ bs, run backStep app bs = some app' ∧ bs.flatMap BackAction.sends = [] ∧
    app'.commands = app.commands ∧ app'.snapshot = app.snapshot ∧
    app'.closures = app.closures ++ posts

theorem Goes.refl (app : App) : Goes app [] app :=
  ⟨[], rfl, rfl, rfl, rfl, (List.append_nil _).symm⟩

theorem Goes.trans {app app' app'' : App} {posts posts' : List Closure} (h : Goes app posts app')
    (h' : Goes app' posts' app'') : Goes app (posts ++ posts') app'' := by
  obtain ⟨bs, hbs, hsends, hcommands, hsnapshot, hclosures⟩ := h
  obtain ⟨bs', hbs', hsends', hcommands', hsnapshot', hclosures'⟩ := h'
  refine ⟨bs ++ bs', ?_, ?_, hcommands'.trans hcommands, hsnapshot'.trans hsnapshot, ?_⟩
  · rw [Transition.run_append, hbs, Option.bind_some, hbs']
  · rw [List.flatMap_append, hsends, hsends']
    rfl
  · rw [hclosures', hclosures, List.append_assoc]

theorem Goes.single {app app' : App} {posts : List Closure} (a : HorizonCast.Action)
    (h : app.background a = some app') (hcommands : app'.commands = app.commands)
    (hsnapshot : app'.snapshot = app.snapshot) (hclosures : app'.closures = app.closures ++ posts) :
    Goes app posts app' :=
  ⟨[.step a], by simp [run, backStep, h], rfl, hcommands, hsnapshot, hclosures⟩

theorem startable_of_found {snapshot : List Device} {id : Str} {device : Device}
    (hfound : findDevice snapshot id = some device) (hdevice : Startable device) :
    startable snapshot id = true := by
  rw [startable, hfound]
  exact hdevice

theorem goes_startMedia {app : App} {cmd : Cmd} {id : Str} (hloop : app.loop = .starting cmd)
    (hkind : cmd.isMedia = true) (hid : cmd.target = some id)
    (hfound : startable app.snapshot id = true) :
    Goes app [] { app with loop := .idle, active := .media } := by
  refine .single .startSucceeds ?_ rfl rfl (List.append_nil _).symm
  cases cmd with
  | castFile | castUrl =>
    cases hid
    simp only [App.background, hloop, hfound, if_true]
  | _ => cases hkind

theorem goes_startMirror {app : App} {cmd : Cmd} {id : Str} (hloop : app.loop = .starting cmd)
    (hkind : cmd.isMirror = true) (hid : cmd.target = some id)
    (hfound : startable app.snapshot id = true) :
    Goes app [] { app with loop := .idle, active := .mirror .pumping } := by
  refine .single .startSucceeds ?_ rfl rfl (List.append_nil _).symm
  cases cmd with
  | mirror =>
    cases hid
    simp only [App.background, hloop, hfound, if_true]
  | _ => cases hkind

/-- What is left of a start is matched: by the end of the start if nothing is left. -/
theorem goes_ofStart {w : World} {cmd : Cmd} {rest : Async Active} {reached : Progress}
    (hrest : rest.Follows (startRules cmd) (Starts cmd) reached) (hholds : reached.Holds cmd w)
    {app : App} (hloop : app.loop = .starting cmd) (hactive : app.active = .none)
    (hsnapshot : app.snapshot = w.snapshot) :
    ∃ app', Goes app reached.owed app' ∧ Matches w (.ofStart rest) app'.loop app'.active := by
  cases rest with
  | op o next =>
    refine ⟨app, ?_, ?_⟩
    · rw [owed_nil hrest.1]
      exact .refl app
    · rw [hloop, hactive]
      exact .starting hrest hholds
  | pure active =>
    cases active with
    | none =>
      cases reached with
      | posted =>
        refine ⟨{ app with loop := .idle, active := .none, closures := app.closures ++ _ },
          .single .startFails ?_ rfl rfl rfl, .idle (.none hholds)⟩
        simp only [App.background, hloop]
        rfl
      | _ => exact hrest.elim
    | media session =>
      cases reached with
      | looked found =>
        cases found with
        | none => exact hrest.elim
        | some device =>
          obtain ⟨hkind, hdevice⟩ := hrest
          obtain ⟨hended, id, hid, hfound⟩ := hholds
          exact ⟨_, goes_startMedia hloop hkind hid
            (hsnapshot ▸ startable_of_found hfound.symm hdevice), .idle (.media session hended)⟩
      | _ => exact hrest.elim
    | mirror k =>
      cases reached with
      | spawned device pump =>
        obtain ⟨hkind, rfl, hdevice⟩ := hrest
        obtain ⟨⟨id, hid, hfound⟩, task, halone, hgoing, hphase⟩ := hholds
        exact ⟨_, goes_startMirror hloop hkind hid
          (hsnapshot ▸ startable_of_found hfound hdevice),
          .idle (.mirror halone hgoing (hphase ▸ .pumping))⟩
      | _ => exact hrest.elim

/-- The end of a teardown is matched, and with it the first step of the start. -/
theorem goes_tornDown {w : World} (hended : AllEnded w.pumps) {old : HorizonCast.Active}
    (hold : old.isPumping = false) (cmd : Cmd) {app : App}
    (hloop : app.loop = .tearingDown old cmd) (hactive : app.active = .none)
    (hsnapshot : app.snapshot = w.snapshot) :
    ∃ app', Goes app [] app' ∧ Matches w (.ofStart (startCmd cmd)) app'.loop app'.active := by
  by_cases hcmd : cmd = .stop
  · subst hcmd
    have hstep : app.background .tornDown = some { app with loop := .idle } := by
      cases old with
      | mirror pump =>
        cases pump with
        | finished => simp only [App.background, hloop]
        | _ => cases hold
      | _ => simp only [App.background, hloop]
    refine ⟨_, .single .tornDown hstep rfl rfl (List.append_nil _).symm, ?_⟩
    dsimp only
    rw [hactive]
    exact .idle (.none hended)
  · have hstep : app.background .tornDown = some { app with loop := .starting cmd } := by
      cases old with
      | mirror pump =>
        cases pump with
        | finished => cases cmd <;> first | exact absurd rfl hcmd | simp only [App.background, hloop]
        | _ => cases hold
      | _ => cases cmd <;> first | exact absurd rfl hcmd | simp only [App.background, hloop]
    obtain ⟨app', hgoes, hmatches⟩ := goes_ofStart (startCmd_starts hcmd)
      (show Progress.fresh.Holds cmd w from hended)
      (show ({ app with loop := .starting cmd } : App).loop = .starting cmd from rfl)
      hactive hsnapshot
    exact ⟨app', (Goes.single .tornDown hstep rfl rfl (List.append_nil _).symm).trans hgoes,
      hmatches⟩

/-! ### Steps of a pump -/

/-- Where the window's model keeps a pump: it is active, or torn down before a command. -/
def Place := Option Cmd

def Place.loop (pump : Pump) : Place → HorizonCast.Loop
  | none => .idle
  | some cmd => .tearingDown (.mirror pump) cmd

def Place.active (pump : Pump) : Place → HorizonCast.Active
  | none => .mirror pump
  | some _ => .none

section PumpSteps

variable {app : App} {place : Place}

theorem goes_captureEnds (hloop : app.loop = place.loop .pumping)
    (hactive : app.active = place.active .pumping) :
    ∃ app', Goes app [.clearCasting] app' ∧ app'.loop = place.loop .stopping ∧
      app'.active = place.active .stopping := by
  obtain ⟨ui, closures, commands, snapshot, _, _⟩ := app
  cases hloop
  cases hactive
  cases place with
  | none => exact ⟨_, .single .captureEnds rfl rfl rfl rfl, rfl, rfl⟩
  | some cmd => exact ⟨_, .single .captureEnds rfl rfl rfl rfl, rfl, rfl⟩

theorem goes_pumpFinishes (hloop : app.loop = place.loop .stopping)
    (hactive : app.active = place.active .stopping) :
    ∃ app', Goes app [] app' ∧ app'.loop = place.loop .finished ∧
      app'.active = place.active .finished := by
  obtain ⟨ui, closures, commands, snapshot, _, _⟩ := app
  cases hloop
  cases hactive
  have hnil := (List.append_nil closures).symm
  cases place with
  | none => exact ⟨_, .single .pumpFinishes rfl rfl rfl hnil, rfl, rfl⟩
  | some cmd => exact ⟨_, .single .pumpFinishes rfl rfl rfl hnil, rfl, rfl⟩

theorem goes_stopSignal {cmd : Cmd} (hloop : app.loop = Place.loop .pumping (some cmd)) :
    ∃ app', Goes app [] app' ∧ app'.loop = Place.loop .stopping (some cmd) ∧
      app'.active = app.active := by
  obtain ⟨ui, closures, commands, snapshot, _, active⟩ := app
  cases hloop
  exact ⟨_, .single .stopSignal rfl rfl rfl (List.append_nil closures).symm, rfl, rfl⟩

end PumpSteps

/-- A pump that has not ended is kept at one place, and may go on there. -/
theorem Matches.alive {w : World} {loop : Loop} {back : HorizonCast.Loop}
    {held : HorizonCast.Active} (h : Matches w loop back held) {k : ℕ} {task : PumpTask}
    (hk : w.pumps[k]? = some task) (hlive : task.phase.hasEnded = false) :
    ∃ (place : Place) (pump : Pump), back = place.loop pump ∧ held = place.active pump ∧
      task.phase.Is pump ∧ (place = none → task.stopSent = false) ∧
      ∀ (w' : World) (phase : PumpPhase) (pump' : Pump),
        w'.pumps = w.pumps.modify k ({ · with phase }) → phase.Is pump' →
        Matches w' loop (place.loop pump') (place.active pump') := by
  have hnotAll : ¬ AllEnded w.pumps := fun hended => by
    simp [hended task (List.mem_of_getElem? hk)] at hlive
  cases h with
  | idle same =>
    cases same with
    | none ended => exact absurd ended hnotAll
    | media session ended => exact absurd ended hnotAll
    | mirror alone going phase =>
      obtain ⟨rfl, rfl⟩ := alone.eq hk hlive
      refine ⟨none, _, rfl, rfl, phase, fun _ => going, fun w' phase' pump' hw' hphase' => ?_⟩
      have halone := alone.modify ({ · with phase := phase' })
      rw [← hw'] at halone
      exact .idle (.mirror halone going hphase')
  | @tearingDown rest cmd old tears =>
    cases tears with
    | media quiet ended => exact absurd ended hnotAll
    | mirror alone phase left =>
      obtain ⟨rfl, rfl⟩ := alone.eq hk hlive
      refine ⟨some _, _, rfl, rfl, phase, nofun, fun w' phase' pump' hw' hphase' => ?_⟩
      have halone := alone.modify ({ · with phase := phase' })
      rw [← hw'] at halone
      have hleft : MirrorRest k { task with phase := phase' } rest := by
        cases left with
        | signal going => exact .signal going
        | await => exact .await
        | capture ended => simp [ended] at hlive
      exact .tearingDown (.mirror halone hphase' hleft)
  | @starting _ _ _ reached follows holds =>
    cases reached with
    | fresh => exact absurd holds hnotAll
    | looked found => exact absurd holds.1 hnotAll
    | posted | spawned => exact follows.1.elim

theorem Matches.congr {w w' : World} {loop : Loop} {back : HorizonCast.Loop}
    {held : HorizonCast.Active} (h : Matches w loop back held) (hpumps : w'.pumps = w.pumps)
    (hsnapshot : w'.snapshot = w.snapshot) : Matches w' loop back held := by
  cases h with
  | idle same => exact .idle (hpumps ▸ same)
  | tearingDown tears => exact .tearingDown (hpumps ▸ tears)
  | @starting _ _ _ reached follows holds =>
    refine .starting follows ?_
    cases reached <;> simpa only [Progress.Holds, hpumps, hsnapshot] using holds

end HorizonCast.Casting
