import HorizonCast.Spec.App

/-! The steps of the app, one by one: what each needs and the state it leaves. -/

namespace HorizonCast

open Text

/-- The pump of a session is still running. -/
def Active.isPumping : Active → Bool
  | mirror .pumping | mirror .stopping => true
  | _ => false

/-- The command asks for a media session. -/
def Cmd.isMedia : Cmd → Bool
  | castFile _ _ | castUrl _ _ => true
  | _ => false

/-- The command asks for a mirror. -/
def Cmd.isMirror : Cmd → Bool
  | mirror _ _ _ => true
  | _ => false

theorem Cmd.ne_stop_of_isMedia {cmd : Cmd} (h : cmd.isMedia = true) : cmd ≠ .stop := by
  rintro rfl
  simp [isMedia] at h

theorem Cmd.ne_stop_of_isMirror {cmd : Cmd} (h : cmd.isMirror = true) : cmd ≠ .stop := by
  rintro rfl
  simp [isMirror] at h

namespace App

/-- The moves of the user while no dialog is open. -/
inductive UserMove (s : App) : Action → App → Prop where
  | click (index : ℕ) (idle : s.ui.casting = false) (shown : index < s.ui.devices.length) :
      UserMove s (.click index) { s with ui := { s.ui with selected := index } }
  | setFps (fps : ℤ) : UserMove s (.setFps fps) { s with ui := { s.ui with fps := fps } }
  | setQuality (quality : ℤ) :
      UserMove s (.setQuality quality) { s with ui := { s.ui with quality := quality } }
  | rescan : UserMove s .rescan { s with ui := { s.ui with scanning := true } }
  | mirror (idle : s.ui.casting = false) : UserMove s .mirror s.onMirror
  | openFile (idle : s.ui.casting = false) : UserMove s .openFile s.onCastFile
  | castUrl (url : Str) (idle : s.ui.casting = false) : UserMove s (.castUrl url) (s.onCastUrl url)
  | stop (casting : s.ui.casting = true) : UserMove s .stop s.onStop
  | setDevices (items : List DeviceItem) (rest : List Closure)
      (posted : s.closures = .setDevices items :: rest) :
      UserMove s .runClosure
        { s with closures := rest, ui := { s.ui with devices := items, scanning := false } }
  | clearCasting (rest : List Closure) (posted : s.closures = .clearCasting :: rest) :
      UserMove s .runClosure { s with closures := rest }.showIdle

/-- The moves of the background loop and of the pump. -/
inductive BackgroundMove (s : App) : Action → App → Prop where
  | update (devices : List Device) (idle : s.loop = .idle) :
      BackgroundMove s (.update devices)
        { s with snapshot := devices, loop := .publishing (devices.map toItem) }
  | publish (items : List DeviceItem) (publishing : s.loop = .publishing items) :
      BackgroundMove s .publish ({ s with loop := .idle }.post (.setDevices items))
  | receive (cmd : Cmd) (rest : List Cmd) (idle : s.loop = .idle)
      (queued : s.commands = cmd :: rest) :
      BackgroundMove s .receive
        { s with commands := rest, loop := .tearingDown s.active cmd, active := .none }
  | stopped (old : Active) (tearing : s.loop = .tearingDown old .stop)
      (ended : old.isPumping = false) : BackgroundMove s .tornDown { s with loop := .idle }
  | tornDown (old : Active) (cmd : Cmd) (isCast : cmd ≠ .stop)
      (tearing : s.loop = .tearingDown old cmd) (ended : old.isPumping = false) :
      BackgroundMove s .tornDown { s with loop := .starting cmd }
  | startFails (cmd : Cmd) (starting : s.loop = .starting cmd) :
      BackgroundMove s .startFails
        ({ s with loop := .idle, active := .none }.post .clearCasting)
  | startMedia (cmd : Cmd) (id : Str) (isMedia : cmd.isMedia = true) (target : cmd.target = some id)
      (starting : s.loop = .starting cmd) (found : startable s.snapshot id = true) :
      BackgroundMove s .startSucceeds { s with loop := .idle, active := .media }
  | startMirror (cmd : Cmd) (id : Str) (isMirror : cmd.isMirror = true)
      (target : cmd.target = some id) (starting : s.loop = .starting cmd)
      (found : startable s.snapshot id = true) :
      BackgroundMove s .startSucceeds { s with loop := .idle, active := .mirror .pumping }
  -- the pump of the session that is being torn down
  | oldCaptureEnds (cmd : Cmd) (tearing : s.loop = .tearingDown (.mirror .pumping) cmd) :
      BackgroundMove s .captureEnds
        ({ s with loop := .tearingDown (.mirror .stopping) cmd }.post .clearCasting)
  | stopSignal (cmd : Cmd) (tearing : s.loop = .tearingDown (.mirror .pumping) cmd) :
      BackgroundMove s .stopSignal { s with loop := .tearingDown (.mirror .stopping) cmd }
  | oldPumpFinishes (cmd : Cmd) (tearing : s.loop = .tearingDown (.mirror .stopping) cmd) :
      BackgroundMove s .pumpFinishes { s with loop := .tearingDown (.mirror .finished) cmd }
  -- the pump of the session that is held
  | captureEnds (other : ∀ cmd, s.loop ≠ .tearingDown (.mirror .pumping) cmd)
      (held : s.active = .mirror .pumping) :
      BackgroundMove s .captureEnds ({ s with active := .mirror .stopping }.post .clearCasting)
  | pumpFinishes (other : ∀ cmd, s.loop ≠ .tearingDown (.mirror .stopping) cmd)
      (held : s.active = .mirror .stopping) :
      BackgroundMove s .pumpFinishes { s with active := .mirror .finished }

/-- A step: the answer to an open file dialog, or a move of one of the threads. -/
inductive Moves (s : App) : Action → App → Prop where
  | pickFile (device : Device) (path : Str) (asked : s.ui.dialog = some device) :
      Moves s (.pickFile path) (s.onFilePicked device path)
  | cancelFile (device : Device) (asked : s.ui.dialog = some device) :
      Moves s .cancelFile { s with ui := { s.ui with dialog := none } }
  | user (a : Action) (s' : App) (free : s.ui.dialog = none) (move : UserMove s a s') :
      Moves s a s'
  | background (a : Action) (s' : App) (move : BackgroundMove s a s') : Moves s a s'

theorem interact_move {s s' : App} {a : Action} (h : s.interact a = some s') :
    UserMove s a s' := by
  cases a <;> simp only [interact, reduceCtorEq, Option.ite_none_right_eq_some,
    Option.some.injEq] at h
  case click index =>
    obtain ⟨⟨hidle, hshown⟩, rfl⟩ := h
    exact .click index hidle hshown
  case setFps fps =>
    subst h
    exact .setFps fps
  case setQuality quality =>
    subst h
    exact .setQuality quality
  case rescan =>
    subst h
    exact .rescan
  case mirror =>
    obtain ⟨hidle, rfl⟩ := h
    exact .mirror hidle
  case openFile =>
    obtain ⟨hidle, rfl⟩ := h
    exact .openFile hidle
  case castUrl url =>
    obtain ⟨hidle, rfl⟩ := h
    exact .castUrl url hidle
  case stop =>
    obtain ⟨hcasting, rfl⟩ := h
    exact .stop hcasting
  case runClosure =>
    unfold runClosure at h
    split at h
    · simp at h
    · rename_i items rest hposted
      obtain rfl := Option.some.inj h
      exact .setDevices items rest hposted
    · rename_i rest hposted
      obtain rfl := Option.some.inj h
      exact .clearCasting rest hposted

theorem isPumping_false {a : Active} (hpumping : a ≠ .mirror .pumping)
    (hstopping : a ≠ .mirror .stopping) : a.isPumping = false := by
  unfold Active.isPumping
  split
  · exact absurd rfl hpumping
  · exact absurd rfl hstopping
  · rfl

theorem tornDown_move {s s' : App} (h : s.background .tornDown = some s') :
    BackgroundMove s .tornDown s' := by
  simp only [background] at h
  split at h
  · simp at h
  · simp at h
  · rename_i old hpumping hstopping htearing
    obtain rfl := Option.some.inj h
    exact .stopped old htearing (isPumping_false hpumping hstopping)
  · rename_i old cmd hpumping hstopping hcast htearing
    obtain rfl := Option.some.inj h
    exact .tornDown old cmd hcast htearing (isPumping_false hpumping hstopping)
  · simp at h

theorem startSucceeds_move {s s' : App} (h : s.background .startSucceeds = some s') :
    BackgroundMove s .startSucceeds s' := by
  simp only [background] at h
  split at h
  · rename_i id path hstarting
    obtain ⟨hfound, heq⟩ := Option.ite_none_right_eq_some.mp h
    obtain rfl := Option.some.inj heq
    exact .startMedia _ id rfl rfl hstarting hfound
  · rename_i id url hstarting
    obtain ⟨hfound, heq⟩ := Option.ite_none_right_eq_some.mp h
    obtain rfl := Option.some.inj heq
    exact .startMedia _ id rfl rfl hstarting hfound
  · rename_i id fps bitrateKbps hstarting
    obtain ⟨hfound, heq⟩ := Option.ite_none_right_eq_some.mp h
    obtain rfl := Option.some.inj heq
    exact .startMirror _ id rfl rfl hstarting hfound
  · simp at h

theorem captureEnds_move {s s' : App} (h : s.background .captureEnds = some s') :
    BackgroundMove s .captureEnds s' := by
  simp only [background] at h
  split at h
  · rename_i cmd htearing
    obtain rfl := Option.some.inj h
    exact .oldCaptureEnds cmd htearing
  · rename_i hheld hother
    obtain rfl := Option.some.inj h
    exact .captureEnds hother hheld
  · simp at h

theorem pumpFinishes_move {s s' : App} (h : s.background .pumpFinishes = some s') :
    BackgroundMove s .pumpFinishes s' := by
  simp only [background] at h
  split at h
  · rename_i cmd htearing
    obtain rfl := Option.some.inj h
    exact .oldPumpFinishes cmd htearing
  · rename_i hheld hother
    obtain rfl := Option.some.inj h
    exact .pumpFinishes hother hheld
  · simp at h

theorem background_move {s s' : App} {a : Action} (h : s.background a = some s') :
    BackgroundMove s a s' := by
  cases a with
  | update devices =>
    obtain ⟨hidle, heq⟩ := Option.ite_none_right_eq_some.mp h
    obtain rfl := Option.some.inj heq
    exact .update devices hidle
  | publish =>
    simp only [background] at h
    split at h
    · rename_i items hpublishing
      obtain rfl := Option.some.inj h
      exact .publish items hpublishing
    · simp at h
  | receive =>
    simp only [background] at h
    split at h
    · rename_i cmd rest hidle hqueued
      obtain rfl := Option.some.inj h
      exact .receive cmd rest hidle hqueued
    · simp at h
  | tornDown => exact tornDown_move h
  | startFails =>
    simp only [background] at h
    split at h
    · rename_i cmd hstarting
      obtain rfl := Option.some.inj h
      exact .startFails cmd hstarting
    · simp at h
  | startSucceeds => exact startSucceeds_move h
  | captureEnds => exact captureEnds_move h
  | stopSignal =>
    simp only [background] at h
    split at h
    · rename_i cmd htearing
      obtain rfl := Option.some.inj h
      exact .stopSignal cmd htearing
    · simp at h
  | pumpFinishes => exact pumpFinishes_move h
  | _ => simp [background] at h

theorem step_moves {s s' : App} {a : Action} (h : s.step a = some s') : Moves s a s' := by
  unfold step at h
  split_ifs at h with hui
  · split at h
    · rename_i device path hasked
      obtain rfl := Option.some.inj h
      exact .pickFile device path hasked
    · rename_i device hasked
      obtain rfl := Option.some.inj h
      exact .cancelFile device hasked
    · simp at h
    · rename_i hfree
      exact .user _ _ hfree (interact_move h)
  · exact .background _ _ (background_move h)

end App

end HorizonCast
