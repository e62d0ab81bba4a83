import HorizonCast.Lib.Transition
import HorizonCast.Proofs.AppSteps

/-! The casting flag of the UI against what is really being cast. A posted clear
does not say which cast it is about, so one from an old cast can hide a newer
one; in a run in which no clear overtakes a cast, the flag is right whenever
nothing is under way. -/

namespace HorizonCast

open Text Transition

/-! ### What is under way -/

/-- The command that the loop is handling. -/
def Loop.cmds : Loop → List Cmd
  | tearingDown _ cmd | starting cmd => [cmd]
  | _ => []

/-- The commands that are queued or being processed, oldest first. -/
def App.pending (s : App) : List Cmd := s.loop.cmds ++ s.commands

/-- A cast session is active: a media session is held, or the pump of a mirror
is still running. -/
def Active.isOn : Active → Bool
  | none | mirror .finished => false
  | media | mirror .pumping | mirror .stopping => true

/-- A media session is held, or a mirror is in its pump loop. -/
def Active.isStreaming : Active → Bool
  | media | mirror .pumping => true
  | _ => false

theorem Active.isOn_of_isStreaming {a : Active} (h : a.isStreaming = true) : a.isOn = true := by
  cases a with
  | none => cases h
  | media => rfl
  | mirror pump => cases pump <;> first | rfl | cases h

/-- No command is queued or being processed and no closure is pending. -/
def App.Quiescent (s : App) : Prop := s.pending = [] ∧ s.closures = []

/-- The flag is true exactly when a cast session is active. -/
def App.FlagRight (s : App) : Prop := s.ui.casting = true ↔ s.active.isOn = true

/-- A clear that resets the flag does not overtake a cast: when it runs, no
command is queued or being processed and no session is active. -/
def InTime (s : App) (a : Action) : Prop :=
  a = .runClosure → s.closures.head? = some .clearCasting → s.ui.casting = true →
    s.pending = [] ∧ s.active.isOn = false

instance (s : App) (a : Action) : Decidable (InTime s a) :=
  inferInstanceAs (Decidable (_ → _ → _ → _))

/-! ### What a step can do -/

/-- What a step can do to the flag, the commands, the session and the clears. -/
inductive Effect (s s' : App) (a : Action) : Prop where
  | silent (flag : s'.ui.casting = s.ui.casting) (pending : s'.pending = s.pending)
      (session : s'.active = s.active) (busy : s'.loop.cmds = s.loop.cmds)
      (clears : .clearCasting ∈ s.closures → .clearCasting ∈ s'.closures)
  | cast (cmd : Cmd) (isCast : cmd ≠ .stop) (flag : s'.ui.casting = true)
      (pending : s'.pending = s.pending ++ [cmd]) (session : s'.active = s.active)
      (busy : s'.loop.cmds = s.loop.cmds)
  | stop (flag : s'.ui.casting = false) (pending : s'.pending = s.pending ++ [.stop])
      (session : s'.active = s.active) (busy : s'.loop.cmds = s.loop.cmds)
  | clear (isRun : a = .runClosure) (head : s.closures.head? = some .clearCasting)
      (flag : s'.ui.casting = false) (pending : s'.pending = s.pending)
      (session : s'.active = s.active) (busy : s'.loop.cmds = s.loop.cmds)
  | receive (flag : s'.ui.casting = s.ui.casting) (pending : s'.pending = s.pending)
      (some : s.pending ≠ []) (session : s'.active = .none)
  | stopped (flag : s'.ui.casting = s.ui.casting) (pending : s.pending = .stop :: s'.pending)
      (session : s'.active = s.active) (busy : s.loop.cmds ≠ []) (idle : s'.loop.cmds = [])
  | failed (cmd : Cmd) (flag : s'.ui.casting = s.ui.casting)
      (pending : s.pending = cmd :: s'.pending) (session : s'.active = .none) (idle : s'.loop.cmds = [])
      (clears : .clearCasting ∈ s'.closures)
  | started (cmd : Cmd) (isCast : cmd ≠ .stop) (flag : s'.ui.casting = s.ui.casting)
      (pending : s.pending = cmd :: s'.pending) (session : s'.active.isStreaming = true)
      (idle : s'.loop.cmds = [])
  | ended (flag : s'.ui.casting = s.ui.casting) (pending : s'.pending = s.pending)
      (was : s.active = .mirror .pumping) (session : s'.active = .mirror .stopping)
      (busy : s'.loop.cmds = s.loop.cmds) (clears : .clearCasting ∈ s'.closures)
  | finished (flag : s'.ui.casting = s.ui.casting) (pending : s'.pending = s.pending)
      (was : s.active = .mirror .stopping) (session : s'.active = .mirror .finished)
      (busy : s'.loop.cmds = s.loop.cmds) (clears : s'.closures = s.closures)

theorem silent_effect {s t : App} {a : Action} (flag : t.ui.casting = s.ui.casting)
    (busy : t.loop.cmds = s.loop.cmds) (commands : t.commands = s.commands)
    (session : t.active = s.active)
    (clears : .clearCasting ∈ s.closures → .clearCasting ∈ t.closures) : Effect s t a :=
  .silent flag (by rw [App.pending, App.pending, busy, commands]) session busy clears

theorem send_effect {s t : App} {a : Action} {cmd : Cmd} (isCast : cmd ≠ .stop)
    (flag : t.ui.casting = true) (commands : t.commands = s.commands) (loop : t.loop = s.loop)
    (session : t.active = s.active) : Effect s (t.send cmd) a := by
  refine .cast cmd isCast flag ?_ session (congrArg Loop.cmds loop)
  simp [App.pending, App.send, commands, loop]

theorem mem_post {s : App} {closure : Closure} (c : Closure) (h : c ∈ s.closures) :
    c ∈ (s.post closure).closures := List.mem_append_left _ h

theorem clear_mem_post (s : App) : .clearCasting ∈ (s.post .clearCasting).closures :=
  List.mem_append_right _ (List.mem_singleton.mpr rfl)

theorem onMirror_effect (s : App) : Effect s s.onMirror .mirror := by
  unfold App.onMirror
  cases selectedDevice s.ui s.snapshot with
  | none => exact .silent rfl rfl rfl rfl id
  | some device => exact send_effect Cmd.noConfusion rfl rfl rfl rfl

theorem onCastFile_effect (s : App) : Effect s s.onCastFile .openFile := by
  unfold App.onCastFile
  cases selectedDevice s.ui s.snapshot with
  | none => exact .silent rfl rfl rfl rfl id
  | some device => exact .silent rfl rfl rfl rfl id

theorem onCastUrl_effect (s : App) (url : Str) : Effect s (s.onCastUrl url) (.castUrl url) := by
  unfold App.onCastUrl
  dsimp only
  split_ifs with hurl
  · exact .silent rfl rfl rfl rfl id
  · cases selectedDevice s.ui s.snapshot with
    | none => exact .silent rfl rfl rfl rfl id
    | some device => exact send_effect Cmd.noConfusion rfl rfl rfl rfl

theorem onFilePicked_effect (s : App) (device : Device) (path : Str) :
    Effect s (s.onFilePicked device path) (.pickFile path) :=
  send_effect Cmd.noConfusion rfl rfl rfl rfl

theorem user_effect {s s' : App} {a : Action} (h : s.UserMove a s') : Effect s s' a := by
  cases h with
  | click | setFps | setQuality | rescan => exact .silent rfl rfl rfl rfl id
  | mirror => exact onMirror_effect s
  | openFile => exact onCastFile_effect s
  | castUrl url => exact onCastUrl_effect s url
  | stop => exact .stop rfl (by simp [App.onStop, App.pending, App.send, App.showIdle]) rfl rfl
  | setDevices items rest posted => exact .silent rfl rfl rfl rfl (by simp [posted])
  | clearCasting rest posted => exact .clear rfl (by simp [posted]) rfl rfl rfl rfl

/-- The loop is done with a command. -/
theorem pending_done {s t : App} {cmd : Cmd} (busy : s.loop.cmds = [cmd])
    (idle : t.loop.cmds = []) (commands : t.commands = s.commands) :
    s.pending = cmd :: t.pending := by
  rw [App.pending, App.pending, busy, idle, commands]
  rfl

theorem background_effect {s s' : App} {a : Action} (h : s.BackgroundMove a s') :
    Effect s s' a := by
  cases h with
  | update devices idle => exact silent_effect rfl (by rw [idle]; rfl) rfl rfl id
  | publish items publishing =>
    exact silent_effect rfl (by rw [publishing]; rfl) rfl rfl
      (mem_post (s := { s with loop := .idle }) _)
  | receive cmd rest idle queued =>
    refine .receive rfl ?_ ?_ rfl
    · rw [App.pending, App.pending, idle, queued]
      rfl
    · rw [App.pending, idle, queued]
      exact List.cons_ne_nil _ _
  | stopped old tearing =>
    have busy : s.loop.cmds = [.stop] := by
      rw [tearing]
      rfl
    exact .stopped rfl (pending_done busy rfl rfl) rfl (by simp [busy]) rfl
  | tornDown old cmd isCast tearing => exact silent_effect rfl (by rw [tearing]; rfl) rfl rfl id
  | startFails cmd starting =>
    exact .failed cmd rfl (pending_done (by rw [starting]; rfl) rfl rfl) rfl rfl (clear_mem_post _)
  | startMedia cmd id isMedia target starting =>
    exact .started cmd (Cmd.ne_stop_of_isMedia isMedia) rfl
      (pending_done (by rw [starting]; rfl) rfl rfl) rfl rfl
  | startMirror cmd id isMirror target starting =>
    exact .started cmd (Cmd.ne_stop_of_isMirror isMirror) rfl
      (pending_done (by rw [starting]; rfl) rfl rfl) rfl rfl
  | oldCaptureEnds cmd tearing =>
    exact silent_effect rfl (by rw [tearing]; rfl) rfl rfl fun _ => clear_mem_post _
  | stopSignal cmd tearing | oldPumpFinishes cmd tearing =>
    exact silent_effect rfl (by rw [tearing]; rfl) rfl rfl id
  | captureEnds other held => exact .ended rfl rfl held rfl rfl (clear_mem_post _)
  | pumpFinishes other held => exact .finished rfl rfl held rfl rfl rfl

theorem step_effect {s s' : App} {a : Action} (h : s.step a = some s') : Effect s s' a := by
  cases App.step_moves h with
  | pickFile device path => exact onFilePicked_effect s device path
  | cancelFile => exact .silent rfl rfl rfl rfl id
  | user a s' free move => exact user_effect move
  | background a s' move => exact background_effect move

/-! ### The invariant -/

/-- The flag follows the newest command while any is pending, and the session
once none is; a session is only held while the loop handles no command. -/
structure FlagInv (s : App) : Prop where
  held : s.loop.cmds ≠ [] → s.active = .none
  shown : s.ui.casting = true →
    (∃ cmd, s.pending.getLast? = some cmd ∧ cmd ≠ .stop) ∨
      s.pending = [] ∧ (s.active.isStreaming = true ∨ .clearCasting ∈ s.closures)
  hidden : s.ui.casting = false →
    s.pending.getLast? = some .stop ∨ s.pending = [] ∧ s.active.isOn = false

theorem flagInv_init : FlagInv {} where
  held h := absurd rfl h
  shown := nofun
  hidden _ := .inr ⟨rfl, rfl⟩

theorem getLast?_tail {cmd last : Cmd} {cmds : List Cmd} (h : (cmd :: cmds).getLast? = some last) :
    cmds = [] ∧ last = cmd ∨ cmds.getLast? = some last := by
  cases cmds with
  | nil => exact .inl ⟨rfl, by simpa using h.symm⟩
  | cons c cs => exact .inr (by simpa using h)

theorem FlagInv.last_of_shown {s : App} (hi : FlagInv s) (hf : s.ui.casting = true)
    (hne : s.pending ≠ []) : ∃ cmd, s.pending.getLast? = some cmd ∧ cmd ≠ .stop := by
  rcases hi.shown hf with hlast | ⟨hnil, -⟩
  · exact hlast
  · exact absurd hnil hne

theorem FlagInv.last_of_hidden {s : App} (hi : FlagInv s) (hf : s.ui.casting = false)
    (hne : s.pending ≠ []) : s.pending.getLast? = some .stop := by
  rcases hi.hidden hf with hlast | ⟨hnil, -⟩
  · exact hlast
  · exact absurd hnil hne

/-- A command is done: when more are pending, the newest one is the same. -/
theorem FlagInv.done {s s' : App} (hi : FlagInv s) {cmd : Cmd} (idle : s'.loop.cmds = [])
    (flag : s'.ui.casting = s.ui.casting) (pending : s.pending = cmd :: s'.pending)
    (shown : cmd ≠ .stop → s'.active.isStreaming = true ∨ .clearCasting ∈ s'.closures)
    (hidden : cmd = .stop → s'.active.isOn = false) : FlagInv s' where
  held h := absurd idle h
  shown hf := by
    obtain ⟨last, hlast, hcast⟩ := hi.last_of_shown (flag ▸ hf) (by simp [pending])
    rw [pending] at hlast
    rcases getLast?_tail hlast with ⟨hnil, rfl⟩ | hlast'
    · exact .inr ⟨hnil, shown hcast⟩
    · exact .inl ⟨last, hlast', hcast⟩
  hidden hf := by
    have hlast := hi.last_of_hidden (flag ▸ hf) (by simp [pending])
    rw [pending] at hlast
    rcases getLast?_tail hlast with ⟨hnil, rfl⟩ | hlast'
    · exact .inr ⟨hnil, hidden rfl⟩
    · exact .inl hlast'

/-- Commands, session and flag stay, and no clear is lost. -/
theorem FlagInv.keep {s s' : App} (hi : FlagInv s) (busy : s'.loop.cmds = s.loop.cmds)
    (flag : s'.ui.casting = s.ui.casting) (pending : s'.pending = s.pending)
    (session : s'.active = s.active)
    (clears : .clearCasting ∈ s.closures → .clearCasting ∈ s'.closures) : FlagInv s' where
  held h := session ▸ hi.held (busy ▸ h)
  shown hf := by
    rw [pending, session]
    rcases hi.shown (flag ▸ hf) with hlast | ⟨hnil, hs | hcl⟩
    · exact .inl hlast
    · exact .inr ⟨hnil, .inl hs⟩
    · exact .inr ⟨hnil, .inr (clears hcl)⟩
  hidden hf := by
    rw [pending, session]
    exact hi.hidden (flag ▸ hf)

/-- The pump of the held mirror moves on; if it leaves its loop by itself it has
posted a clear. -/
theorem FlagInv.pumped {s s' : App} (hi : FlagInv s) (busy : s'.loop.cmds = s.loop.cmds)
    (flag : s'.ui.casting = s.ui.casting) (pending : s'.pending = s.pending)
    (was : s.active.isOn = true)
    (clears : s.active.isStreaming = true ∨ .clearCasting ∈ s.closures →
      .clearCasting ∈ s'.closures) : FlagInv s' where
  held h := by
    have hnone := hi.held (busy ▸ h)
    simp [hnone, Active.isOn] at was
  shown hf := by
    rw [pending]
    rcases hi.shown (flag ▸ hf) with hlast | ⟨hnil, hs⟩
    · exact .inl hlast
    · exact .inr ⟨hnil, .inr (clears hs)⟩
  hidden hf := by
    rw [pending]
    rcases hi.hidden (flag ▸ hf) with hlast | ⟨-, hoff⟩
    · exact .inl hlast
    · simp [was] at hoff

theorem flagInv_step {s s' : App} {a : Action} (hi : FlagInv s) (hc : InTime s a)
    (h : s.step a = some s') : FlagInv s' := by
  cases step_effect h with
  | silent flag pending session busy clears => exact hi.keep busy flag pending session clears
  | cast cmd isCast flag pending session busy =>
    refine ⟨fun hb => session ▸ hi.held (busy ▸ hb),
      fun _ => .inl ⟨cmd, by simp [pending], isCast⟩, ?_⟩
    intro hf
    simp [flag] at hf
  | stop flag pending session busy =>
    refine ⟨fun hb => session ▸ hi.held (busy ▸ hb), ?_, fun _ => .inl (by simp [pending])⟩
    intro hf
    simp [flag] at hf
  | clear isRun head flag pending session busy =>
    refine ⟨fun hb => session ▸ hi.held (busy ▸ hb), ?_, fun _ => ?_⟩
    · intro hf
      simp [flag] at hf
    · rw [pending, session]
      cases hcast : s.ui.casting with
      | false => exact hi.hidden hcast
      | true => exact .inr (hc isRun head hcast)
  | receive flag pending some session =>
    refine ⟨fun _ => session, fun hf => .inl ?_, fun hf => .inl ?_⟩
    · rw [pending]
      exact hi.last_of_shown (flag ▸ hf) some
    · rw [pending]
      exact hi.last_of_hidden (flag ▸ hf) some
  | stopped flag pending session busy idle =>
    refine hi.done idle flag pending (fun hne => absurd rfl hne) fun _ => ?_
    rw [session, hi.held busy]
    rfl
  | failed cmd flag pending session idle clears =>
    refine hi.done idle flag pending (fun _ => .inr clears) fun _ => ?_
    rw [session]
    rfl
  | started cmd isCast flag pending session idle =>
    exact hi.done idle flag pending (fun _ => .inl session) fun hstop => absurd hstop isCast
  | ended flag pending was session busy clears =>
    exact hi.pumped busy flag pending (by rw [was]; rfl) fun _ => clears
  | finished flag pending was session busy clears =>
    refine hi.pumped busy flag pending (by rw [was]; rfl) fun hs => ?_
    rcases hs with hs | hcl
    · simp [was, Active.isStreaming] at hs
    · rw [clears]
      exact hcl

/-- In every run in which no clear overtakes a cast, the flag is right in every
quiescent state. -/
theorem flag_right_of_inTime {s : App} (h : Reaches App.step InTime {} s)
    (hq : s.Quiescent) : s.FlagRight := by
  obtain ⟨-, shown, hidden⟩ := h.invariant flagInv_step flagInv_init
  obtain ⟨hnil, hclosures⟩ := hq
  constructor
  · intro hf
    rcases shown hf with ⟨cmd, hlast, -⟩ | ⟨-, hs | hcl⟩
    · simp [hnil] at hlast
    · exact Active.isOn_of_isStreaming hs
    · simp [hclosures] at hcl
  · intro hon
    by_contra hf
    rcases hidden (Bool.eq_false_iff.mpr hf) with hlast | ⟨-, hoff⟩
    · simp [hnil] at hlast
    · simp [hon] at hoff

/-- A run in which the user selects the only device. -/
def selectOnly : List Action :=
  [.update [sampleDevice "tv".toList], .publish, .runClosure, .click 0]

theorem flag_right_while_media :
    ∃ s : App, s.active = .media ∧ s.ui.casting = true ∧ s.FlagRight := by
  refine ⟨_, ?_, ?_, flag_right_of_inTime (Reaches.of_run_met (selectOnly ++
    [.openFile, .pickFile "film.mp4".toList, .receive, .tornDown, .startSucceeds]) rfl) ?_⟩
  · rfl
  · rfl
  · exact ⟨rfl, rfl⟩

/-- The user stops a mirror that is still being started and plays a file; the
clear of the mirror, whose start fails late, hides the file's session. -/
theorem late_clear_hides_cast :
    ∃ s, Reaches App.step (fun _ _ => True) {} s ∧ s.Quiescent ∧ ¬ s.FlagRight := by
  refine ⟨_, Reaches.of_run_met (selectOnly ++
    [.mirror, .receive, .tornDown, .stop, .openFile, .pickFile "film.mp4".toList, .startFails,
      .runClosure, .receive, .tornDown, .receive, .tornDown, .startSucceeds]) rfl, ?_, ?_⟩
  · exact ⟨rfl, rfl⟩
  · intro h
    exact Bool.noConfusion (h.mpr rfl)

end HorizonCast
