import HorizonCast.Lib.Transition
import HorizonCast.Proofs.AppSteps

/-! Which device a cast goes to. The selection is a row index that is looked up
in the shared snapshot, not in the list the user saw; a cast goes to the device
the user picked in every run in which the click or the update before each look-up
left that device in the selected row of the snapshot. -/

namespace HorizonCast

open Text Transition

/-! ### Watching the user -/

/-- The app with what an observer at the screen writes down: the id displayed in
the row clicked last, as displayed at that click; whether the last click or update
of the snapshot kept to it; and for each cast command sent, the pick at that time
and the id it carries. -/
structure Watched where
  app : App := {}
  picked : Option Str := none
  kept : Bool := true
  sent : List (Option Str × Str) := []
  deriving DecidableEq

/-- The id displayed in a row. -/
def App.displayedId (s : App) (index : ℕ) : Option Str := s.ui.devices[index]?.map DeviceItem.id

/-- The devices that the commands sent by a step cast to. -/
def newTargets (s s' : App) : List Str :=
  (s'.commands.drop s.commands.length).filterMap Cmd.target

def Watched.pick (w : Watched) : Action → Option Str
  | .click index => w.app.displayedId index
  | _ => w.picked

/-- A click keeps to the pick if its row of the snapshot holds the device displayed
there, or none, and an update if it puts no other device into the selected row. -/
def Watched.keeps (w : Watched) : Action → Bool
  | .click index => decide (∀ d ∈ w.app.snapshot[index]?, w.app.displayedId index = some d.id)
  | .update devices => decide (∀ d ∈ selectedDevice w.app.ui devices, w.picked = some d.id)
  | _ => w.kept

def Watched.step (w : Watched) (a : Action) : Option Watched := do
  let app ← w.app.step a
  some ⟨app, w.pick a, w.keeps a,
    w.sent ++ (newTargets w.app app).map fun id => (w.pick a, id)⟩

/-- Every cast command went to the device picked. -/
def Watched.Faithful (w : Watched) : Prop := ∀ pick ∈ w.sent, pick.1 = some pick.2

/-- The action looks the selected row up. -/
def Action.looksUp : Action → Bool
  | .mirror | .openFile | .castUrl _ => true
  | _ => false

/-- Before a look-up, the last click or update kept to the pick. -/
def Settled (w : Watched) (a : Action) : Prop := a.looksUp = true → w.kept = true

instance (w : Watched) (a : Action) : Decidable (Settled w a) := by
  unfold Settled
  infer_instance

/-! ### What a step can do -/

/-- The action is no click and no update. -/
def Action.Other : Action → Prop
  | .click _ | .update _ => False
  | _ => True

/-- What a step can do to the selected row, the dialog and the commands. -/
inductive Lookup (s s' : App) (a : Action) : Prop where
  | click (index : ℕ) (isClick : a = .click index) (row : s'.ui.selected = index)
      (dialog : s'.ui.dialog = none) (snapshot : s'.snapshot = s.snapshot)
      (quiet : newTargets s s' = [])
  | update (devices : List Device) (isUpdate : a = .update devices)
      (row : s'.ui.selected = s.ui.selected) (dialog : s'.ui.dialog = s.ui.dialog)
      (snapshot : s'.snapshot = devices) (quiet : newTargets s s' = [])
  | opened (device : Device) (asks : a.looksUp = true)
      (looked : selectedDevice s.ui s.snapshot = some device) (other : a.Other)
      (row : s'.ui.selected = s.ui.selected) (dialog : s'.ui.dialog = some device)
      (snapshot : s'.snapshot = s.snapshot) (quiet : newTargets s s' = [])
  | cast (device : Device)
      (looked : a.looksUp = true ∧ selectedDevice s.ui s.snapshot = some device ∨
        s.ui.dialog = some device)
      (other : a.Other) (row : s'.ui.selected = s.ui.selected)
      (dialog : s'.ui.dialog = none) (snapshot : s'.snapshot = s.snapshot)
      (sent : newTargets s s' = [device.id])
  | other (other : a.Other) (row : s'.ui.selected = s.ui.selected)
      (dialog : s'.ui.dialog = none ∨ s'.ui.dialog = s.ui.dialog)
      (snapshot : s'.snapshot = s.snapshot) (quiet : newTargets s s' = [])

theorem newTargets_le {s s' : App} (h : s'.commands.length ≤ s.commands.length) :
    newTargets s s' = [] := by
  rw [newTargets, List.drop_eq_nil_of_le h, List.filterMap_nil]

theorem newTargets_same {s s' : App} (h : s'.commands = s.commands) : newTargets s s' = [] :=
  newTargets_le (h ▸ le_rfl)

theorem newTargets_send {s t : App} (h : t.commands = s.commands) (cmd : Cmd) :
    newTargets s (t.send cmd) = [cmd].filterMap Cmd.target := by
  simp [newTargets, App.send, h]

theorem onMirror_lookup {s : App} (hd : s.ui.dialog = none) : Lookup s s.onMirror .mirror := by
  unfold App.onMirror
  cases hlooked : selectedDevice s.ui s.snapshot with
  | none => exact .other trivial rfl (.inr rfl) rfl (newTargets_same rfl)
  | some device =>
    exact .cast device (.inl ⟨rfl, hlooked⟩) trivial rfl hd rfl (newTargets_send rfl _)

theorem onCastFile_lookup (s : App) : Lookup s s.onCastFile .openFile := by
  unfold App.onCastFile
  cases hlooked : selectedDevice s.ui s.snapshot with
  | none => exact .other trivial rfl (.inr rfl) rfl (newTargets_same rfl)
  | some device => exact .opened device rfl hlooked trivial rfl rfl rfl (newTargets_same rfl)

theorem onFilePicked_lookup {s : App} {device : Device} (hd : s.ui.dialog = some device)
    (path : Str) : Lookup s (s.onFilePicked device path) (.pickFile path) :=
  .cast device (.inr hd) trivial rfl rfl rfl (newTargets_send rfl _)

theorem onCastUrl_lookup {s : App} (hd : s.ui.dialog = none) (url : Str) :
    Lookup s (s.onCastUrl url) (.castUrl url) := by
  unfold App.onCastUrl
  dsimp only
  split_ifs with hurl
  · exact .other trivial rfl (.inr rfl) rfl (newTargets_same rfl)
  · cases hlooked : selectedDevice s.ui s.snapshot with
    | none => exact .other trivial rfl (.inr rfl) rfl (newTargets_same rfl)
    | some device =>
      exact .cast device (.inl ⟨rfl, hlooked⟩) trivial rfl hd rfl (newTargets_send rfl _)

theorem user_lookup {s s' : App} {a : Action} (hd : s.ui.dialog = none) (h : s.UserMove a s') :
    Lookup s s' a := by
  cases h with
  | click index => exact .click index rfl rfl hd rfl (newTargets_same rfl)
  | setFps | setQuality | rescan | setDevices | clearCasting =>
    exact .other trivial rfl (.inr rfl) rfl (newTargets_same rfl)
  | mirror => exact onMirror_lookup hd
  | openFile => exact onCastFile_lookup s
  | castUrl url => exact onCastUrl_lookup hd url
  | stop => exact .other trivial rfl (.inr rfl) rfl (newTargets_send rfl .stop)

/-- Only an update writes the snapshot, and no thread but the UI's sends a command. -/
theorem background_lookup {s s' : App} {a : Action} (h : s.BackgroundMove a s') :
    Lookup s s' a := by
  cases h with
  | update devices => exact .update devices rfl rfl rfl rfl (newTargets_same rfl)
  | receive cmd rest idle queued =>
    exact .other trivial rfl (.inr rfl) rfl (newTargets_le (by simp [queued]))
  | _ => exact .other trivial rfl (.inr rfl) rfl (newTargets_same rfl)

theorem step_lookup {s s' : App} {a : Action} (h : s.step a = some s') : Lookup s s' a := by
  cases App.step_moves h with
  | pickFile device path asked => exact onFilePicked_lookup asked path
  | cancelFile => exact .other trivial rfl (.inl rfl) rfl (newTargets_same rfl)
  | user a s' free move => exact user_lookup free move
  | background a s' move => exact background_lookup move

/-! ### The invariant -/

/-- The selected row of the snapshot, when it was kept, and the device of an open
file dialog are the device picked. -/
structure PickInv (w : Watched) : Prop where
  row : w.kept = true → ∀ d ∈ selectedDevice w.app.ui w.app.snapshot, w.picked = some d.id
  dialog : ∀ d ∈ w.app.ui.dialog, w.picked = some d.id
  faithful : w.Faithful

theorem pickInv_init : PickInv {} where
  row _ := nofun
  dialog := nofun
  faithful := nofun

theorem selectedDevice_click {ui : Ui} {index : ℕ} (h : ui.selected = index)
    (snapshot : List Device) : selectedDevice ui snapshot = snapshot[index]? := by
  simp [selectedDevice, h]

theorem selectedDevice_congr {ui ui' : Ui} (h : ui'.selected = ui.selected)
    (snapshot : List Device) : selectedDevice ui' snapshot = selectedDevice ui snapshot := by
  simp [selectedDevice, h]

theorem pick_of_other {w : Watched} {a : Action} (h : a.Other) : w.pick a = w.picked := by
  cases a <;> first | rfl | exact h.elim

theorem keeps_of_other {w : Watched} {a : Action} (h : a.Other) : w.keeps a = w.kept := by
  cases a <;> first | rfl | exact h.elim

theorem PickInv.faithful_append {w w' : Watched} (hi : PickInv w) {picked : Option Str}
    {ids : List Str} (sent : w'.sent = w.sent ++ ids.map fun id => (picked, id))
    (h : ∀ id ∈ ids, picked = some id) : w'.Faithful := by
  intro pick hpick
  rw [sent, List.mem_append] at hpick
  rcases hpick with hold | hnew
  · exact hi.faithful pick hold
  · obtain ⟨id, hid, rfl⟩ := List.mem_map.mp hnew
    exact h id hid

theorem pickInv_step {w w' : Watched} {a : Action} (hi : PickInv w) (hc : Settled w a)
    (h : w.step a = some w') : PickInv w' := by
  obtain ⟨app, hstep, heq⟩ := Option.bind_eq_some_iff.mp h
  cases heq
  have hquiet : newTargets w.app app = [] → Watched.Faithful ⟨app, w.pick a, w.keeps a,
      w.sent ++ (newTargets w.app app).map (w.pick a, ·)⟩ :=
    fun hnil => hi.faithful_append rfl (by rw [hnil]; nofun)
  -- without a click or an update the row selected shows what it showed
  have hrow : a.Other → app.ui.selected = w.app.ui.selected → app.snapshot = w.app.snapshot →
      w.keeps a = true → ∀ d ∈ selectedDevice app.ui app.snapshot, w.pick a = some d.id := by
    intro other row snapshot
    rw [selectedDevice_congr row, snapshot, pick_of_other other, keeps_of_other other]
    exact hi.row
  cases step_lookup hstep with
  | click index isClick row dialog snapshot quiet =>
    subst isClick
    refine ⟨fun hkept => ?_, ?_, hquiet quiet⟩
    · dsimp only
      rw [selectedDevice_click row, snapshot]
      exact of_decide_eq_true hkept
    · dsimp only
      rw [dialog]
      nofun
  | update devices isUpdate row dialog snapshot quiet =>
    subst isUpdate
    refine ⟨fun hkept => ?_, ?_, hquiet quiet⟩
    · dsimp only
      rw [selectedDevice_congr row, snapshot]
      exact of_decide_eq_true hkept
    · dsimp only
      rw [dialog]
      exact hi.dialog
  | opened device asks looked other row dialog snapshot quiet =>
    refine ⟨hrow other row snapshot, ?_, hquiet quiet⟩
    · dsimp only
      rw [dialog, pick_of_other other]
      rintro d ⟨⟩
      exact hi.row (hc asks) device looked
  | cast device looked other row dialog snapshot sent =>
    have hdevice : w.picked = some device.id := by
      rcases looked with ⟨asks, looked⟩ | looked
      · exact hi.row (hc asks) device looked
      · exact hi.dialog device looked
    refine ⟨hrow other row snapshot, ?_, hi.faithful_append rfl ?_⟩
    · dsimp only
      rw [dialog]
      nofun
    · rw [sent, pick_of_other other]
      rintro id hid
      rw [List.mem_singleton.mp hid]
      exact hdevice
  | other other row dialog snapshot quiet =>
    refine ⟨hrow other row snapshot, ?_, hquiet quiet⟩
    · dsimp only
      rw [pick_of_other other]
      rcases dialog with dialog | dialog
      · rw [dialog]
        nofun
      · rw [dialog]
        exact hi.dialog

/-- In every run in which, before each look-up of the selected row, the last click found the
device it displayed or the last update since then put no other device into that row, every
cast command carries the id of the device the user picked. -/
theorem cast_to_picked {w : Watched} (h : Reaches Watched.step Settled {} w) : w.Faithful :=
  (h.invariant pickInv_step pickInv_init).faithful

/-- The user clicks the first of two devices. -/
def selectFirst : List Action :=
  [.update [sampleDevice "bedroom".toList, sampleDevice "kitchen".toList], .publish, .runClosure,
    .click 0]

/-- Between the click and the cast a device comes in before the one picked and goes away
again, and another one comes in behind it. -/
theorem cast_to_picked_bedroom :
    ∃ w : Watched, w.sent = [(some "bedroom".toList, "bedroom".toList)] ∧ w.Faithful ∧
      w.app.snapshot.length = 3 := by
  refine ⟨_, ?_, cast_to_picked (Reaches.of_run_met (selectFirst ++
    [.update [sampleDevice "attic".toList, sampleDevice "bedroom".toList], .publish, .runClosure,
      .update [sampleDevice "bedroom".toList, sampleDevice "kitchen".toList,
        sampleDevice "lounge".toList], .publish, .runClosure, .mirror]) rfl), ?_⟩
  · rfl
  · rfl

/-- A device that sorts before the one picked appears before the user casts. -/
theorem cast_redirected :
    ∃ w, Reaches Watched.step (fun _ _ => True) {} w ∧
      w.sent = [(some "bedroom".toList, "attic".toList)] ∧ ¬ w.Faithful := by
  refine ⟨_, Reaches.of_run_met (selectFirst ++
    [.update [sampleDevice "attic".toList, sampleDevice "bedroom".toList,
      sampleDevice "kitchen".toList], .publish, .runClosure, .mirror]) rfl, rfl, ?_⟩
  intro h
  exact absurd (h _ (List.mem_singleton.mpr rfl)) (by decide)

end HorizonCast
