import HorizonCast.Proofs.AppSteps
import HorizonCast.Proofs.QuietCalls

/-! The casts, call by call, beside the window's model: how far a start, a teardown and a
pump have come, and where the window's model is then. -/

namespace HorizonCast.Casting

open Routine Text

/-! ### A start -/

/-- How far a start has come. -/
inductive Progress where
  | fresh
  | looked (found : Option Device)
  | posted
  | spawned (device : Device) (pump : ℕ)

/-- A start looks its device up, and in the end posts that it failed or spawns a pump. -/
def startRules (cmd : Cmd) : Discipline Reply Progress where
  allows reached o :=
    match reached, o with
    | .fresh, .findDevice id => cmd.target = some id
    | .looked _, .clearCasting => True
    | .looked found, .spawnPump _ => found.isSome
    | .looked _, o => Quiet o
    | _, _ => False
  after reached o reply :=
    match reached, o, reply with
    | .fresh, .findDevice _, found => .looked found
    | .looked _, .clearCasting, _ => .posted
    | .looked (some device), .spawnPump _, pump => .spawned device pump
    | reached, _, _ => reached

/-- What a start ends with. -/
def Starts (cmd : Cmd) (active : Active) (reached : Progress) : Prop :=
  match active, reached with
  | .none, .posted => True
  | .media _, .looked (some device) => cmd.isMedia = true ∧ Startable device
  | .mirror k, .spawned device pump => cmd.isMirror = true ∧ k = pump ∧ Startable device
  | _, _ => False

section Start

variable {cmd : Cmd}

theorem still_looked (found : Option Device) (o : Op) (ho : Quiet o) :
    (startRules cmd).allows (.looked found) o ∧
      ∀ reply, (startRules cmd).after (.looked found) o reply = .looked found := by
  cases o with
  | findDevice | clearCasting | spawnPump | signalStop | awaitPump => exact ho.elim
  | _ => exact ⟨trivial, fun _ => by cases found <;> rfl⟩

theorem failed_starts (found : Option Device) :
    failed.Follows (startRules cmd) (Starts cmd) (.looked found) :=
  ⟨trivial, fun _ => by cases found <;> trivial⟩

theorem startOn_starts {id : Str} (hid : cmd.target = some id) {start : Device → Str → Async Active}
    (hstart : ∀ device control, Startable device →
      (start device control).Follows (startRules cmd) (Starts cmd) (.looked (some device))) :
    (startOn id start).Follows (startRules cmd) (Starts cmd) .fresh := by
  refine ⟨hid, fun found => ?_⟩
  cases found with
  | none => exact failed_starts none
  | some device =>
    apply ((controlUrl_quiet device).of_still (still_looked (some device))).bind
    rintro resolved _ ⟨hresolved, rfl⟩
    cases resolved with
    | none => exact failed_starts (some device)
    | some control => exact hstart device control (hresolved rfl)

theorem startCmd_starts (hcmd : cmd ≠ .stop) :
    (startCmd cmd).Follows (startRules cmd) (Starts cmd) .fresh := by
  have hmedia : ∀ id source, cmd.target = some id → cmd.isMedia = true →
      (startMedia id source).Follows (startRules cmd) (Starts cmd) .fresh := by
    intro id source hid hkind
    apply startOn_starts hid
    intro device control hdevice
    apply ((castSource_quiet device control source).of_still (still_looked (some device))).bind
    rintro result _ ⟨-, rfl⟩
    cases result with
    | error e => exact failed_starts (some device)
    | ok session => exact ⟨hkind, hdevice⟩
  cases cmd with
  | castFile id path => exact hmedia id (.file path) rfl rfl
  | castUrl id url => exact hmedia id (.url url) rfl rfl
  | mirror id fps bitrateKbps =>
    apply startOn_starts rfl
    intro device control hdevice
    apply ((startLiveMirror_quiet control device.address _).of_still
      (still_looked (some device))).bind
    rintro result _ ⟨-, rfl⟩
    cases result with
    | error e => exact failed_starts (some device)
    | ok session => exact ⟨trivial, fun _ => ⟨rfl, fun k => ⟨rfl, rfl, hdevice⟩⟩⟩
  | stop => exact absurd rfl hcmd

end Start

/-! ### Pumps -/

/-- The pump of a mirror, as the window's model has it. One that has left its loop and has
to post that is still taken to be in it. -/
inductive PumpPhase.Is : PumpPhase → Pump → Prop where
  | pumping : Is .pumping .pumping
  | leaving {next : Unit → Async Unit} (quiet : (next ()).Only Quiet) :
      Is (.ending (.op .clearCasting next)) .pumping
  | stopping {rest : Async Unit} (quiet : rest.Only Quiet) : Is (.ending rest) .stopping
  | ended : Is .ended .finished

def AllEnded (pumps : List PumpTask) : Prop := ∀ task ∈ pumps, task.phase.hasEnded = true

/-- The pump is there, and it is the only one that may not have ended. -/
structure Alone (pumps : List PumpTask) (k : ℕ) (task : PumpTask) : Prop where
  spawned : pumps[k]? = some task
  others : ∀ i other, i ≠ k → pumps[i]? = some other → other.phase.hasEnded = true

theorem Alone.allEnded {pumps : List PumpTask} {k : ℕ} {task : PumpTask} (h : Alone pumps k task)
    (hended : task.phase.hasEnded = true) : AllEnded pumps := by
  intro other hother
  obtain ⟨i, hi⟩ := List.mem_iff_getElem?.mp hother
  by_cases hik : i = k
  · subst hik
    obtain rfl := Option.some.inj (h.spawned.symm.trans hi)
    exact hended
  · exact h.others i other hik hi

theorem Alone.eq {pumps : List PumpTask} {k j : ℕ} {task other : PumpTask} (h : Alone pumps k task)
    (hj : pumps[j]? = some other) (hlive : other.phase.hasEnded = false) :
    j = k ∧ other = task := by
  by_cases hjk : j = k
  · subst hjk
    exact ⟨rfl, Option.some.inj (hj.symm.trans h.spawned)⟩
  · simp [h.others j other hjk hj] at hlive

theorem Alone.modify {pumps : List PumpTask} {k : ℕ} {task : PumpTask} (h : Alone pumps k task)
    (f : PumpTask → PumpTask) : Alone (pumps.modify k f) k (f task) where
  spawned := by simp [h.spawned]
  others i other hi hother := by
    rw [List.getElem?_modify_ne f pumps (Ne.symm hi)] at hother
    exact h.others i other hi hother

/-! ### Where a start stands -/

def Progress.Holds (cmd : Cmd) (w : World) : Progress → Prop
  | .fresh | .posted => AllEnded w.pumps
  | .looked found =>
    AllEnded w.pumps ∧ ∃ id, cmd.target = some id ∧ found = findDevice w.snapshot id
  | .spawned device k =>
    (∃ id, cmd.target = some id ∧ findDevice w.snapshot id = some device) ∧
      ∃ task, Alone w.pumps k task ∧ task.stopSent = false ∧ task.phase = .pumping

/-- The post that the window's model has not made yet. -/
def Progress.owed : Progress → List Closure
  | .posted => [.clearCasting]
  | _ => []

theorem alone_concat {pumps : List PumpTask} (h : AllEnded pumps) (task : PumpTask) :
    Alone (pumps ++ [task]) pumps.length task where
  spawned := List.getElem?_concat_length
  others i other hi hother := by
    have hlt : i < pumps.length := by
      have hle : i < pumps.length + 1 := by
        simpa using (List.getElem?_eq_some_iff.mp hother).1
      omega
    rw [List.getElem?_append_left hlt] at hother
    exact h other (List.mem_of_getElem? hother)

theorem Progress.Holds.exec {cmd : Cmd} {w w' : World} {reached : Progress} {o : Op}
    {answer reply : Reply o} (h : reached.Holds cmd w) (ho : (startRules cmd).allows reached o)
    (he : w.exec o answer = some (reply, w')) :
    ((startRules cmd).after reached o reply).Holds cmd w' := by
  cases reached with
  | fresh =>
    cases o with
    | findDevice id =>
      cases he
      exact ⟨h, id, ho, rfl⟩
    | _ => exact ho.elim
  | looked found =>
    obtain ⟨hended, id, hid, hfound⟩ := h
    cases o with
    | clearCasting =>
      cases he
      cases found <;> exact hended
    | spawnPump session =>
      cases he
      obtain ⟨device, rfl⟩ := Option.isSome_iff_exists.mp ho
      exact ⟨⟨id, hid, hfound.symm⟩, _, alone_concat hended _, rfl, rfl⟩
    | findDevice | signalStop | awaitPump => exact ho.elim
    | _ =>
      cases he
      cases found <;> exact ⟨hended, id, hid, hfound⟩
  | posted | spawned => exact ho.elim

theorem owed_nil {cmd : Cmd} {reached : Progress} {o : Op}
    (ho : (startRules cmd).allows reached o) : reached.owed = [] := by
  cases reached with
  | posted => exact ho.elim
  | _ => rfl

theorem owed_after {cmd : Cmd} {reached : Progress} {o : Op}
    (ho : (startRules cmd).allows reached o) (reply : Reply o) :
    ((startRules cmd).after reached o reply).owed = o.posts := by
  cases reached with
  | fresh =>
    cases o with
    | findDevice id => rfl
    | _ => exact ho.elim
  | looked found =>
    cases o with
    | spawnPump session =>
      obtain ⟨device, rfl⟩ := Option.isSome_iff_exists.mp ho
      rfl
    | findDevice | signalStop | awaitPump => exact ho.elim
    | _ => cases found <;> rfl
  | posted | spawned => exact ho.elim

/-! ### The two systems side by side -/

/-- What is active, as the window's model has it. -/
inductive Active.Is (pumps : List PumpTask) : Active → HorizonCast.Active → Prop where
  | none (ended : AllEnded pumps) : Is pumps .none .none
  | media (session : MediaCastSession) (ended : AllEnded pumps) : Is pumps (.media session) .media
  | mirror {k : ℕ} {task : PumpTask} {pump : Pump} (alone : Alone pumps k task)
      (going : task.stopSent = false) (phase : task.phase.Is pump) :
      Is pumps (.mirror k) (.mirror pump)

/-- What is left of the teardown of a mirror. -/
inductive MirrorRest (k : ℕ) (task : PumpTask) : Async Unit → Prop where
  | signal (going : task.stopSent = false) : MirrorRest k task
      (.op (.signalStop k) fun _ => .op (.awaitPump k) fun _ => .op .awaitCapture .pure)
  | await : MirrorRest k task (.op (.awaitPump k) fun _ => .op .awaitCapture .pure)
  | capture (ended : task.phase.hasEnded = true) : MirrorRest k task (.op .awaitCapture .pure)

/-- What is left of a teardown, and what it tears down. -/
inductive TearsDown (pumps : List PumpTask) : Async Unit → HorizonCast.Active → Prop where
  | media {rest : Async Unit} (quiet : rest.Only Quiet) (ended : AllEnded pumps) :
      TearsDown pumps rest .media
  | mirror {k : ℕ} {task : PumpTask} {pump : Pump} {rest : Async Unit} (alone : Alone pumps k task)
      (phase : task.phase.Is pump) (left : MirrorRest k task rest) :
      TearsDown pumps rest (.mirror pump)

/-- The background task stands where the loop of the window's model does. -/
inductive Matches (w : World) : Loop → HorizonCast.Loop → HorizonCast.Active → Prop where
  | idle {active : Active} {held : HorizonCast.Active} (same : active.Is w.pumps held) :
      Matches w (.idle active) .idle held
  | tearingDown {rest : Async Unit} {cmd : Cmd} {old : HorizonCast.Active}
      (tears : TearsDown w.pumps rest old) :
      Matches w (.tearingDown rest cmd) (.tearingDown old cmd) .none
  | starting {o : Op} {next : Reply o → Async Active} {cmd : Cmd} {reached : Progress}
      (follows : (Routine.op o next).Follows (startRules cmd) (Starts cmd) reached)
      (holds : reached.Holds cmd w) : Matches w (.starting (.op o next)) (.starting cmd) .none

/-- The two systems have the same commands to come, know the same devices, have posted the
same and stand at the same place. -/
structure Layered (s : Posting) (app : App) : Prop where
  commands : app.commands = s.system.commands
  snapshot : app.snapshot = s.system.world.snapshot
  closures : app.closures = s.posted
  loop : Matches s.system.world s.system.loop app.loop app.active

end HorizonCast.Casting
