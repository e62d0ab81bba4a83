import HorizonCast.Spec.Casting

/-! The steps of a cast, one by one: what each needs and the state it leaves. -/

namespace HorizonCast.Casting

open Text

namespace System

/-- The moves of the UI thread. -/
inductive UiMove (s : System) : System → Prop where
  | send (cmd : Cmd) (shown : s.window = .shown) :
      UiMove s { s with commands := s.commands ++ [cmd] }
  | close (shown : s.window = .shown) : UiMove s { s with window := .closed }
  | dropSenders (closed : s.window = .closed) : UiMove s { s with window := .returned }
  | exit (returned : s.window = .returned) : UiMove s { s with window := .exited }

/-- The moves of the background task. -/
inductive LoopMove (s : System) : System → Prop where
  | update (devices : List Device) (active : Active) (idle : s.loop = .idle active) :
      LoopMove s { s with world := { s.world with snapshot := devices } }
  | receive (active : Active) (cmd : Cmd) (rest : List Cmd) (idle : s.loop = .idle active)
      (queued : s.commands = cmd :: rest) :
      LoopMove s { s with commands := rest, loop := .ofTeardown (teardown active) cmd }
  | leave (active : Active) (idle : s.loop = .idle active) :
      LoopMove s { s with loop := .ofFinish (finish active) }
  | teardown (o : Op) (next : Reply o → Async Unit) (cmd : Cmd) (answer reply : Reply o)
      (world : World) (tearing : s.loop = .tearingDown (.op o next) cmd)
      (exec : s.world.exec o answer = some (reply, world)) :
      LoopMove s { s with world, loop := .ofTeardown (next reply) cmd }
  | start (o : Op) (next : Reply o → Async Active) (answer reply : Reply o) (world : World)
      (starting : s.loop = .starting (.op o next))
      (exec : s.world.exec o answer = some (reply, world)) :
      LoopMove s { s with world, loop := .ofStart (next reply) }
  | finish (o : Op) (next : Reply o → Async Unit) (answer reply : Reply o) (world : World)
      (finishing : s.loop = .finishing (.op o next))
      (exec : s.world.exec o answer = some (reply, world)) :
      LoopMove s { s with world, loop := .ofFinish (next reply) }

/-- The moves of a pump task. -/
inductive PumpMove (s : System) (pump : ℕ) (task : PumpTask) : System → Prop where
  | leave (captureEnded : Bool) (pumping : task.phase = .pumping) :
      PumpMove s pump task (s.toPhase pump s.world (endPump task.session captureEnded))
  | call (o : Op) (next : Reply o → Async Unit) (answer reply : Reply o) (world : World)
      (ending : task.phase = .ending (.op o next))
      (exec : s.world.exec o answer = some (reply, world)) :
      PumpMove s pump task (s.toPhase pump world (next reply))

/-- A step: a move of one of the threads, while the process lives. -/
inductive Moves (s : System) : System → Prop where
  | ui (s' : System) (move : UiMove s s') : Moves s s'
  | background (s' : System) (move : LoopMove s s') : Moves s s'
  | pump (k : ℕ) (task : PumpTask) (s' : System) (spawned : s.world.pumps[k]? = some task)
      (move : PumpMove s k task s') : Moves s s'

theorem background_move {s s' : System} {answers : Answers} (h : s.background answers = some s') :
    LoopMove s s' := by
  rw [background] at h
  split at h
  case h_1 o next cmd hloop =>
    obtain ⟨⟨reply, world⟩, he, rfl⟩ := Option.map_eq_some_iff.mp h
    exact .teardown o next cmd _ reply world hloop he
  case h_2 o next hloop =>
    obtain ⟨⟨reply, world⟩, he, rfl⟩ := Option.map_eq_some_iff.mp h
    exact .start o next _ reply world hloop he
  case h_3 o next hloop =>
    obtain ⟨⟨reply, world⟩, he, rfl⟩ := Option.map_eq_some_iff.mp h
    exact .finish o next _ reply world hloop he
  case h_4 => cases h

theorem pump_move {s s' : System} {k : ℕ} {task : PumpTask} {a : Action}
    (h : s.pump k task a = some s') : PumpMove s k task s' := by
  cases a <;> simp only [pump, reduceCtorEq] at h
  case stopSignal =>
    split at h
    · obtain ⟨-, heq⟩ := Option.ite_none_right_eq_some.mp h
      cases heq
      exact .leave false ‹_›
    · cases h
  case captureEnds =>
    split at h
    · cases h
      exact .leave true ‹_›
    · cases h
  case pump _ answers =>
    split at h
    · obtain ⟨⟨reply, world⟩, he, rfl⟩ := Option.map_eq_some_iff.mp h
      exact .call _ _ _ reply world ‹_› he
    · cases h

/-- What a step does. -/
theorem moves_of_step {s s' : System} {a : Action} (h : s.step a = some s') :
    s.window ≠ .exited ∧ Moves s s' := by
  obtain ⟨hlive, h⟩ := Option.ite_none_left_eq_some.mp h
  refine ⟨hlive, ?_⟩
  cases a with
  | send cmd =>
    obtain ⟨hshown, heq⟩ := Option.ite_none_right_eq_some.mp h
    cases heq
    exact .ui _ (.send cmd hshown)
  | close =>
    obtain ⟨hshown, heq⟩ := Option.ite_none_right_eq_some.mp h
    cases heq
    exact .ui _ (.close hshown)
  | dropSenders =>
    obtain ⟨hclosed, heq⟩ := Option.ite_none_right_eq_some.mp h
    cases heq
    exact .ui _ (.dropSenders hclosed)
  | exit =>
    obtain ⟨hreturned, heq⟩ := Option.ite_none_right_eq_some.mp h
    cases heq
    exact .ui _ (.exit hreturned)
  | update devices =>
    simp only at h
    split at h
    · cases h
      exact .background _ (.update devices _ ‹_›)
    · cases h
  | discoveryEnds =>
    simp only at h
    split at h
    · cases h
      exact .background _ (.leave _ ‹_›)
    · cases h
  | receive =>
    simp only at h
    split at h
    · cases h
      exact .background _ (.receive _ _ _ ‹_› ‹_›)
    · cases h
  | channelClosed =>
    simp only at h
    split at h
    · obtain ⟨-, heq⟩ := Option.ite_none_right_eq_some.mp h
      cases heq
      exact .background _ (.leave _ ‹_›)
    · cases h
  | background answers => exact .background _ (background_move h)
  | stopSignal k | captureEnds k | pump k answers =>
    obtain ⟨task, hk, hp⟩ := Option.bind_eq_some_iff.mp h
    exact .pump k task _ hk (pump_move hp)

end System

end HorizonCast.Casting
