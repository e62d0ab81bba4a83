import HorizonCast.Spec.Casting

/-! The process of the app (`hc-app/src/main.rs`): the system of its tasks, with the calls
that they have begun and that are not answered yet. `main` can return while one is under
way. -/

namespace HorizonCast.Casting

open Text

/-- A SOAP request that a call sends to a renderer (by control URL), or what comes back. -/
inductive Exchange where
  | sent (controlUrl : Str) (action : SoapAction)
  | answered (controlUrl : Str) (action : SoapAction) (ok : Bool)
  deriving DecidableEq, Repr

def Op.sends : Op → List Exchange
  | .sendSoapAction url action _ => [.sent url action]
  | _ => []

def Op.answered : (o : Op) → Reply o → List Exchange
  | .sendSoapAction url action _, reply => [.answered url action reply.isOk]
  | _, _ => []

/-- The renderers that were told to play, with success, and to which no `Stop` was sent
since. -/
def unstopped (wire : List Exchange) : List Str :=
  wire.foldl (fun urls e =>
    match e with
    | .answered url .play true => urls ++ [url]
    | .sent url .stop => urls.filter (· ≠ url)
    | _ => urls) []

/-- The call that the background task awaits, or is about to. -/
def Loop.awaits : Loop → Option Op
  | .tearingDown (.op o _) _ | .starting (.op o _) | .finishing (.op o _) => some o
  | _ => none

/-- The call that a pump awaits, or is about to. -/
def PumpPhase.awaits : PumpPhase → Option Op
  | .ending (.op o _) => some o
  | _ => none

structure Process where
  system : System := {}
  /-- The background task has begun its call. -/
  begun : Bool := false
  /-- The pumps that have begun theirs. -/
  pumpsBegun : List ℕ := []
  wire : List Exchange := []

/-- What a process does: a task begins its call, or the system takes a step, in which the
call of the background task or of a pump returns only once it has begun. -/
inductive Deed where
  | begin
  | beginPump (pump : ℕ)
  | act (a : Action)

namespace Process

/-- The call that a pump awaits. -/
def awaitsAt (p : Process) (pump : ℕ) : Option Op :=
  p.system.world.pumps[pump]?.bind fun task => task.phase.awaits

def step (p : Process) : Deed → Option Process
  | .begin =>
    if p.system.window = .exited ∨ p.begun then none
    else p.system.loop.awaits.map fun o => { p with begun := true, wire := p.wire ++ o.sends }
  | .beginPump pump =>
    if p.system.window = .exited ∨ pump ∈ p.pumpsBegun then none
    else (p.awaitsAt pump).map fun o =>
      { p with pumpsBegun := pump :: p.pumpsBegun, wire := p.wire ++ o.sends }
  | .act (.background answers) =>
    if p.begun then
      p.system.loop.awaits.bind fun o => (p.system.step (.background answers)).map fun system =>
        { p with system, begun := false, wire := p.wire ++ o.answered (answers o) }
    else none
  | .act (.pump pump answers) =>
    if pump ∈ p.pumpsBegun then
      (p.awaitsAt pump).bind fun o => (p.system.step (.pump pump answers)).map fun system =>
        { p with
          system
          pumpsBegun := p.pumpsBegun.erase pump
          wire := p.wire ++ o.answered (answers o) }
    else none
  | .act a => (p.system.step a).map fun system => { p with system }

end Process

/-- A run in which a renderer is told to play a link. -/
def linkRun : List Deed :=
  [.act (.update [sampleDevice "tv".toList]),
    .act (.send (.castUrl "tv".toList "http://a.test/b.mp4".toList)), .act .receive] ++
    (List.replicate 3 [.begin, .act (.background allSucceed)]).flatten

end HorizonCast.Casting
