import HorizonCast.Spec.Casting

/-! What the casts post to the window, and the window's model with its background half
alone: commands come in, closures go out. -/

namespace HorizonCast.Casting

open Text

/-! ### Call by call -/

/-- The closure that a call posts to the UI event loop. -/
def Op.posts : Op → List Closure
  | .clearCasting => [.clearCasting]
  | _ => []

/-- What the next call of a routine posts. -/
def nextPosts {α : Type} : Async α → List Closure
  | .op o _ => o.posts
  | .pure _ => []

def Loop.posts : Loop → List Closure
  | .tearingDown rest _ | .finishing rest => nextPosts rest
  | .starting rest => nextPosts rest
  | _ => []

def PumpPhase.posts : PumpPhase → List Closure
  | .ending rest => nextPosts rest
  | _ => []

/-- What a step posts. An update ends with the rows of the list. -/
def System.posts (s : System) : Action → List Closure
  | .update devices => [.setDevices (devices.map toItem)]
  | .background _ => s.loop.posts
  | .pump k _ => s.world.pumps[k]?.elim [] (·.phase.posts)
  | _ => []

/-- The system with all that it has posted. -/
structure Posting where
  system : System := {}
  posted : List Closure := []

def Posting.step (s : Posting) (a : Action) : Option Posting :=
  (s.system.step a).map fun system => ⟨system, s.posted ++ s.system.posts a⟩

/-- The commands that the window sends. -/
def Action.sends : Action → List Cmd
  | .send cmd => [cmd]
  | _ => []

/-! ### The model of the window -/

/-- A command of any window, or a step of the background loop or a pump. -/
inductive BackAction where
  | send (cmd : Cmd)
  | step (a : HorizonCast.Action)

def backStep (s : App) : BackAction → Option App
  | .send cmd => some (s.send cmd)
  | .step a => s.background a

def BackAction.sends : BackAction → List Cmd
  | .send cmd => [cmd]
  | .step _ => []

end HorizonCast.Casting
