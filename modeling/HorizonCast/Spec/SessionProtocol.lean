import HorizonCast.Spec.Casting

/-! The protocol of a cast, as the renderer and the media server see it: one
session after another, each loaded, played and stopped at one renderer. It says
what the casts are for and is not translated from the source. -/

namespace HorizonCast.Casting

open Text

/-- Where a session is. `server` is ours, if there is one, and `url` the
renderer's control URL. -/
inductive Stage where
  | idle
  /-- The server is up, the renderer does not know of it yet. -/
  | serving (server : ℕ)
  | loaded (server : Option ℕ) (url : Str)
  | playing (server : Option ℕ) (url : Str)
  /-- The renderer was told to stop, or failed to start: the server is to go. -/
  | closing (server : ℕ)
  deriving DecidableEq, Repr

namespace Stage

/-- What is left of a session when its renderer is done with. -/
def closed : Option ℕ → Stage
  | some server => closing server
  | none => idle

/-- The events of a session, in order; `none` for one that is out of turn. -/
def next : Stage → Event → Option Stage
  | idle, .lookedUp _ => some idle
  | idle, .serverStarted id => some (serving id)
  | idle, .soapAction url .setAvTransportUri ok =>
    some (if ok then loaded none url else idle)
  | serving id, .soapAction url .setAvTransportUri ok =>
    some (if ok then loaded (some id) url else closing id)
  | loaded server url, .soapAction target .play ok =>
    if target = url then some (if ok then playing server url else closed server) else none
  | playing server url, .soapAction target .stop _ =>
    if target = url then some (closed server) else none
  | closing server, .serverStopped id => if id = server then some idle else none
  | _, _ => none

end Stage

/-- The log is one of the protocol, and ends in `stage`. -/
def Conforms (log : List Event) (stage : Stage) : Prop :=
  Transition.run Stage.next .idle log = some stage

/-- What an operation shows, with its reply. -/
def Op.event : (o : Op) → Reply o → Option Event
  | .findDevice id, _ => some (.lookedUp id)
  | .spawnServer, id => some (.serverStarted id)
  | .stopServer id, _ => some (.serverStopped id)
  | .sendSoapAction url action _, reply => some (.soapAction url action reply.isOk)
  | _, _ => none

/-- A session that is playing. -/
def MediaCastSession.stage (session : MediaCastSession) : Stage :=
  .playing (session.server.map (·.id)) session.controlUrl

def LiveMirrorSession.stage (session : LiveMirrorSession) : Stage :=
  .playing (some session.live.id) session.controlUrl

/-- The stage that the background task's `Active` stands for. The pump of a mirror is there,
and one that has left its loop is somewhere in the end of its session. -/
def Active.At (w : World) (stage : Stage) : Active → Prop
  | none => stage = .idle
  | media session => stage = session.stage
  | mirror pump => ∃ task, w.pumps[pump]? = some task ∧
      match task.phase with
      | .pumping => stage = task.session.stage
      | .ending _ => True
      | .ended => stage = .idle

end HorizonCast.Casting
