import HorizonCast.Proofs.CastSteps
import HorizonCast.Spec.SessionProtocol

/-! The functions behind a cast keep to the protocol of a session: each of them
from the stage it is called in, whatever its calls return. -/

namespace HorizonCast.Casting

open Routine Text

/-! ### The rules -/

def stageRules : Discipline Reply Stage := .ofProtocol Op.event Stage.next

/-- Whether an operation is about pumps. -/
def Op.aboutPumps : Op → Bool
  | .spawnPump _ | .signalStop _ | .awaitPump _ => true
  | _ => false

/-- The calls of one task that has the session to itself. -/
def ownRules : Discipline Reply Stage where
  allows stage o := o.aboutPumps = false ∧ stageRules.allows stage o
  after := stageRules.after

/-- The session is in the hands of the background task, or of a pump. -/
inductive Share where
  | own (stage : Stage)
  | lent (pump : ℕ)

/-- Spawning a pump lends the session to it. Nothing is left of it when the pump
was awaited. -/
def shareRules : Discipline Reply Share where
  allows t o :=
    match t, o with
    | .own stage, .spawnPump session => stage = session.stage
    | .own stage, o => ownRules.allows stage o
    | .lent pump, .signalStop p | .lent pump, .awaitPump p => p = pump
    | .lent _, _ => False
  after t o reply :=
    match t, o, reply with
    | .own _, .spawnPump _, pump => .lent pump
    | .own stage, o, reply => .own (ownRules.after stage o reply)
    | .lent _, .awaitPump _, _ => .own .idle
    | .lent pump, _, _ => .lent pump

/-- What a task does by itself, it may do with what it has not lent. -/
theorem follows_share {α : Type} {p : Async α} {post : α → Stage → Prop} {stage : Stage}
    (h : p.Follows ownRules post stage) :
    p.Follows shareRules (fun a t => ∃ stage, t = .own stage ∧ post a stage) (.own stage) := by
  induction p generalizing stage with
  | pure a => exact ⟨stage, rfl, h⟩
  | op o next ih =>
    obtain ⟨⟨hpumps, hallows⟩, hnext⟩ := h
    cases o with
    | spawnPump | signalStop | awaitPump => cases hpumps
    | _ => exact ⟨⟨rfl, hallows⟩, fun r => ih r (hnext r)⟩

/-! ### The calls -/

/-- A call that shows nothing is always in turn. -/
theorem allows_silent {stage : Stage} {o : Op} (hpumps : o.aboutPumps = false)
    (ho : ∀ reply : Reply o, o.event reply = none) : ownRules.allows stage o := by
  refine ⟨hpumps, fun reply e he => ?_⟩
  rw [ho reply] at he
  cases he

theorem allows_lookUp (id : Str) : ownRules.allows .idle (.findDevice id) := by
  refine ⟨rfl, fun reply e he => ?_⟩
  cases he
  rfl

theorem allows_spawn : ownRules.allows .idle .spawnServer := by
  refine ⟨rfl, fun reply e he => ?_⟩
  cases he
  rfl

theorem allows_stopServer (id : ℕ) : ownRules.allows (.closing id) (.stopServer id) := by
  refine ⟨rfl, fun reply e he => ?_⟩
  cases he
  simp [Stage.next]

/-- A session is loaded from the stage with its server, if it has one. -/
def Stage.ready : Option ℕ → Stage
  | some server => .serving server
  | none => .idle

theorem allows_load (server : Option ℕ) (url body : Str) :
    ownRules.allows (.ready server) (.sendSoapAction url .setAvTransportUri body) := by
  refine ⟨rfl, fun reply e he => ?_⟩
  cases he
  cases server <;> rfl

theorem allows_play (server : Option ℕ) (url body : Str) :
    ownRules.allows (.loaded server url) (.sendSoapAction url .play body) := by
  refine ⟨rfl, fun reply e he => ?_⟩
  cases he
  simp [Stage.next]

theorem allows_stop (server : Option ℕ) (url body : Str) :
    ownRules.allows (.playing server url) (.sendSoapAction url .stop body) := by
  refine ⟨rfl, fun reply e he => ?_⟩
  cases he
  simp [Stage.next]

/-! ### What a reply leaves -/

theorem after_load (server : Option ℕ) (url body : Str) (reply : Except Str Str) :
    ownRules.after (.ready server) (.sendSoapAction url .setAvTransportUri body) reply =
      if reply.isOk then .loaded server url else .closed server := by
  cases server <;> cases reply <;> rfl

theorem after_play (server : Option ℕ) (url body : Str) (reply : Except Str Str) :
    ownRules.after (.loaded server url) (.sendSoapAction url .play body) reply =
      if reply.isOk then .playing server url else .closed server := by
  simp [ownRules, stageRules, Discipline.ofProtocol, Op.event, Stage.next]

theorem after_stop (server : Option ℕ) (url body : Str) (reply : Except Str Str) :
    ownRules.after (.playing server url) (.sendSoapAction url .stop body) reply =
      .closed server := by
  simp [ownRules, stageRules, Discipline.ofProtocol, Op.event, Stage.next]

theorem after_stopServer (id : ℕ) (reply : Unit) :
    ownRules.after (.closing id) (.stopServer id) reply = .idle := by
  simp [ownRules, stageRules, Discipline.ofProtocol, Op.event, Stage.next]

/-- A server that is to go is stopped, and nothing is left. -/
theorem follows_stopServer {α : Type} {id : ℕ} {next : Unit → Async α} {post : α → Stage → Prop}
    (h : (next ()).Follows ownRules post .idle) :
    (Routine.op (.stopServer id) next).Follows ownRules post (.closing id) := by
  refine ⟨allows_stopServer id, fun reply => ?_⟩
  rw [after_stopServer]
  exact h

/-- A renderer is told what to play. -/
theorem follows_load {α : Type} {server : Option ℕ} {url body : Str}
    {next : Except Str Str → Async α} {post : α → Stage → Prop}
    (hfailed : ∀ e, (next (.error e)).Follows ownRules post (.closed server))
    (hloaded : ∀ a, (next (.ok a)).Follows ownRules post (.loaded server url)) :
    (Routine.op (.sendSoapAction url .setAvTransportUri body) next).Follows ownRules post
      (.ready server) := by
  refine ⟨allows_load server url body, fun reply => ?_⟩
  rw [after_load]
  cases reply with
  | error e => exact hfailed e
  | ok a => exact hloaded a

/-- The renderer is told to play it. -/
theorem follows_play {α : Type} {server : Option ℕ} {url body : Str}
    {next : Except Str Str → Async α} {post : α → Stage → Prop}
    (hfailed : ∀ e, (next (.error e)).Follows ownRules post (.closed server))
    (hplaying : ∀ a, (next (.ok a)).Follows ownRules post (.playing server url)) :
    (Routine.op (.sendSoapAction url .play body) next).Follows ownRules post
      (.loaded server url) := by
  refine ⟨allows_play server url body, fun reply => ?_⟩
  rw [after_play]
  cases reply with
  | error e => exact hfailed e
  | ok a => exact hplaying a

/-- The renderer is told to stop. -/
theorem follows_stop {α : Type} {server : Option ℕ} {url body : Str}
    {next : Except Str Str → Async α} {post : α → Stage → Prop}
    (h : ∀ reply, (next reply).Follows ownRules post (.closed server)) :
    (Routine.op (.sendSoapAction url .stop body) next).Follows ownRules post
      (.playing server url) := by
  refine ⟨allows_stop server url body, fun reply => ?_⟩
  rw [after_stop]
  exact h reply

/-! ### Starting a session -/

theorem startServer_stages (kind : Str) (localIp : IpAddr) (ext : Str) :
    (startServer kind localIp ext).Follows ownRules
      (Attempt (fun server => .serving server.id) .idle) .idle := by
  rw [startServer, call, perform_bind, follows_op]
  refine ⟨allows_silent rfl fun _ => rfl, fun bound => ?_⟩
  cases bound
  · rfl
  refine ⟨allows_silent rfl fun _ => rfl, fun addr => ?_⟩
  cases addr
  · rfl
  · exact ⟨allows_spawn, fun id => rfl⟩

theorem startMediaServer_stages (media : Str) (localIp : IpAddr) :
    (startMediaServer media localIp).Follows ownRules
      (Attempt (fun server => .serving server.id) .idle) .idle := by
  rw [startMediaServer, call, perform_bind, follows_op]
  refine ⟨allows_silent rfl fun _ => rfl, fun present => ?_⟩
  cases present
  · rfl
  · exact startServer_stages _ localIp _

theorem startPlayback_stages (controlUrl mediaUrl title mime : Str) (server : Option ℕ) :
    (startPlayback controlUrl mediaUrl title mime).Follows ownRules
      (Attempt (fun _ => .playing server controlUrl) (.closed server))
      (.ready server) := by
  apply follows_load
  · intro e
    rfl
  · intro _
    apply follows_play
    · intro e
      rfl
    · intro _
      rfl

theorem castFile_stages (controlUrl : Str) (deviceAddr : IpAddr) (media title : Str) :
    (castFile controlUrl deviceAddr media title).Follows ownRules
      (Attempt (fun session => session.stage) .idle) .idle := by
  rw [castFile, call, perform_bind, follows_op]
  refine ⟨allows_silent rfl fun _ => rfl, fun localIp => ?_⟩
  cases localIp with
  | error e => rfl
  | ok localIp =>
    apply (startMediaServer_stages media localIp).attempt
    · intro server
      apply (startPlayback_stages controlUrl server.url title _ (some server.id)).attempt
      · intro _
        rfl
      · intro e
        exact follows_stopServer rfl
    · intro e
      rfl

theorem castUrl_stages (controlUrl url title : Str) :
    (castUrl controlUrl url title).Follows ownRules
      (Attempt (fun session => session.stage) .idle) .idle := by
  apply (startPlayback_stages controlUrl url title _ none).attempt
  · intro _
    rfl
  · intro e
    rfl

theorem startLiveMirror_stages (controlUrl : Str) (deviceAddr : IpAddr) (title : Str) :
    (startLiveMirror controlUrl deviceAddr title).Follows ownRules
      (Attempt (fun session => session.stage) .idle) .idle := by
  rw [startLiveMirror, call, perform_bind, follows_op]
  refine ⟨allows_silent rfl fun _ => rfl, fun localIp => ?_⟩
  cases localIp with
  | error e => rfl
  | ok localIp =>
    apply (startServer_stages _ localIp _).attempt
    · intro live
      change Routine.Follows ownRules _ _ (.ready (some live.id))
      apply follows_load
      · intro e
        exact follows_stopServer rfl
      · intro _
        apply follows_play
        · intro e
          exact follows_stopServer rfl
        · intro _
          rfl
    · intro e
      rfl

/-! ### Ending a session -/

/-- The session is over. -/
def Over {α : Type} (_ : α) (stage : Stage) : Prop := stage = .idle

theorem mediaStop_stages (session : MediaCastSession) :
    session.stop.Follows ownRules Over session.stage := by
  obtain ⟨controlUrl, mediaUrl, server⟩ := session
  apply follows_stop
  intro result
  cases server with
  | none => rfl
  | some server => exact follows_stopServer rfl

theorem liveStop_stages (session : LiveMirrorSession) :
    session.stop.Follows ownRules Over session.stage := by
  apply follows_stop
  intro result
  exact follows_stopServer rfl

/-! ### The background task -/

/-- Whose session `active` is. -/
def Active.share : Active → Share
  | none => .own .idle
  | media session => .own session.stage
  | mirror pump => .lent pump

/-- The session is where `active` has it. -/
def Leaves (active : Active) (t : Share) : Prop := t = active.share

theorem failed_stages : failed.Follows shareRules Leaves (.own .idle) :=
  ⟨allows_silent rfl fun _ => rfl, fun _ => rfl⟩

theorem controlUrl_stages (device : Device) : (controlUrl device).Follows ownRules Over .idle := by
  rw [controlUrl]
  cases device.dlnaControlUrl with
  | some url => rfl
  | none =>
    cases device.dlnaLocation with
    | none => rfl
    | some location =>
      refine ⟨allows_silent rfl fun _ => rfl, fun resolved => ?_⟩
      cases resolved
      · rfl
      · rfl

theorem startOn_stages (id : Str) {start : Device → Str → Async Active}
    (hstart : ∀ device control, (start device control).Follows shareRules Leaves (.own .idle)) :
    (startOn id start).Follows shareRules Leaves (.own .idle) := by
  rw [startOn, call, perform_bind, follows_op]
  refine ⟨allows_lookUp id, fun found => ?_⟩
  cases found with
  | none => exact failed_stages
  | some device =>
    apply (follows_share (controlUrl_stages device)).bind
    rintro (_ | control) _ ⟨_, rfl, rfl⟩
    · exact failed_stages
    · exact hstart device control

/-- A session that is started is `Active`'s, or there is none. -/
theorem started_stages {α : Type} {p : Async (Except Str α)} {stage : α → Stage}
    {next : Except Str α → Async Active} (h : p.Follows ownRules (Attempt stage .idle) .idle)
    (hok : ∀ a, (next (.ok a)).Follows shareRules Leaves (.own (stage a)))
    (hfailed : ∀ e, (next (.error e)).Follows shareRules Leaves (.own .idle)) :
    (p >>= next).Follows shareRules Leaves (.own .idle) := by
  apply (follows_share h).bind
  rintro result _ ⟨stage, rfl, hstage⟩
  cases result with
  | ok a => exact hstage ▸ hok a
  | error e => exact hstage ▸ hfailed e

theorem startMedia_stages (id : Str) (source : MediaSource) :
    (startMedia id source).Follows shareRules Leaves (.own .idle) := by
  apply startOn_stages
  intro device control
  have hsource : (castSource device control source).Follows ownRules
      (Attempt (fun session => session.stage) .idle) .idle := by
    cases source with
    | file path => exact castFile_stages control device.address path _
    | url url => exact castUrl_stages control url device.name
  apply started_stages hsource
  · intro session
    rfl
  · intro e
    exact failed_stages

theorem startMirror_stages (id : Str) (fps bitrateKbps : ℕ) :
    (startMirror id fps bitrateKbps).Follows shareRules Leaves (.own .idle) := by
  apply startOn_stages
  intro device control
  apply started_stages (startLiveMirror_stages control device.address _)
  · intro session
    exact ⟨allows_silent rfl fun _ => rfl, fun _ => ⟨rfl, fun pump => rfl⟩⟩
  · intro e
    exact failed_stages

theorem startCmd_stages (cmd : Cmd) :
    (startCmd cmd).Follows shareRules Leaves (.own .idle) := by
  cases cmd with
  | castFile id path => exact startMedia_stages id _
  | castUrl id url => exact startMedia_stages id _
  | mirror id fps bitrateKbps => exact startMirror_stages id fps bitrateKbps
  | stop => rfl

/-- The background task has nothing left. -/
def NothingLeft (_ : Unit) (t : Share) : Prop := t = .own .idle

theorem teardown_stages (active : Active) :
    (teardown active).Follows shareRules NothingLeft active.share := by
  cases active with
  | none => rfl
  | media session =>
    apply (follows_share (mediaStop_stages session)).bind
    rintro _ _ ⟨_, rfl, rfl⟩
    rfl
  | mirror pump =>
    exact ⟨rfl, fun _ => ⟨rfl, fun _ => ⟨allows_silent rfl fun _ => rfl, fun _ => rfl⟩⟩⟩

theorem finish_stages (active : Active) :
    (finish active).Follows shareRules NothingLeft active.share := by
  apply (teardown_stages active).bind
  rintro _ _ rfl
  exact ⟨allows_silent rfl fun _ => rfl, fun _ => rfl⟩

theorem endPump_stages (session : LiveMirrorSession) (captureEnded : Bool) :
    (endPump session captureEnded).Follows ownRules Over session.stage := by
  have hstop : (do let _ ← session.stop : Async Unit).Follows ownRules Over session.stage :=
    (liveStop_stages session).bind fun _ _ h => h
  cases captureEnded with
  | false => exact hstop
  | true => exact ⟨allows_silent rfl fun _ => rfl, fun _ => hstop⟩

end HorizonCast.Casting
