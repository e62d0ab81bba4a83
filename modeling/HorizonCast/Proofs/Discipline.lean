import HorizonCast.Spec.Casting

/-! What the functions behind a cast may do with what they hold. A `Token` is
what the background task holds: a server, a renderer told to play, or the handle
of a pump that holds both. Every function of the source follows the discipline,
whatever its calls return. -/

namespace HorizonCast.Casting

open Routine Text

/-- The server and the playback that a task answers for. -/
structure Hold where
  server : Option ℕ
  playing : Option Str
  deriving DecidableEq

def Hold.free : Hold := ⟨none, none⟩

/-- The discipline of the calls about servers and renderers: one server at a
time, and it is the held one that is stopped; one playback at a time, and it is
at the held renderer that it is stopped; no look-up while anything is held. -/
def sessionRules : Discipline Reply Hold where
  allows h o :=
    match o with
    | .findDevice _ => h = .free
    | .spawnServer => h.server = none
    | .stopServer id => h.server = some id
    | .sendSoapAction _ .play _ => h.playing = none
    | .sendSoapAction url .stop _ => h.playing = some url
    | .spawnPump _ | .signalStop _ | .awaitPump _ => False
    | _ => True
  after h o reply :=
    match o, reply with
    | .spawnServer, id => { h with server := some id }
    | .stopServer _, _ => { h with server := none }
    | .sendSoapAction url .play _, .ok _ => { h with playing := some url }
    | .sendSoapAction _ .stop _, _ => { h with playing := none }
    | _, _ => h

/-- What the background task holds. -/
inductive Token where
  | hold (h : Hold)
  | mirror (pump : ℕ)

/-- A live session. -/
def LiveMirrorSession.hold (session : LiveMirrorSession) : Hold :=
  ⟨some session.live.id, some session.controlUrl⟩

/-- Spawning a pump moves the session into it; it has ended when it was awaited. -/
def taskRules : Discipline Reply Token where
  allows t o :=
    match t, o with
    | .hold h, .spawnPump session => h = session.hold
    | .hold h, o => sessionRules.allows h o
    | .mirror pump, .signalStop p | .mirror pump, .awaitPump p => p = pump
    | .mirror _, _ => False
  after t o reply :=
    match t, o, reply with
    | .hold _, .spawnPump _, pump => .mirror pump
    | .hold h, o, reply => .hold (sessionRules.after h o reply)
    | .mirror _, .awaitPump _, _ => .hold .free
    | .mirror pump, _, _ => .mirror pump

/-- A pump has a server until its end. -/
def pumpRules : Discipline Reply Hold where
  allows h o := h.server ≠ none ∧ sessionRules.allows h o
  after := sessionRules.after

/-! ### Starting a server or a playback -/

/-- The outcomes of starting a server. -/
def ServerStarted : Except Str Server → Token → Prop :=
  Attempt (fun server => .hold ⟨some server.id, none⟩) (.hold .free)

theorem startServer_follows (kind : Str) (localIp : IpAddr) (ext : Str) :
    (startServer kind localIp ext).Follows taskRules ServerStarted (.hold .free) := by
  rw [startServer, call, perform_bind, follows_op]
  refine ⟨trivial, fun bound => ?_⟩
  cases bound
  · rfl
  refine ⟨trivial, fun addr => ?_⟩
  cases addr
  · rfl
  · exact ⟨rfl, fun id => rfl⟩

theorem startMediaServer_follows (media : Str) (localIp : IpAddr) :
    (startMediaServer media localIp).Follows taskRules ServerStarted (.hold .free) := by
  rw [startMediaServer, call, perform_bind, follows_op]
  refine ⟨trivial, fun present => ?_⟩
  cases present
  · rfl
  · exact startServer_follows _ localIp _

theorem startPlayback_follows (controlUrl mediaUrl title mime : Str) (server : Option ℕ) :
    (startPlayback controlUrl mediaUrl title mime).Follows taskRules
      (Attempt (fun _ => .hold ⟨server, some controlUrl⟩) (.hold ⟨server, none⟩))
      (.hold ⟨server, none⟩) := by
  rw [startPlayback, call, perform_bind, follows_op]
  refine ⟨trivial, fun set => ?_⟩
  cases set
  · rfl
  refine ⟨rfl, fun play => ?_⟩
  cases play
  · rfl
  · rfl

/-! ### Starting a session -/

/-- What a media session holds. -/
def MediaCastSession.hold (session : MediaCastSession) : Hold :=
  ⟨session.server.map (·.id), some session.controlUrl⟩

theorem castFile_follows (controlUrl : Str) (deviceAddr : IpAddr) (media title : Str) :
    (castFile controlUrl deviceAddr media title).Follows taskRules
      (Attempt (fun session => .hold session.hold) (.hold .free)) (.hold .free) := by
  rw [castFile, call, perform_bind, follows_op]
  refine ⟨trivial, fun localIp => ?_⟩
  cases localIp with
  | error e => rfl
  | ok localIp =>
    apply (startMediaServer_follows media localIp).attempt
    · intro server
      apply (startPlayback_follows controlUrl server.url title _ (some server.id)).attempt
      · intro _
        rfl
      -- the server is up when the playback fails
      · intro e
        exact ⟨rfl, fun _ => rfl⟩
    · intro e
      rfl

theorem castUrl_follows (controlUrl url title : Str) :
    (castUrl controlUrl url title).Follows taskRules
      (Attempt (fun session => .hold session.hold) (.hold .free)) (.hold .free) := by
  apply (startPlayback_follows controlUrl url title _ none).attempt
  · intro _
    rfl
  · intro e
    rfl

theorem startLiveMirror_follows (controlUrl : Str) (deviceAddr : IpAddr) (title : Str) :
    (startLiveMirror controlUrl deviceAddr title).Follows taskRules
      (Attempt (fun session => .hold session.hold) (.hold .free)) (.hold .free) := by
  rw [startLiveMirror, call, perform_bind, follows_op]
  refine ⟨trivial, fun localIp => ?_⟩
  cases localIp with
  | error e => rfl
  | ok localIp =>
    apply (startServer_follows _ localIp _).attempt
    · intro live
      refine ⟨trivial, fun set => ?_⟩
      cases set with
      | error e => exact ⟨rfl, fun _ => rfl⟩
      | ok _ =>
        refine ⟨rfl, fun play => ?_⟩
        cases play with
        | error e => exact ⟨rfl, fun _ => rfl⟩
        | ok _ => rfl
    · intro e
      rfl

/-! ### The background task -/

/-- What the background task holds when `active` is all it has. -/
def Active.token : Active → Token
  | none => .hold .free
  | media session => .hold session.hold
  | mirror pump => .mirror pump

/-- `Active` is all the task has. -/
def Left (active : Active) (t : Token) : Prop := t = active.token

theorem failed_follows : failed.Follows taskRules Left (.hold .free) := ⟨trivial, fun _ => rfl⟩

theorem controlUrl_follows (device : Device) (t : Hold) :
    (controlUrl device).Follows taskRules (fun _ t' => t' = .hold t) (.hold t) := by
  rw [controlUrl]
  cases device.dlnaControlUrl with
  | some url => rfl
  | none =>
    cases device.dlnaLocation with
    | none => rfl
    | some location =>
      refine ⟨trivial, fun resolved => ?_⟩
      cases resolved
      · rfl
      · rfl

theorem startOn_follows (id : Str) {start : Device → Str → Async Active}
    (hstart : ∀ device control, (start device control).Follows taskRules Left (.hold .free)) :
    (startOn id start).Follows taskRules Left (.hold .free) := by
  rw [startOn, call, perform_bind, follows_op]
  refine ⟨rfl, fun found => ?_⟩
  cases found with
  | none => exact failed_follows
  | some device =>
    apply (controlUrl_follows device .free).bind
    rintro (_ | control) _ rfl
    · exact failed_follows
    · exact hstart device control

theorem castSource_follows (device : Device) (control : Str) (source : MediaSource) :
    (castSource device control source).Follows taskRules
      (Attempt (fun session => .hold session.hold) (.hold .free)) (.hold .free) := by
  cases source with
  | file path => exact castFile_follows control device.address path _
  | url url => exact castUrl_follows control url device.name

theorem startMedia_follows (id : Str) (source : MediaSource) :
    (startMedia id source).Follows taskRules Left (.hold .free) := by
  apply startOn_follows
  intro device control
  apply (castSource_follows device control source).attempt
  · intro session
    rfl
  · intro e
    exact failed_follows

theorem startMirror_follows (id : Str) (fps bitrateKbps : ℕ) :
    (startMirror id fps bitrateKbps).Follows taskRules Left (.hold .free) := by
  apply startOn_follows
  intro device control
  apply (startLiveMirror_follows control device.address _).attempt
  · intro session
    exact ⟨trivial, fun _ => ⟨rfl, fun pump => rfl⟩⟩
  · intro e
    exact failed_follows

theorem startCmd_follows (cmd : Cmd) : (startCmd cmd).Follows taskRules Left (.hold .free) := by
  cases cmd with
  | castFile id path => exact startMedia_follows id _
  | castUrl id url => exact startMedia_follows id _
  | mirror id fps bitrateKbps => exact startMirror_follows id fps bitrateKbps
  | stop => rfl

/-- Nothing is left. -/
def NoneLeft (_ : Unit) (t : Token) : Prop := t = .hold .free

theorem teardown_follows (active : Active) :
    (teardown active).Follows taskRules NoneLeft active.token := by
  cases active with
  | none => rfl
  | media session =>
    obtain ⟨controlUrl, mediaUrl, server⟩ := session
    refine ⟨rfl, fun result => ?_⟩
    -- the server is stopped whatever the renderer answered
    cases server with
    | none => rfl
    | some server => exact ⟨rfl, fun _ => rfl⟩
  | mirror pump => exact ⟨rfl, fun _ => ⟨rfl, fun _ => ⟨trivial, fun _ => rfl⟩⟩⟩

theorem finish_follows (active : Active) :
    (finish active).Follows taskRules NoneLeft active.token := by
  apply (teardown_follows active).bind
  rintro _ _ rfl
  exact ⟨trivial, fun _ => rfl⟩

theorem endPump_follows (session : LiveMirrorSession) (captureEnded : Bool) :
    (endPump session captureEnded).Follows pumpRules (fun _ h => h = .free) session.hold := by
  have hstop : (do let _ ← session.stop : Async Unit).Follows pumpRules
      (fun _ h => h = .free) session.hold :=
    ⟨⟨nofun, rfl⟩, fun _ => ⟨⟨nofun, rfl⟩, fun _ => rfl⟩⟩
  cases captureEnded with
  | false => exact hstop
  | true => exact ⟨⟨nofun, trivial⟩, fun _ => hstop⟩

end HorizonCast.Casting
