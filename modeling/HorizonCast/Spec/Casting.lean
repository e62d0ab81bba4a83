import HorizonCast.Lib.Leases
import HorizonCast.Lib.Routine
import HorizonCast.Spec.App
import HorizonCast.Spec.Soap

/-! The casts behind the window (`hc-app/src/main.rs`, `hc-sink/src/dlna.rs`, and
the starts of the servers in `hc-net`): every call that the background loop and
the mirror pumps await, with each of its outcomes. An async function is a
`Routine` of these calls; one step of the system performs one of them. An error
is its text. -/

namespace HorizonCast.Casting

open Text

/-! ### Operations -/

/-- A running `MediaServer` or `LiveStream`: its URL, and the serve task by number. -/
structure Server where
  url : Str
  id : ℕ
  deriving DecidableEq, Repr

/-- An active media-cast session. -/
structure MediaCastSession where
  controlUrl : Str
  mediaUrl : Str
  /-- `some` when we host the media ourselves (local file); `none` for an external URL. -/
  server : Option Server
  deriving DecidableEq, Repr

/-- An active live screen-mirror session. -/
structure LiveMirrorSession where
  controlUrl : Str
  live : Server
  deriving DecidableEq, Repr

inductive SoapAction where
  | setAvTransportUri
  | play
  | stop
  deriving DecidableEq, Repr

/-- What the background loop and the pumps do or await. -/
inductive Op where
  | findDevice (id : Str)
  | resolveControlUrl (location : Str)
  | localIpFor (target : IpAddr)
  -- the starts of the servers
  | tryExists (path : Str)
  | bind
  | localAddr
  | spawnServer
  | stopServer (id : ℕ)
  | sendSoapAction (controlUrl : Str) (action : SoapAction) (body : Str)
  | clearCasting
  -- the tasks of a mirror
  | spawnCapture (fps : ℕ) (bitrateKbps : ℕ)
  | spawnPump (session : LiveMirrorSession)
  | signalStop (pump : ℕ)
  | awaitPump (pump : ℕ)
  | awaitCapture
  | stopDiscovery
  deriving DecidableEq, Repr

/-- What an operation returns. A spawned task is a number. -/
@[reducible] def Reply : Op → Type
  | .findDevice _ => Option Device
  | .resolveControlUrl _ => Except Str (Option Str)
  | .localIpFor _ => Except Str IpAddr
  | .tryExists _ => Bool
  | .bind => Except Str Unit
  | .localAddr => Except Str UInt16
  | .sendSoapAction _ _ _ => Except Str Str
  | .spawnServer | .spawnPump _ => ℕ
  | .stopServer _ | .clearCasting | .spawnCapture _ _ | .signalStop _ | .awaitPump _
  | .awaitCapture | .stopDiscovery => Unit

abbrev Async := Routine Reply

def call (o : Op) : Async (Reply o) := Routine.perform o

/-! ### The servers -/

/-- `http://{local_ip}:{port}/{name}.{ext}`. -/
def serverUrl (localIp : IpAddr) (port : UInt16) (name ext : Str) : Str :=
  "http://".toList ++ localIp.toText ++ ':' :: decimal port.toNat ++ '/' :: name ++ '.' :: ext

/-- Bind a listener and spawn the serve task, with `kind` in the URL and the
texts of errors. -/
def startServer (kind : Str) (localIp : IpAddr) (ext : Str) : Async (Except Str Server) := do
  match ← call .bind with
  | .error e => return .error (kind ++ " server bind failed: ".toList ++ e)
  | .ok _ =>
    match ← call .localAddr with
    | .error e => return .error (kind ++ " server addr failed: ".toList ++ e)
    | .ok port =>
      let id ← call .spawnServer
      return .ok { url := serverUrl localIp port kind ext, id }

/-- `MediaServer::start`. -/
def startMediaServer (media : Str) (localIp : IpAddr) : Async (Except Str Server) := do
  if !(← call (.tryExists media)) then
    return .error ("media file not found: ".toList ++ media)
  let ext := ((extension media).getD "bin".toList).map Char.toLower
  startServer "media".toList localIp ext

/-- `LiveStream::start`. -/
def startLiveStream (localIp : IpAddr) (ext : Str) : Async (Except Str Server) :=
  startServer "live".toList localIp ext

/-! ### Sessions -/

/-- Best-effort MIME from a URL's path extension (query/fragment stripped). -/
def mimeForUrl (url : Str) : Str := contentTypeFor (url.takeWhile fun c => c ≠ '?' ∧ c ≠ '#')

/-- Issue `SetAVTransportURI` then `Play` for `mediaUrl` on the renderer. -/
def startPlayback (controlUrl mediaUrl title mime : Str) : Async (Except Str Unit) := do
  let didl := didlLiteVideo title mediaUrl mime
  let setBody := buildSetAvTransportUri mediaUrl didl
  match ← call (.sendSoapAction controlUrl .setAvTransportUri setBody) with
  | .error e => return .error e
  | .ok _ =>
    match ← call (.sendSoapAction controlUrl .play buildPlay) with
    | .error e => return .error e
    | .ok _ => return .ok ()

/-- Cast a local media file to a DLNA renderer. -/
def castFile (controlUrl : Str) (deviceAddr : IpAddr) (media title : Str) :
    Async (Except Str MediaCastSession) := do
  match ← call (.localIpFor deviceAddr) with
  | .error e => return .error e
  | .ok localIp =>
    match ← startMediaServer media localIp with
    | .error e => return .error e
    | .ok server =>
      match ← startPlayback controlUrl server.url title (contentTypeFor media) with
      | .error e =>
        call (.stopServer server.id)
        return .error e
      | .ok _ => return .ok { controlUrl, mediaUrl := server.url, server := some server }

/-- Cast a media URL the renderer can already reach: no server is started. -/
def castUrl (controlUrl url title : Str) : Async (Except Str MediaCastSession) := do
  match ← startPlayback controlUrl url title (mimeForUrl url) with
  | .error e => return .error e
  | .ok _ => return .ok { controlUrl, mediaUrl := url, server := none }

/-- Tell the renderer to `Stop`, then shut down the local media server if any. -/
def MediaCastSession.stop (session : MediaCastSession) : Async (Except Str Unit) := do
  let result ← call (.sendSoapAction session.controlUrl .stop buildStop)
  match session.server with
  | some server => call (.stopServer server.id)
  | none => pure ()
  return result.map fun _ => ()

/-- `LiveMirrorSession::start`. -/
def startLiveMirror (controlUrl : Str) (deviceAddr : IpAddr) (title : Str) :
    Async (Except Str LiveMirrorSession) := do
  match ← call (.localIpFor deviceAddr) with
  | .error e => return .error e
  | .ok localIp =>
    match ← startLiveStream localIp "ts".toList with
    | .error e => return .error e
    | .ok live =>
      let didl := didlLiteLiveVideo title live.url "video/mp2t".toList
      let setBody := buildSetAvTransportUri live.url didl
      match ← call (.sendSoapAction controlUrl .setAvTransportUri setBody) with
      | .error e =>
        call (.stopServer live.id)
        return .error e
      | .ok _ =>
        match ← call (.sendSoapAction controlUrl .play buildPlay) with
        | .error e =>
          call (.stopServer live.id)
          return .error e
        | .ok _ => return .ok { controlUrl, live }

/-- Stop playback on the renderer and shut the live stream down. -/
def LiveMirrorSession.stop (session : LiveMirrorSession) : Async (Except Str Unit) := do
  let result ← call (.sendSoapAction session.controlUrl .stop buildStop)
  call (.stopServer session.live.id)
  return result.map fun _ => ()

/-! ### The background loop's functions -/

/-- Whatever is currently casting. The live session of a mirror is the pump's. -/
inductive Active where
  | none
  | media (session : MediaCastSession)
  | mirror (pump : ℕ)
  deriving DecidableEq, Repr

/-- What a media-cast plays. -/
inductive MediaSource where
  | file (path : Str)
  | url (url : Str)
  deriving DecidableEq, Repr

/-- Resolve a device's DLNA control URL (recovering from its description if needed). -/
def controlUrl (device : Device) : Async (Option Str) := do
  match device.dlnaControlUrl with
  | some url => return some url
  | none =>
    match device.dlnaLocation with
    | none => return none
    | some location =>
      match ← call (.resolveControlUrl location) with
      | .error _ => return none
      | .ok url => return url

/-- Tear down whatever is currently active, awaiting a clean stop. -/
def teardown (active : Active) : Async Unit := do
  match active with
  | .none => return ()
  | .media session =>
    let _ ← session.stop
  | .mirror pump =>
    call (.signalStop pump)
    call (.awaitPump pump)
    call .awaitCapture

/-- `cast_file` or `cast_url`. -/
def castSource (device : Device) (control : Str) (source : MediaSource) :
    Async (Except Str MediaCastSession) :=
  match source with
  | .file path => castFile control device.address path ((fileStem path).getD "HorizonCast".toList)
  | .url url => castUrl control url device.name

/-- Reset the UI and return `Active::None`: the end of every failed start. -/
def failed : Async Active := do
  call .clearCasting
  return .none

/-- Look the device up and resolve its control URL, then `start` on it. -/
def startOn (id : Str) (start : Device → Str → Async Active) : Async Active := do
  match ← call (.findDevice id) with
  | none => failed
  | some device =>
    match ← controlUrl device with
    | none => failed
    | some control => start device control

/-- Start a file/URL media-cast; returns the resulting `Active`. -/
def startMedia (id : Str) (source : MediaSource) : Async Active :=
  startOn id fun device control => do
    match ← castSource device control source with
    | .error _ => failed
    | .ok session => return .media session

/-- Start a live screen mirror. -/
def startMirror (id : Str) (fps bitrateKbps : ℕ) : Async Active :=
  startOn id fun device control => do
    match ← startLiveMirror control device.address "HorizonCast".toList with
    | .error _ => failed
    | .ok session =>
      call (.spawnCapture fps bitrateKbps)
      let pump ← call (.spawnPump session)
      return .mirror pump

/-- What a command starts once the previous session is torn down. -/
def startCmd : Cmd → Async Active
  | .castFile id path => startMedia id (.file path)
  | .castUrl id url => startMedia id (.url url)
  | .mirror id fps bitrateKbps => startMirror id fps bitrateKbps
  | .stop => return .none

/-- The end of the background task, after its loop. -/
def finish (active : Active) : Async Unit := do
  teardown active
  call .stopDiscovery

/-- What is left of a pump after its loop, which the stop signal or the end of
the capture ends. -/
def endPump (session : LiveMirrorSession) (captureEnded : Bool) : Async Unit := do
  if captureEnded then call .clearCasting
  let _ ← session.stop

/-! ### What happened -/

inductive Event where
  | lookedUp (id : Str)
  | serverStarted (id : ℕ)
  | serverStopped (id : ℕ)
  | soapAction (controlUrl : Str) (action : SoapAction) (ok : Bool)
  deriving DecidableEq, Repr

/-- Servers are leased. Every start of a cast begins by looking its device up,
which is to happen while no server is running. -/
def Event.mark : Event → Leases.Mark ℕ
  | lookedUp _ => .barrier
  | serverStarted id => .acquire id
  | serverStopped id => .release id
  | soapAction _ _ _ => .other

def started (log : List Event) : List ℕ := Leases.acquired Event.mark log

def stopped (log : List Event) : List ℕ := Leases.released Event.mark log

/-- The servers started and not stopped. -/
def running (log : List Event) : List ℕ := Leases.held Event.mark log

/-- The renderers (by control URL) that were told to play, with success, and for
which no `Stop` was attempted since. -/
def playing (log : List Event) : List Str :=
  log.foldl (fun urls e =>
    match e with
    | .soapAction url .play true => urls ++ [url]
    | .soapAction url .stop _ => urls.filter (· ≠ url)
    | _ => urls) []

/-! ### The system -/

/-- A pump task: in its loop, in what follows the loop, or finished. -/
inductive PumpPhase where
  | pumping
  | ending (rest : Async Unit)
  | ended

structure PumpTask where
  session : LiveMirrorSession
  stopSent : Bool := false
  phase : PumpPhase := .pumping

def PumpPhase.hasEnded : PumpPhase → Bool
  | .ended => true
  | _ => false

/-- A task with nothing left to await has finished. -/
def PumpPhase.ofRest : Async Unit → PumpPhase
  | .pure _ => .ended
  | rest => .ending rest

/-- What the tasks of the runtime share: the devices last discovered, the pump
tasks spawned so far, and what happened. -/
structure World where
  snapshot : List Device := []
  pumps : List PumpTask := []
  log : List Event := []

namespace World

def record (w : World) (e : Event) : World := { w with log := w.log ++ [e] }

def setPump (w : World) (pump : ℕ) (f : PumpTask → PumpTask) : World :=
  { w with pumps := w.pumps.modify pump f }

/-- What an operation returns and does, when `reply` is what the environment
answers; `none` while it has to be awaited. Shutting a server down is taken to
return, as is waiting for a capture. -/
def exec (w : World) : (o : Op) → Reply o → Option (Reply o × World)
  | .findDevice id, _ => some (findDevice w.snapshot id, w.record (.lookedUp id))
  | .spawnServer, _ =>
    some ((started w.log).length, w.record (.serverStarted (started w.log).length))
  | .stopServer id, reply => some (reply, w.record (.serverStopped id))
  | .sendSoapAction url action _, reply =>
    some (reply, w.record (.soapAction url action reply.isOk))
  | .spawnPump session, _ => some (w.pumps.length, { w with pumps := w.pumps ++ [{ session }] })
  | .signalStop pump, reply => some (reply, w.setPump pump ({ · with stopSent := true }))
  | .awaitPump pump, reply =>
    if w.pumps[pump]?.all (·.phase.hasEnded) then some (reply, w) else none
  | _, reply => some (reply, w)

end World

/-- The background task: in `select!` with what is active, or awaiting a call in
the teardown before a command, in the start it asks for, or after the loop. -/
inductive Loop where
  | idle (active : Active)
  | tearingDown (rest : Async Unit) (cmd : Cmd)
  | starting (rest : Async Active)
  | finishing (rest : Async Unit)
  | done

namespace Loop

def ofStart : Async Active → Loop
  | .pure active => idle active
  | rest => starting rest

def ofTeardown (rest : Async Unit) (cmd : Cmd) : Loop :=
  match rest with
  | .pure _ => ofStart (startCmd cmd)
  | rest => tearingDown rest cmd

def ofFinish : Async Unit → Loop
  | .pure _ => done
  | rest => finishing rest

end Loop

/-- The window: shown, `app.run()` returned, the senders of the UI callbacks
dropped as `main` returns, the process exited. -/
inductive Window where
  | shown
  | closed
  | returned
  | exited
  deriving DecidableEq, Repr

structure System where
  window : Window := .shown
  commands : List Cmd := []
  loop : Loop := .idle .none
  world : World := {}

/-- What the environment answers to each operation. -/
abbrev Answers := (o : Op) → Reply o

/-- An environment in which every call succeeds. -/
def allSucceed : Answers
  | .findDevice _ => none
  | .resolveControlUrl _ => .ok none
  | .localIpFor target => .ok target
  | .tryExists _ => true
  | .bind => .ok ()
  | .localAddr => .ok 8200
  | .sendSoapAction _ _ _ => .ok []
  | .spawnServer | .spawnPump _ => 0
  | .stopServer _ | .clearCasting | .spawnCapture _ _ | .signalStop _ | .awaitPump _
  | .awaitCapture | .stopDiscovery => ()

inductive Action where
  -- the UI thread
  | send (cmd : Cmd)
  | close
  | dropSenders
  | exit
  -- the background task
  | update (devices : List Device)
  | discoveryEnds
  | receive
  | channelClosed
  | background (answers : Answers)
  -- a pump task
  | stopSignal (pump : ℕ)
  | captureEnds (pump : ℕ)
  | pump (pump : ℕ) (answers : Answers)

namespace System

/-- The next call of the background task. -/
def background (s : System) (answers : Answers) : Option System :=
  match s.loop with
  | .tearingDown (.op o next) cmd =>
    (s.world.exec o (answers o)).map fun (reply, world) =>
      { s with world, loop := .ofTeardown (next reply) cmd }
  | .starting (.op o next) =>
    (s.world.exec o (answers o)).map fun (reply, world) =>
      { s with world, loop := .ofStart (next reply) }
  | .finishing (.op o next) =>
    (s.world.exec o (answers o)).map fun (reply, world) =>
      { s with world, loop := .ofFinish (next reply) }
  | _ => none

/-- Move a pump on to what is left of it. -/
def toPhase (s : System) (pump : ℕ) (world : World) (rest : Async Unit) : System :=
  { s with world := world.setPump pump ({ · with phase := .ofRest rest }) }

/-- A step of a pump task: out of its loop, or the next call after it. -/
def pump (s : System) (pump : ℕ) (task : PumpTask) : Action → Option System
  | .stopSignal _ =>
    match task.phase with
    | .pumping =>
      if task.stopSent then some (s.toPhase pump s.world (endPump task.session false)) else none
    | _ => none
  | .captureEnds _ =>
    match task.phase with
    | .pumping => some (s.toPhase pump s.world (endPump task.session true))
    | _ => none
  | .pump _ answers =>
    match task.phase with
    | .ending (.op o next) =>
      (s.world.exec o (answers o)).map fun (reply, world) => s.toPhase pump world (next reply)
    | _ => none
  | _ => none

def step (s : System) (a : Action) : Option System :=
  if s.window = .exited then none
  else
    match a with
    | .send cmd =>
      if s.window = .shown then some { s with commands := s.commands ++ [cmd] } else none
    | .close => if s.window = .shown then some { s with window := .closed } else none
    | .dropSenders => if s.window = .closed then some { s with window := .returned } else none
    | .exit => if s.window = .returned then some { s with window := .exited } else none
    | .update devices =>
      match s.loop with
      | .idle _ => some { s with world := { s.world with snapshot := devices } }
      | _ => none
    | .discoveryEnds =>
      match s.loop with
      | .idle active => some { s with loop := .ofFinish (finish active) }
      | _ => none
    | .receive =>
      match s.loop, s.commands with
      | .idle active, cmd :: rest =>
        some { s with commands := rest, loop := .ofTeardown (teardown active) cmd }
      | _, _ => none
    | .channelClosed =>
      match s.loop, s.commands with
      | .idle active, [] =>
        if s.window = .returned then some { s with loop := .ofFinish (finish active) } else none
      | _, _ => none
    | .background answers => s.background answers
    | .stopSignal pump | .captureEnds pump | .pump pump _ =>
      s.world.pumps[pump]?.bind fun task => s.pump pump task a

end System

/-- A run in which `cmd` is received and its first calls succeed. -/
def castRun (cmd : Cmd) (calls : ℕ) : List Action :=
  [.update [sampleDevice "tv".toList], .send cmd, .receive] ++
    List.replicate calls (.background allSucceed)

/-- A run in which a renderer is told to play a link. -/
def castLink : List Action := castRun (.castUrl "tv".toList "http://a.test/b.mp4".toList) 3

/-- A run in which a renderer is told to play a local file. -/
def castLocal : List Action := castRun (.castFile "tv".toList "/b.mp4".toList) 8

end HorizonCast.Casting
