import HorizonCast.Spec.SessionProtocol

/-! The headless harness (`hc-cli/src/main.rs`): casting to a device that is
named on the command line, until Ctrl-C. Its async functions are routines of the
calls of a cast and of its own. The loop of `run_mirror` that feeds the session is
one operation here, see `HorizonCast.Spec.Pipeline`. -/

namespace HorizonCast.Cli

open Text

/-- What the harness does or awaits. -/
inductive Op where
  | call (o : Casting.Op)
  | isFile (path : Str)
  | discoverFor (secs : ℕ)
  | ctrlC
  /-- The loop over Ctrl-C and the units of the capture. -/
  | feed (session : Casting.LiveMirrorSession)
  | dropReceiver
  | println (line : Str)
  | eprintln (line : Str)
  deriving DecidableEq, Repr

/-- What an operation returns. `feed` tells whether the capture ended by itself. -/
@[reducible] def Reply : Op → Type
  | .call o => Casting.Reply o
  | .isFile _ | .feed _ => Bool
  | .discoverFor _ => List Device
  | .ctrlC | .dropReceiver | .println _ | .eprintln _ => Unit

abbrev Async := Routine Reply

def perform (o : Op) : Async (Reply o) := Routine.perform o

/-- Await a function of the other crates. -/
def await {α : Type} (p : Casting.Async α) : Async α := p.lift .call fun _ reply => reply

def println (line : Str) : Async Unit := perform (.println line)

def eprintln (line : Str) : Async Unit := perform (.eprintln line)

/-- Match a device by its id, exact name (case-insensitive), or IP address string. -/
def findDevice (devices : List Device) (needle : Str) : Option Device :=
  devices.find? fun d =>
    d.id = needle || d.address.toText = needle || eqIgnoreAsciiCase d.name needle

/-- Derive a display title from a file path or URL: last path segment, without extension. -/
def mediaTitle (media : Str) : Str :=
  let path := media.takeWhile fun c => c ≠ '?' ∧ c ≠ '#'
  let last := path.rtakeWhile fun c => c ≠ '/' ∧ c ≠ '\\'
  let stem :=
    if '.' ∈ last then (last.rdropWhile (· ≠ '.')).dropLast else last
  if stem.isEmpty then "HorizonCast".toList else stem

/-- Get the device's DLNA control URL, recovering it from the description document if
discovery didn't already resolve one. -/
def resolveDlnaControlUrl (dev : Device) : Async (Option Str) := do
  match dev.dlnaControlUrl with
  | some url => return some url
  | none =>
    match dev.dlnaLocation with
    | none => return none
    | some location =>
      match ← perform (.call (.resolveControlUrl location)) with
      | .ok url => return url
      | .error _ => return none

/-- `if let Err(e)` of the session's `stop`. -/
def reportStop : Except Str Unit → Async Unit
  | .ok _ => return ()
  | .error e => eprintln ("stop reported an error: ".toList ++ e)

def quote (s : Str) : Str := "'".toList ++ s ++ "'".toList

/-- A URL is not looked for. -/
def mediaPresent (isUrl : Bool) (media : Str) : Async Bool :=
  if isUrl then .pure true else perform (.isFile media)

/-- `cast_url` or `cast_file`. -/
def startCast (isUrl : Bool) (dev : Device) (controlUrl media title : Str) :
    Async (Except Str Casting.MediaCastSession) :=
  if isUrl then await (Casting.castUrl controlUrl media title)
  else await (Casting.castFile controlUrl dev.address media title)

/-- Cast a media file or URL to a DLNA device for native playback, until Ctrl-C. -/
def runCast (device media : Str) : Async Unit := do
  let isUrl := startsWith media "http://".toList || startsWith media "https://".toList
  if !(← mediaPresent isUrl media) then
    eprintln ("media not found (expected a local file path or an http(s) URL): ".toList ++ media)
  else
    println ("Looking for ".toList ++ quote device ++ "…".toList)
    let devices ← perform (.discoverFor 5)
    match findDevice devices device with
    | none =>
      eprintln ("device ".toList ++ quote device ++ " not found on the local network.".toList)
    | some dev =>
      match ← resolveDlnaControlUrl dev with
      | none =>
        eprintln (quote dev.name ++ (" has no usable DLNA media endpoint ".toList ++
          "(real-time mirroring is not implemented yet).".toList))
      | some controlUrl =>
        let title := mediaTitle media
        match ← startCast isUrl dev controlUrl media title with
        | .ok session =>
          println ("▶ Casting ".toList ++ quote title ++ " to ".toList ++ dev.name ++
            " (".toList ++ session.mediaUrl ++ ")".toList)
          println "Press Ctrl-C to stop.".toList
          perform .ctrlC
          println "Stopping…".toList
          reportStop (← await session.stop)
        | .error e => eprintln ("cast failed: ".toList ++ e)

/-- The channel was closed. -/
def reportEnd (captureEnded : Bool) : Async Unit :=
  if captureEnded then eprintln "capture/encode ended.".toList else .pure ()

/-- Live-mirror the screen to a DLNA device, until Ctrl-C or the end of the capture. -/
def runMirror (device : Str) (fps bitrateKbps : ℕ) : Async Unit := do
  println ("Looking for ".toList ++ quote device ++ "…".toList)
  let devices ← perform (.discoverFor 5)
  match findDevice devices device with
  | none =>
    eprintln ("device ".toList ++ quote device ++ " not found on the local network.".toList)
  | some dev =>
    match ← resolveDlnaControlUrl dev with
    | none =>
      eprintln (quote dev.name ++ (" has no DLNA media endpoint to mirror to ".toList ++
        "(AirPlay-only devices aren't supported).".toList))
    | some controlUrl =>
      match ← await (Casting.startLiveMirror controlUrl dev.address "HorizonCast".toList) with
      | .error e => eprintln ("could not start live mirror: ".toList ++ e)
      | .ok session =>
        println ("▶ Mirroring to ".toList ++ dev.name ++ " (".toList ++ session.live.url ++
          "). Expect a few seconds of latency. Press Ctrl-C to stop.".toList)
        perform (.call (.spawnCapture fps bitrateKbps))
        reportEnd (← perform (.feed session))
        println "Stopping…".toList
        perform .dropReceiver
        reportStop (← await session.stop)
        perform (.call .awaitCapture)

/-- The commands that cast. -/
inductive Command where
  | mirror (device : Str) (fps bitrateKbps : ℕ)
  | cast (device media : Str)

namespace Command

def device : Command → Str
  | mirror device _ _ | cast device _ => device

def run : Command → Async Unit
  | mirror device fps bitrateKbps => runMirror device fps bitrateKbps
  | cast device media => runCast device media

end Command

/-! ### What a run shows -/

abbrev Log := List (Σ o, Reply o)

/-- What an operation does to renderers and servers. -/
def Op.event : (o : Op) → Reply o → Option Casting.Event
  | .call o, reply => o.event reply
  | _, _ => none

/-- A discovery in the log found the device under this name, with this control
URL: its own, or the one of its description. -/
def Located (needle : Str) (log : Log) (url : Str) : Prop :=
  ∃ devices dev, ⟨.discoverFor 5, devices⟩ ∈ log ∧ findDevice devices needle = some dev ∧
    (dev.dlnaControlUrl = some url ∨
      dev.dlnaControlUrl = none ∧ ∃ location, dev.dlnaLocation = some location ∧
        (⟨.call (.resolveControlUrl location), .ok (some url)⟩ : Σ o, Reply o) ∈ log)

/-- An environment in which every call succeeds, with one device. -/
def allSucceed : (o : Op) → Reply o
  | .call o => Casting.allSucceed o
  | .isFile _ => true
  | .feed _ => false
  | .discoverFor _ => [sampleDevice "tv".toList]
  | .ctrlC | .dropReceiver | .println _ | .eprintln _ => ()

/-- The log of a command when every call succeeds. -/
def Command.log (command : Command) : Log := (command.run.answered allSucceed).2

end HorizonCast.Cli
