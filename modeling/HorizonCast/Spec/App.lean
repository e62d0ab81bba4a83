import HorizonCast.Spec.Device

/-! The desktop app (`hc-app/src/main.rs` and `hc-app/ui/app.slint`): the UI
thread, the background command loop and the mirror pump, with the queues
between them. One `Action` is what one of these threads does between two points
at which another can run; an action that its thread cannot take is `none`. -/

namespace HorizonCast

open Text

/-- A row of the displayed list. -/
structure DeviceItem where
  id : Str
  name : Str
  protocol : Str
  deriving DecidableEq, Repr

def protocolLabel (device : Device) : Str :=
  match device.protocols.head? with
  | some .dlna => "DLNA".toList
  | some .airPlayMirror | some .airPlayVideo => "AirPlay".toList
  | some .miracast => "Miracast".toList
  | some .cast => "Cast".toList
  | none => "Unknown".toList

def toItem (device : Device) : DeviceItem where
  id := device.id
  name := device.name
  protocol := protocolLabel device

/-- Commands the UI sends to the background runtime. -/
inductive Cmd where
  | castFile (id : Str) (path : Str)
  | castUrl (id : Str) (url : Str)
  | mirror (id : Str) (fps : ℕ) (bitrateKbps : ℕ)
  | stop
  deriving DecidableEq, Repr

/-- The device a command casts to. -/
def Cmd.target : Cmd → Option Str
  | castFile id _ | castUrl id _ | mirror id _ _ => some id
  | stop => none

/-- The pump task of a mirror: in its loop, awaiting the session's `stop`, or
finished. -/
inductive Pump where
  | pumping
  | stopping
  | finished
  deriving DecidableEq, Repr

/-- Whatever is currently casting. -/
inductive Active where
  | none
  | media
  | mirror (pump : Pump)
  deriving DecidableEq, Repr

/-- The background loop: waiting in `select!`, about to post the items of an
update, awaiting `teardown` of what was active before a command, or awaiting the
start of the cast that a command asks for. -/
inductive Loop where
  | idle
  | publishing (items : List DeviceItem)
  | tearingDown (old : Active) (cmd : Cmd)
  | starting (cmd : Cmd)
  deriving DecidableEq, Repr

/-- A closure posted to the UI event loop. -/
inductive Closure where
  | setDevices (items : List DeviceItem)
  | clearCasting
  deriving DecidableEq, Repr

/-- The properties of the window. `dialog` is the device that `on_cast_file`
looked up while the file dialog blocks the UI thread. -/
structure Ui where
  devices : List DeviceItem := []
  scanning : Bool := true
  selected : ℤ := -1
  casting : Bool := false
  nowCasting : Str := []
  urlText : Str := []
  fps : ℤ := 0
  quality : ℤ := 0
  dialog : Option Device := none
  deriving DecidableEq, Repr

structure App where
  ui : Ui := {}
  closures : List Closure := []
  commands : List Cmd := []
  snapshot : List Device := []
  loop : Loop := .idle
  active : Active := .none
  deriving DecidableEq, Repr

/-- Look up a snapshotted device by id. -/
def findDevice (snapshot : List Device) (id : Str) : Option Device :=
  snapshot.find? (·.id = id)

/-- The currently selected device, from the UI index and the shared snapshot. -/
def selectedDevice (ui : Ui) (snapshot : List Device) : Option Device :=
  if ui.selected < 0 then none else snapshot[ui.selected.toNat]?

/-- Whether `start_media` and `start_mirror` can find a control URL. -/
def startable (snapshot : List Device) (id : Str) : Bool :=
  (findDevice snapshot id).any fun d => d.dlnaControlUrl.isSome || d.dlnaLocation.isSome

inductive Action where
  -- the user, on the UI thread
  | click (index : ℕ)
  | setFps (fps : ℤ)
  | setQuality (quality : ℤ)
  | mirror
  | openFile
  | pickFile (path : Str)
  | cancelFile
  | castUrl (url : Str)
  | stop
  | rescan
  -- the UI event loop
  | runClosure
  -- the background loop
  | update (devices : List Device)
  | publish
  | receive
  | tornDown
  | startFails
  | startSucceeds
  -- the pump
  | captureEnds
  | stopSignal
  | pumpFinishes
  deriving DecidableEq, Repr

namespace App

def send (s : App) (cmd : Cmd) : App := { s with commands := s.commands ++ [cmd] }

def post (s : App) (closure : Closure) : App := { s with closures := s.closures ++ [closure] }

/-- `set_casting(true)` with the text of the now-casting card. -/
def showCasting (s : App) (nowCasting : Str) : App :=
  { s with ui := { s.ui with casting := true, nowCasting := nowCasting } }

/-- `set_casting(false)` with an empty card. -/
def showIdle (s : App) : App := { s with ui := { s.ui with casting := false, nowCasting := [] } }

def onMirror (s : App) : App :=
  match selectedDevice s.ui s.snapshot with
  | none => s
  | some device =>
    let fps := if s.ui.fps = 1 then 30 else 60
    let bitrateKbps :=
      if s.ui.quality = 3 then 45000
      else if s.ui.quality = 2 then 24000
      else if s.ui.quality = 1 then 12000
      else 16000
    (s.showCasting (device.name ++ " · screen".toList)).send (.mirror device.id fps bitrateKbps)

/-- `on_cast_file` up to the file dialog. -/
def onCastFile (s : App) : App :=
  match selectedDevice s.ui s.snapshot with
  | none => s
  | some device => { s with ui := { s.ui with dialog := some device } }

/-- `on_cast_file` from the file dialog on. -/
def onFilePicked (s : App) (device : Device) (path : Str) : App :=
  let s := { s with ui := { s.ui with dialog := none } }
  (s.showCasting device.name).send (.castFile device.id path)

def onCastUrl (s : App) (url : Str) : App :=
  let url := trim url
  if url = [] then s
  else
    match selectedDevice s.ui s.snapshot with
    | none => s
    | some device =>
      let s := s.showCasting device.name
      let s := { s with ui := { s.ui with urlText := [] } }
      s.send (.castUrl device.id url)

def onStop (s : App) : App := s.showIdle.send .stop

def runClosure (s : App) : Option App :=
  match s.closures with
  | [] => none
  | .setDevices items :: rest =>
    some { s with closures := rest, ui := { s.ui with devices := items, scanning := false } }
  | .clearCasting :: rest => some { s with closures := rest }.showIdle

/-- What the background loop and the tasks it started do. -/
def background (s : App) : Action → Option App
  | .update devices =>
    if s.loop = .idle then
      some { s with snapshot := devices, loop := .publishing (devices.map toItem) }
    else none
  | .publish =>
    match s.loop with
    | .publishing items => some ({ s with loop := .idle }.post (.setDevices items))
    | _ => none
  | .receive =>
    match s.loop, s.commands with
    | .idle, cmd :: rest =>
      some { s with commands := rest, loop := .tearingDown s.active cmd, active := .none }
    | _, _ => none
  | .tornDown =>
    match s.loop with
    | .tearingDown (.mirror .pumping) _ | .tearingDown (.mirror .stopping) _ => none
    | .tearingDown _ .stop => some { s with loop := .idle }
    | .tearingDown _ cmd => some { s with loop := .starting cmd }
    | _ => none
  | .startFails =>
    -- Every failing path posts the closure last and returns `Active::None`.
    match s.loop with
    | .starting _ => some ({ s with loop := .idle, active := .none }.post .clearCasting)
    | _ => none
  | .startSucceeds =>
    match s.loop with
    | .starting (.castFile id _) | .starting (.castUrl id _) =>
      if startable s.snapshot id then some { s with loop := .idle, active := .media } else none
    | .starting (.mirror id _ _) =>
      if startable s.snapshot id then some { s with loop := .idle, active := .mirror .pumping }
      else none
    | _ => none
  | .captureEnds =>
    match s.loop, s.active with
    | .tearingDown (.mirror .pumping) cmd, _ =>
      some ({ s with loop := .tearingDown (.mirror .stopping) cmd }.post .clearCasting)
    | _, .mirror .pumping => some ({ s with active := .mirror .stopping }.post .clearCasting)
    | _, _ => none
  | .stopSignal =>
    match s.loop with
    | .tearingDown (.mirror .pumping) cmd =>
      some { s with loop := .tearingDown (.mirror .stopping) cmd }
    | _ => none
  | .pumpFinishes =>
    match s.loop, s.active with
    | .tearingDown (.mirror .stopping) cmd, _ =>
      some { s with loop := .tearingDown (.mirror .finished) cmd }
    | _, .mirror .stopping => some { s with active := .mirror .finished }
    | _, _ => none
  | _ => none

/-- What the UI thread does while no dialog blocks it. The rows and the sheet
are there while nothing is cast, the stop button while something is. -/
def interact (s : App) : Action → Option App
  | .click index =>
    if s.ui.casting = false ∧ index < s.ui.devices.length then
      some { s with ui := { s.ui with selected := index } }
    else none
  | .setFps fps => some { s with ui := { s.ui with fps := fps } }
  | .setQuality quality => some { s with ui := { s.ui with quality := quality } }
  | .mirror => if s.ui.casting = false then some s.onMirror else none
  | .openFile => if s.ui.casting = false then some s.onCastFile else none
  | .castUrl url => if s.ui.casting = false then some (s.onCastUrl url) else none
  | .stop => if s.ui.casting = true then some s.onStop else none
  | .rescan => some { s with ui := { s.ui with scanning := true } }
  | .runClosure => s.runClosure
  | _ => none

/-- Whether an action is one of the UI thread. -/
def onUiThread : Action → Bool
  | .click _ | .setFps _ | .setQuality _ | .mirror | .openFile | .pickFile _ | .cancelFile
  | .castUrl _ | .stop | .rescan | .runClosure => true
  | _ => false

def step (s : App) (a : Action) : Option App :=
  if onUiThread a then
    match s.ui.dialog, a with
    | some device, .pickFile path => some (s.onFilePicked device path)
    | some _, .cancelFile => some { s with ui := { s.ui with dialog := none } }
    | some _, _ => none
    | none, a => s.interact a
  else s.background a

end App

/-- A renderer to be used in concrete runs. -/
def sampleDevice (id : Str) : Device where
  id := id
  name := "TV".toList
  address := .v4 0xC0A80109
  port := 9197
  protocols := [.dlna]
  dlnaControlUrl := some "http://192.168.1.9:9197/upnp/control/AVTransport1".toList
  dlnaLocation := none

end HorizonCast
