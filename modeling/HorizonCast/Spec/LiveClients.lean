import HorizonCast.Lib.Broadcast
import HorizonCast.Lib.Transition
import HorizonCast.Spec.Demux
import HorizonCast.Spec.LiveMirror
import HorizonCast.Spec.Soap

/-! The renderers that watch a live stream (`hc-net/src/live_stream.rs`): each has its own
receiver of the broadcast channel and reads it at its own pace, as the body of one
response. -/

namespace HorizonCast.LiveClients

open Text

/-! ### The head of a response -/

/-- The headers that `serve` sends before the stream, with the status `200`. -/
def headers (contentType : Str) (wantsContentFeatures : Bool) : HeaderMap :=
  let out : HeaderMap := []
  let out := out.put "content-type".toList contentType
  let out := out.put "accept-ranges".toList "none".toList
  let out := out.put "transfermode.dlna.org".toList "Streaming".toList
  if wantsContentFeatures then
    out.put "contentfeatures.dlna.org".toList DLNA_LIVE_FEATURES
  else out

/-! ### The body -/

/-- How many chunks may buffer per client before a slow client starts dropping. -/
def CHANNEL_CAPACITY : ℕ := 512

/-- A renderer with a response in flight. -/
structure Client where
  receiver : Broadcast.Receiver Bytes
  isOpen : Bool := true

/-- The body of the response so far. -/
def Client.body (client : Client) : Bytes := client.receiver.taken.flatten

structure Live where
  session : LiveMirrorSession := {}
  clients : List Client := []

inductive Action where
  | push (p : Push)
  /-- A request reaches `serve`. -/
  | connect
  /-- The stream of a body is polled. A gap is left out. -/
  | poll (client : ℕ)
  | disconnect (client : ℕ)

namespace Live

def setClient (s : Live) (i : ℕ) (f : Client → Option Client) : Option Live := do
  let client ← s.clients[i]?
  if client.isOpen then
    let client ← f client
    some { s with clients := s.clients.set i client }
  else none

def step (s : Live) : Action → Option Live
  | .push p => some { s with session := s.session.push p }
  | .connect =>
    let receiver := Broadcast.subscribe s.session.live.sent
    some { s with clients := s.clients ++ [{ receiver }] }
  | .poll i => s.setClient i fun client =>
    (Broadcast.recv CHANNEL_CAPACITY s.session.live.sent client.receiver).map fun receiver =>
      { client with receiver }
  | .disconnect i => s.setClient i fun client => some { client with isOpen := false }

end Live

def run : List Action → Option Live := Transition.run Live.step {}

/-- The calls that the actions make on the session. -/
def pushed (as : List Action) : List Push :=
  as.filterMap fun
    | .push p => some p
    | _ => none

end HorizonCast.LiveClients
