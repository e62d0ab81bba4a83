import HorizonCast.Lib.Patchwork
import HorizonCast.Lib.Transition
import HorizonCast.Spec.MediaServer

/-! A renderer that plays a file: it asks the media server for any parts, on any number of
connections, and keeps what it reads. It stands for the other side and is written from
HTTP, not translated from the source. -/

namespace HorizonCast.Playback

open Text

/-- The first byte of a part and the length of the whole, as a `Content-Range` has them. -/
def readContentRange (value : Str) : Option (ℕ × ℕ) := do
  let rest ← value.dropPrefix? "bytes ".toList
  let (first, rest) ← splitOnce '-' rest
  let (_, total) ← splitOnce '/' rest
  some (numeral first, numeral total)

/-- The length in the `Content-Range` of a part that cannot be had. -/
def readTotal (value : Str) : Option ℕ := (value.dropPrefix? "bytes */".toList).map numeral

/-- A response that is being read. -/
structure Connection where
  /-- Where its body began, and where its next byte belongs. -/
  first : ℕ
  place : ℕ
  body : List UInt8

structure Player where
  total : Option ℕ := none
  known : ℕ → Option UInt8 := fun _ => none
  connections : List Connection := []

inductive Action where
  /-- A request, and what the file system answers to the server. -/
  | ask (request : Request) (opened : Except Str OpenFile)
  /-- The next bytes of a response arrive. A broken connection is never read again. -/
  | read (connection count : ℕ)

namespace Player

def connect (s : Player) (first : ℕ) (body : List UInt8) : Player :=
  { s with connections := s.connections ++ [⟨first, first, body⟩] }

def answered (s : Player) (resp : Response) : Player :=
  match resp.status with
  | .ok =>
    let total := (resp.header "content-length".toList).map numeral
    { s with total := total }.connect 0 resp.body
  | .partialContent =>
    match (resp.header "content-range".toList).bind readContentRange with
    | some (first, total) => { s with total := some total }.connect first resp.body
    | none => s
  | .rangeNotSatisfiable =>
    { s with total := (resp.header "content-range".toList).bind readTotal }
  | _ => s

def step (state : ServerState) (s : Player) : Action → Option Player
  | .ask request opened => some (s.answered (serve state opened request))
  | .read i count => do
    let c ← s.connections[i]?
    let arrived := c.body.take count
    some { s with
      known := Patchwork.lay s.known c.place arrived
      connections :=
        s.connections.set i ⟨c.first, c.place + arrived.length, c.body.drop count⟩ }

end Player

def run (state : ServerState) : List Action → Option Player :=
  Transition.run (Player.step state) {}

/-- The request for the rest of a file. -/
def restRequest (got : ℕ) : Request where
  method := .get
  range := some ("bytes=".toList ++ (decimal got ++ ['-']))
  wantsContentFeatures := false

/-- Ask for the rest of a file, over a connection that breaks after `cut` bytes. -/
def resume (state : ServerState) (file : OpenFile) (got : List UInt8) (cut : ℕ) : List UInt8 :=
  let resp := serve state (.ok file) (restRequest got.length)
  if resp.status = .partialContent then got ++ resp.body.take cut else got

end HorizonCast.Playback
