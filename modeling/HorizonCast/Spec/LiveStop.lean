import HorizonCast.Lib.Transition
import Mathlib.Data.List.Basic

/-! Stopping a live stream (`hc-net/src/live_stream.rs`): the call of `stop`,
the serve task and the renderers' connections, and who still holds a sender of
the broadcast channel. What is published does not matter here: a body waits for
the next chunk until every sender is dropped. -/

namespace HorizonCast

/-- The call of `LiveStream::stop`: not made yet, entered, awaiting the serve
task's handle, returned with `self` dropped. -/
inductive StopPhase where
  | notCalled
  | entered
  | awaiting
  | returned
  deriving DecidableEq, Repr

/-- The serve task: accepting, shut down gracefully and waiting for its
connections, finished with the router dropped. -/
inductive ServePhase where
  | accepting
  | draining
  | finished
  deriving DecidableEq, Repr

/-- A connection: with nothing of a request received, with part of the head of
one, with a request in the handler, with a response body in flight, closed.
`kept` says that a request was answered on it before. -/
inductive ConnPhase where
  | idle (kept : Bool)
  | receiving (kept : Bool)
  | answering (isHead : Bool)
  | streaming
  | closed
  deriving DecidableEq, Repr

/-- What the server of `axum::serve` does with its connections once it is shut
down gracefully. -/
structure GracefulShutdown where
  /-- Whether it closes a connection in this phase. -/
  closes : ConnPhase → Bool
  /-- Whether it completes with its connections in these phases. -/
  completes : List ConnPhase → Bool

/-- It closes idle connections and leaves those with a request until the response
has been sent; it completes when all are closed. Which of the two it does with a
connection whose request has only begun to arrive is left open. -/
structure GracefulShutdown.Documented (http : GracefulShutdown) : Prop where
  idle : ∀ kept, http.closes (.idle kept) = true
  answering : ∀ isHead, http.closes (.answering isHead) = false
  streaming : http.closes .streaming = false
  completes : ∀ connections, http.completes connections = true ↔ ∀ c ∈ connections, c = .closed

structure LiveServer where
  stop : StopPhase := .notCalled
  signalled : Bool := false
  serve : ServePhase := .accepting
  connections : List ConnPhase := []
  deriving DecidableEq, Repr

inductive LiveAction where
  -- the renderers, which never close a connection
  | connect
  | beginRequest (i : ℕ)
  | request (i : ℕ) (isHead : Bool)
  -- the app
  | callStop
  -- local steps
  | signal
  | drain
  | answer (i : ℕ)
  | endBody (i : ℕ)
  | closeConnection (i : ℕ)
  | finish
  | return
  deriving DecidableEq, Repr

def LiveAction.isLocal : LiveAction → Bool
  | connect | beginRequest _ | request _ _ | callStop => false
  | _ => true

namespace LiveServer

/-- A sender is alive: the one in `self` until `stop` returns, or the one in the
state, held by the router in the serve task and by a handler. -/
def senderAlive (s : LiveServer) : Bool :=
  s.stop ≠ .returned || s.serve ≠ .finished || s.connections.any fun c =>
    match c with
    | .answering _ => true
    | _ => false

/-- Move connection `i` on, from a phase in which that can be. -/
def move (s : LiveServer) (i : ℕ) (next : ConnPhase → Option ConnPhase) : Option LiveServer := do
  let phase ← s.connections[i]?
  let phase ← next phase
  some { s with connections := s.connections.set i phase }

def step (http : GracefulShutdown) (s : LiveServer) : LiveAction → Option LiveServer
  | .connect =>
    if s.serve = .accepting then some { s with connections := s.connections ++ [.idle false] }
    else none
  | .beginRequest i => s.move i fun
    | .idle kept => some (.receiving kept)
    | _ => none
  | .request i isHead => s.move i fun
    | .idle _ | .receiving _ => some (.answering isHead)
    | _ => none
  | .callStop => if s.stop = .notCalled then some { s with stop := .entered } else none
  | .signal =>
    if s.stop = .entered then some { s with stop := .awaiting, signalled := true } else none
  | .drain =>
    if s.serve = .accepting ∧ s.signalled then some { s with serve := .draining } else none
  | .answer i => s.move i fun
    -- The answer to a HEAD request has no body, and its stream is dropped.
    | .answering isHead => some (if isHead then .idle true else .streaming)
    | _ => none
  | .endBody i =>
    -- The stream of a body ends only when every sender is dropped.
    if s.senderAlive then none
    else s.move i fun
      | .streaming => some (if s.serve = .accepting then .idle true else .closed)
      | _ => none
  | .closeConnection i =>
    if s.serve = .draining then s.move i fun c => if http.closes c then some .closed else none
    else none
  | .finish =>
    if s.serve = .draining ∧ http.completes s.connections then some { s with serve := .finished }
    else none
  | .return =>
    if s.stop = .awaiting ∧ s.serve = .finished then some { s with stop := .returned } else none

end LiveServer

end HorizonCast
