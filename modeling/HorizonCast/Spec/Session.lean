import HorizonCast.Lib.Collections
import HorizonCast.Lib.Transition

/-! The session state machine (`hc-core/src/session.rs`). -/

namespace HorizonCast.Session

inductive ErrorReason where
  | permissionDenied | deviceUnreachable | protocolFailed | networkChanged
  deriving DecidableEq, Repr

inductive SessionState where
  | idle | discovering | deviceSelected | negotiating | connecting
  | streaming | degraded | reconnecting | stopping
  | error (reason : ErrorReason)
  deriving DecidableEq, Repr

inductive Event where
  | startDiscovery | deviceChosen | beginNegotiate | capsNegotiated | connected
  | congested | recovered | connectionLost | stop | stopped
  | failed (reason : ErrorReason)
  deriving DecidableEq, Repr

/-- The arms stand in the source's order; `none` is an invalid transition. -/
def SessionState.next (self : SessionState) (event : Event) : Option SessionState :=
  match self, event with
  | .idle, .startDiscovery => some .discovering
  | .discovering, .deviceChosen => some .deviceSelected
  | .deviceSelected, .beginNegotiate => some .negotiating
  | .negotiating, .capsNegotiated => some .connecting
  | .connecting, .connected | .reconnecting, .connected => some .streaming
  | .streaming, .congested => some .degraded
  | .degraded, .recovered => some .streaming
  | .streaming, .connectionLost | .degraded, .connectionLost => some .reconnecting
  | .stopping, .stopped => some .idle
  | state, .stop => if state ≠ .idle then some .stopping else none
  | _, .failed reason => some (.error reason)
  | _, _ => none

/-- The state after the events, when each of them is accepted. -/
def drive (start : SessionState) (events : List Event) : Option SessionState :=
  Transition.run SessionState.next start events

/-! ### What a run has seen -/

/-- The events that establish a stream. -/
def handshake : List Event :=
  [.startDiscovery, .deviceChosen, .beginNegotiate, .capsNegotiated, .connected]

/-- The events since the session was last idle. -/
def sinceIdle (events : List Event) : List Event :=
  Collections.since (fun es => drive .idle es = some .idle) events

/-- There is a stream, or one to be restored. -/
def SessionState.established : SessionState → Bool
  | streaming | degraded | reconnecting => true
  | _ => false

/-- The session is being torn down, or has failed. -/
def SessionState.down : SessionState → Bool
  | stopping | error _ => true
  | _ => false

/-- Takes a session down. -/
def Event.ends : Event → Bool
  | stop | failed _ => true
  | _ => false

def Event.failure : Event → Option ErrorReason
  | failed reason => some reason
  | _ => none

/-- The reason of the most recent failure. -/
def lastFailure (events : List Event) : Option ErrorReason :=
  (events.filterMap Event.failure).getLast?

end HorizonCast.Session
