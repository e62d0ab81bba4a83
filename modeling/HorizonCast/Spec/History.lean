import HorizonCast.Spec.Registry
import Mathlib.Data.Nat.Find

/-! What the registry should hold, from the calls alone: which addresses are
tracked, and what was seen of each since it was last untracked. Not translated
from the source. -/

namespace HorizonCast

open Collections Text

/-- The sighting of `a` that a call records, with its time. -/
def Call.sighting (a : IpAddr) : Call → Option (Observation × ℕ)
  | observe obs now => if obs.address = a then some (obs, now) else none
  | expire _ => none

/-- Whether a sighting at time `t` is still good after the call. -/
def Call.keeps (ttl t : ℕ) : Call → Bool
  | observe _ _ => true
  | expire now => now - t ≤ ttl

namespace History

/-- The most recent sighting of `a`: its time, and the calls after it. -/
def latest (a : IpAddr) : List Call → Option (ℕ × List Call)
  | [] => none
  | c :: calls => (latest a calls).or ((c.sighting a).map fun s => (s.2, calls))

/-- There is a sighting of `a`, and no expiry after the most recent one found it
older than `ttl`. -/
def tracked (ttl : ℕ) (a : IpAddr) (calls : List Call) : Bool :=
  (latest a calls).any fun (t, after) => after.all (Call.keeps ttl t)

/-- The number of calls made when `a` was last untracked. -/
def lastUntracked (ttl : ℕ) (a : IpAddr) (calls : List Call) : ℕ :=
  Nat.findGreatest (fun n => tracked ttl a (calls.take n) = false) calls.length

/-- What was observed of `a` since it was last untracked. -/
def seen (ttl : ℕ) (a : IpAddr) (calls : List Call) : List Observation :=
  ((calls.drop (lastUntracked ttl a calls)).filterMap (Call.sighting a)).map Prod.fst

/-- The entry of an address of which `obs` was observed, most recently at time
`last`. -/
def summary (obs : List Observation) (last : ℕ) : Entry where
  name := obs.findSome? fun o => nonEmpty o.name
  identities := .ofList (obs.filterMap fun o => nonEmpty o.stableId)
  port := ((obs.map Observation.port).find? (· ≠ 0)).getD 0
  protocols := (obs.map Observation.protocol).eraseDups
  dlnaControlUrl := obs.findSome? fun o => nonEmpty o.dlnaControlUrl
  dlnaLocation := obs.findSome? fun o => nonEmpty o.dlnaLocation
  lastSeen := last

/-- The entry of `a` after the calls. -/
def entry (ttl : ℕ) (a : IpAddr) (calls : List Call) : Option Entry :=
  if tracked ttl a calls then
    (latest a calls).map fun (t, _) => summary (seen ttl a calls) t
  else none

end History

end HorizonCast
