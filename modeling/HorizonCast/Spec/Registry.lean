import HorizonCast.Lib.Collections
import HorizonCast.Spec.Device
import Mathlib.Data.Char
import Mathlib.Data.List.Lex
import Mathlib.Data.List.MinMax
import Mathlib.Data.Prod.Lex

/-! The device registry (`hc-discovery/src/registry.rs`). A call that would
panic or not return is `none`. Times are nanoseconds since the scan began. -/

namespace HorizonCast

open Collections Text

/-- A single sighting of a device from one discovery backend. -/
structure Observation where
  address : IpAddr
  port : UInt16
  name : Option Str
  stableId : Option Str
  protocol : Protocol
  dlnaControlUrl : Option Str
  dlnaLocation : Option Str
  deriving DecidableEq, Repr

structure Entry where
  name : Option Str
  identities : BTreeSet Str
  port : UInt16
  protocols : List Protocol
  dlnaControlUrl : Option Str
  dlnaLocation : Option Str
  lastSeen : ℕ

/-- The entry of an address that was not tracked. -/
def Entry.vacant (now : ℕ) : Entry where
  name := none
  identities := .empty
  port := 0
  protocols := []
  dlnaControlUrl := none
  dlnaLocation := none
  lastSeen := now

/-- `Some` of a text that is not empty. -/
def nonEmpty (s : Option Str) : Option Str := s.filter (· ≠ [])

/-- The part of `observe` that updates an entry. -/
def Entry.record (entry : Entry) (obs : Observation) (now : ℕ) : Entry where
  lastSeen := now
  port := if entry.port = 0 ∧ obs.port ≠ 0 then obs.port else entry.port
  name :=
    match nonEmpty obs.name with
    | some name => if entry.name.all (· = []) then some name else entry.name
    | none => entry.name
  dlnaControlUrl := if entry.dlnaControlUrl = none then nonEmpty obs.dlnaControlUrl
    else entry.dlnaControlUrl
  dlnaLocation := if entry.dlnaLocation = none then nonEmpty obs.dlnaLocation
    else entry.dlnaLocation
  identities :=
    match nonEmpty obs.stableId with
    | some id => entry.identities.insert id
    | none => entry.identities
  protocols := if obs.protocol ∈ entry.protocols then entry.protocols
    else entry.protocols ++ [obs.protocol]

/-- Merges observations keyed by IP address and expires stale entries. -/
structure DeviceRegistry where
  ttl : ℕ
  entries : AList fun _ : IpAddr => Entry

/-- Lower rank = more preferred as the default transport. -/
def preferenceRank : Protocol → ℕ
  | .airPlayMirror => 0
  | .airPlayVideo => 1
  | .cast => 2
  | .miracast => 3
  | .dlna => 4

def IpAddr.isLoopback : IpAddr → Bool
  | v4 bits => (octets bits).head? = some 127
  | v6 bits => bits.val = 1

/-- Lower rank = preferred as a device's primary address. -/
def addressRank (ip : IpAddr) : ℕ :=
  match ip with
  | .v4 _ => if ip.isLoopback then 3 else 0
  | .v6 bits =>
    if ip.isLoopback then 3
    else if (IpAddr.segments bits).headD 0 &&& 0xFFC0 = 0xFE80 then 2
    else 1

/-! ### Union-find -/

/-- The loop of `find`, for at most `fuel` rounds. -/
def findLoop : ℕ → List ℕ → ℕ → Option (List ℕ × ℕ)
  | 0, _, _ => none
  | fuel + 1, parent, x => do
    let up ← parent[x]?
    if up = x then some (parent, x)
    else
      let halved ← parent[up]?
      findLoop fuel (parent.set x halved) halved

/-- Iterative union-find root lookup with path halving. No path of a forest has
more elements than the array, which bounds the rounds. -/
def find (parent : List ℕ) (x : ℕ) : Option (List ℕ × ℕ) := findLoop parent.length parent x

/-- The state of the linking loops: the parent array and the first owner of
each identity. -/
abbrev Links := List ℕ × AList fun _ : Str => ℕ

/-- One round of the inner loop: the identity `id` of the `i`-th address. -/
def linkIdentity (i : ℕ) (links : Links) (id : Str) : Option Links :=
  match links.2.lookup id with
  | some j => do
    let (parent, a) ← find links.1 i
    let (parent, b) ← find parent j
    some (if a ≠ b then parent.set a b else parent, links.2)
  | none => some (links.1, links.2.insert id i)

namespace DeviceRegistry

/-- Create a registry whose entries expire after `ttl` without a fresh sighting. -/
def new (ttl : ℕ) : DeviceRegistry := ⟨ttl, ∅⟩

/-- Record an observation, merging it into any existing entry for the same address. -/
def observe (reg : DeviceRegistry) (obs : Observation) (now : ℕ) : DeviceRegistry :=
  let entry := (reg.entries.lookup obs.address).getD (.vacant now)
  { reg with entries := reg.entries.insert obs.address (entry.record obs now) }

/-- Remove entries not seen within the TTL window relative to `now`. -/
def expire (reg : DeviceRegistry) (now : ℕ) : DeviceRegistry :=
  { reg with entries := retain (fun _ e => now - e.lastSeen ≤ reg.ttl) reg.entries }

/-- The tracked addresses in order, from the hash map's own order. -/
def addrs (reg : DeviceRegistry) (keys : IterOrder IpAddr) : List IpAddr :=
  (keys.order reg.entries.keys).insertionSort (· ≤ ·)

/-- One round of the outer linking loop. -/
def linkAddress (reg : DeviceRegistry) (links : Links) (addr : IpAddr × ℕ) : Option Links := do
  let entry ← reg.entries.lookup addr.1
  entry.identities.toList.foldlM (linkIdentity addr.2) links

/-- One round of the grouping loop. -/
def groupAddress (state : List ℕ × AList fun _ : ℕ => List IpAddr) (addr : IpAddr × ℕ) :
    Option (List ℕ × AList fun _ : ℕ => List IpAddr) := do
  let (parent, root) ← find state.1 addr.2
  some (parent, pushAt state.2 root addr.1)

/-- Link the addresses that share an identity, then group them by root. -/
def groups (reg : DeviceRegistry) (keys : IterOrder IpAddr) :
    Option (AList fun _ : ℕ => List IpAddr) := do
  let addrs := reg.addrs keys
  let (parent, _) ← addrs.zipIdx.foldlM reg.linkAddress (List.range addrs.length, ∅)
  let (_, groups) ← addrs.zipIdx.foldlM groupAddress (parent, ∅)
  some groups

/-- Merge a group of addresses (one physical device) into a single `Device`. -/
def mergeGroup (reg : DeviceRegistry) (group : List IpAddr) : Option Device := do
  let primary ← group.argmin fun a => toLex (addressRank a, a)
  let port := (← reg.entries.lookup primary).port
  let sorted := group.insertionSort (· ≤ ·)
  let entries ← sorted.mapM reg.entries.lookup
  let protocols := (entries.flatMap Entry.protocols).foldl
    (fun ps p => if p ∈ ps then ps else ps ++ [p]) []
  some {
    id := (entries.flatMap fun e => e.identities.toList).min?.getD primary.toText
    name := (entries.findSome? fun e => nonEmpty e.name).getD
      ("Unknown device (".toList ++ primary.toText ++ [')'])
    address := primary
    port := port
    protocols := protocols.insertionSort fun p q => preferenceRank p ≤ preferenceRank q
    dlnaControlUrl := entries.findSome? Entry.dlnaControlUrl
    dlnaLocation := entries.findSome? Entry.dlnaLocation }

/-- What `devices` sorts by: the rank of the best protocol, the name, the
address. -/
def sortKey (d : Device) : ℕ ×ₗ Str ×ₗ IpAddr :=
  toLex ((d.protocols.head?.map preferenceRank).getD 255, toLex (d.name, d.address))

/-- Current devices: addresses sharing an identity are coalesced into one
device. The orders are those of the two hash maps that are iterated over. -/
def devices (reg : DeviceRegistry) (keys : IterOrder IpAddr)
    (values : IterOrder (List IpAddr)) : Option (List Device) := do
  let groups ← reg.groups keys
  let devices ← (values.order (Collections.values groups)).mapM reg.mergeGroup
  some (devices.insertionSort fun a b => sortKey a ≤ sortKey b)

end DeviceRegistry

/-! ### Runs -/

/-- A call that changes the registry. -/
inductive Call where
  | observe (obs : Observation) (now : ℕ)
  | expire (now : ℕ)
  deriving DecidableEq, Repr

def DeviceRegistry.apply (reg : DeviceRegistry) : Call → DeviceRegistry
  | .observe obs now => reg.observe obs now
  | .expire now => reg.expire now

/-- Successive calls on one registry. -/
def DeviceRegistry.run (reg : DeviceRegistry) (calls : List Call) : DeviceRegistry :=
  calls.foldl DeviceRegistry.apply reg

end HorizonCast
