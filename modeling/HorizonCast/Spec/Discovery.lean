import HorizonCast.Spec.Registry

/-! The continuous discovery service (`hc-discovery/src/service.rs`). Both backends of a
pass record in one registry under its lock, so a pass is the sequence of their sightings,
in whatever order the lock was taken. -/

namespace HorizonCast.Discovery

open Collections

/-- How long a device may go unseen before it is considered gone: 15 seconds. -/
def defaultTtl : ℕ := 15 * 10 ^ 9

/-- What the loop keeps from pass to pass. -/
structure State where
  registry : DeviceRegistry
  last : List Device
  sent : List (List Device)  -- what went to the subscribers

def start : State := ⟨.new defaultTtl, [], []⟩

/-- A scan pass: what was sighted and when, the time at its end, and the orders of the
hash maps at its snapshot. -/
structure Pass where
  sightings : List (Observation × ℕ)
  elapsed : ℕ
  keys : IterOrder IpAddr
  groups : IterOrder (List IpAddr)

def observeCalls (sightings : List (Observation × ℕ)) : List Call :=
  sightings.map fun s => .observe s.1 s.2

/-- The calls of a pass on the registry. -/
def Pass.calls (pass : Pass) : List Call := observeCalls pass.sightings ++ [.expire pass.elapsed]

/-- One round of the loop of `run`. -/
def State.pass (s : State) (pass : Pass) : Option State := do
  let registry := s.registry.run pass.calls
  let snapshot ← registry.devices pass.keys pass.groups
  if snapshot ≠ s.last then
    some { registry := registry, last := snapshot, sent := s.sent ++ [snapshot] }
  else some { s with registry := registry }

def run (passes : List Pass) : Option State := passes.foldlM State.pass start

end HorizonCast.Discovery
