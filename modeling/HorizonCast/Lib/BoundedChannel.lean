import Mathlib.Data.List.Basic

/-! A bounded channel from a sender to a receiver, with what it has delivered.
A send waits while the channel is full, a receive while it is empty. -/

structure BoundedChannel (α : Type*) (capacity : ℕ) where
  received : List α
  queue : List α
  receiverOpen : Bool
  bounded : queue.length ≤ capacity

namespace BoundedChannel

variable {α : Type*} {capacity : ℕ}

def new : BoundedChannel α capacity := ⟨[], [], true, Nat.zero_le _⟩

/-- Everything that was ever sent, in order. -/
def sent (c : BoundedChannel α capacity) : List α := c.received ++ c.queue

/-- `none` while the channel is full. -/
def send (c : BoundedChannel α capacity) (a : α) : Option (BoundedChannel α capacity) :=
  if h : c.queue.length < capacity then
    some { c with queue := c.queue ++ [a], bounded := by rwa [List.length_append] }
  else none

/-- `none` while the channel is empty. -/
def receive (c : BoundedChannel α capacity) : Option (α × BoundedChannel α capacity) :=
  match h : c.queue with
  | [] => none
  | a :: rest =>
    some (a, { c with
      received := c.received ++ [a]
      queue := rest
      bounded := Nat.le_of_succ_le (by simpa [h] using c.bounded) })

def dropReceiver (c : BoundedChannel α capacity) : BoundedChannel α capacity :=
  { c with receiverOpen := false }

theorem received_prefix (c : BoundedChannel α capacity) : c.received <+: c.sent :=
  List.prefix_append _ _

theorem send_spec {c c' : BoundedChannel α capacity} {a : α} (h : c.send a = some c') :
    c'.received = c.received ∧ c'.queue = c.queue ++ [a] ∧ c'.receiverOpen = c.receiverOpen := by
  rw [send] at h
  split at h
  · cases h
    exact ⟨rfl, rfl, rfl⟩
  · cases h

theorem send_sent {c c' : BoundedChannel α capacity} {a : α} (h : c.send a = some c') :
    c'.sent = c.sent ++ [a] := by
  obtain ⟨hreceived, hqueue, -⟩ := send_spec h
  rw [sent, hreceived, hqueue, ← List.append_assoc]
  rfl

theorem receive_spec {c c' : BoundedChannel α capacity} {a : α} (h : c.receive = some (a, c')) :
    c.queue = a :: c'.queue ∧ c'.received = c.received ++ [a] ∧
      c'.receiverOpen = c.receiverOpen := by
  rw [receive] at h
  split at h
  · cases h
  · cases h
    exact ⟨‹_›, rfl, rfl⟩

theorem receive_sent {c c' : BoundedChannel α capacity} {a : α} (h : c.receive = some (a, c')) :
    c'.sent = c.sent := by
  obtain ⟨hqueue, hreceived, -⟩ := receive_spec h
  rw [sent, sent, hqueue, hreceived, List.append_assoc]
  rfl

end BoundedChannel
