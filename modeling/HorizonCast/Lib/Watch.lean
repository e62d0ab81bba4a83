import Mathlib.Data.List.Basic

/-! A channel that keeps the latest value only. A receiver takes it once for each
change that it notices, so it may miss values in between. -/

/-- The channel, with everything that was sent over it. -/
structure Watch (α : Type*) where
  initial : α
  sent : List α

namespace Watch

variable {α : Type*}

/-- The version that a receiver has seen, with the values that it took. -/
structure Receiver (α : Type*) where
  seen : ℕ
  taken : List α

def new (initial : α) : Watch α := ⟨initial, []⟩

def version (w : Watch α) : ℕ := w.sent.length

def value (w : Watch α) : α := w.sent.getLastD w.initial

def send (w : Watch α) (a : α) : Watch α := { w with sent := w.sent ++ [a] }

/-- A receiver that was there from the start, or a copy of one that took nothing. -/
def Receiver.new : Receiver α := ⟨0, []⟩

/-- `none` while there is nothing new. -/
def take (w : Watch α) (r : Receiver α) : Option (Receiver α) :=
  if r.seen ≠ w.version then some ⟨w.version, r.taken ++ [w.value]⟩ else none

/-- The value that the receiver holds. -/
def Receiver.held (initial : α) (r : Receiver α) : α := r.taken.getLastD initial

/-- The receiver took some of the values up to the version that it has seen, and
the last of them. -/
structure Receiver.Follows (r : Receiver α) (w : Watch α) : Prop where
  seen : r.seen ≤ w.version
  taken : r.taken.Sublist (w.sent.take r.seen)
  held : r.held w.initial = (w.sent.take r.seen).getLastD w.initial

theorem Receiver.follows_new (w : Watch α) : (Receiver.new : Receiver α).Follows w where
  seen := Nat.zero_le _
  taken := List.nil_sublist _
  held := rfl

namespace Receiver.Follows

variable {w : Watch α} {r r' : Receiver α}

theorem send (h : r.Follows w) (a : α) : r.Follows (w.send a) := by
  have htake : (w.send a).sent.take r.seen = w.sent.take r.seen :=
    List.take_append_of_le_length h.seen
  refine ⟨?_, ?_, ?_⟩
  · rw [version, Watch.send, List.length_append]
    exact Nat.le_add_right_of_le h.seen
  · rw [htake]
    exact h.taken
  · rw [htake]
    exact h.held

theorem take (h : r.Follows w) (htake : w.take r = some r') : r'.Follows w := by
  obtain ⟨hnew, heq⟩ := Option.ite_none_right_eq_some.mp htake
  obtain rfl := Option.some.inj heq
  have hseen : r.seen < w.sent.length := Nat.lt_of_le_of_ne h.seen hnew
  have hall : w.sent.take w.version = w.sent := List.take_length
  refine ⟨Nat.le_refl _, ?_, ?_⟩
  · dsimp only
    rw [hall]
    -- the value comes after all that was seen before
    have hlast : w.sent.dropLast ++ [w.value] = w.sent := by
      have hne : w.sent ≠ [] := List.ne_nil_of_length_pos (Nat.zero_lt_of_lt hseen)
      rw [value, List.getLastD_eq_getLast?, List.getLast?_eq_some_getLast hne]
      exact List.dropLast_append_getLast hne
    have hbefore : (w.sent.take r.seen).Sublist w.sent.dropLast := by
      rw [List.dropLast_eq_take]
      exact (List.take_prefix_take_left (Nat.le_sub_one_of_lt hseen)).sublist
    have hboth : (r.taken ++ [w.value]).Sublist (w.sent.dropLast ++ [w.value]) :=
      (h.taken.trans hbefore).append (List.Sublist.refl _)
    rwa [hlast] at hboth
  · dsimp only
    rw [hall, Receiver.held, List.getLastD_concat]
    rfl

theorem sublist (h : r.Follows w) : r.taken.Sublist w.sent :=
  h.taken.trans (List.take_sublist _ _)

/-- A receiver for which there is nothing new holds the value. -/
theorem held_eq (h : r.Follows w) (hcurrent : w.take r = none) : r.held w.initial = w.value := by
  have hseen : r.seen = w.version := by
    by_contra hnew
    rw [Watch.take, if_pos hnew] at hcurrent
    cases hcurrent
  rw [h.held, hseen, version, List.take_length]
  rfl

end Receiver.Follows

end Watch
