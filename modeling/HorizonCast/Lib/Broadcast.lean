import Mathlib.Data.List.Basic

/-! A broadcast channel that keeps its latest values, as many as its capacity. A send
never waits; a receiver that falls further behind misses the oldest values. -/

namespace Broadcast

variable {α : Type*}

/-- How much had been sent when the receiver joined, the position that it reads next, and
what it took and missed since. -/
structure Receiver (α : Type*) where
  joined : ℕ
  next : ℕ
  taken : List α
  missed : ℕ

/-- A receiver of what is sent from now on. -/
def subscribe (sent : List α) : Receiver α := ⟨sent.length, sent.length, [], 0⟩

/-- `none` while there is nothing new. A receiver that was left behind goes on with the
oldest value that is kept. -/
def recv (capacity : ℕ) (sent : List α) (r : Receiver α) : Option (Receiver α) :=
  if r.next + capacity < sent.length then
    let oldest := sent.length - capacity
    some { r with next := oldest, missed := r.missed + (oldest - r.next) }
  else
    sent[r.next]?.map fun a => { r with next := r.next + 1, taken := r.taken ++ [a] }

/-- The receiver took some of the values from its joining up to its position, and missed
the others. -/
structure Receiver.Follows (r : Receiver α) (sent : List α) : Prop where
  joined : r.joined ≤ r.next
  next : r.next ≤ sent.length
  taken : r.taken.Sublist ((sent.take r.next).drop r.joined)
  count : r.joined + r.taken.length + r.missed = r.next

theorem follows_subscribe (sent : List α) : (subscribe sent).Follows sent where
  joined := Nat.le_refl _
  next := Nat.le_refl _
  taken := List.nil_sublist _
  count := rfl

namespace Receiver.Follows

variable {sent : List α} {r r' : Receiver α}

theorem send (h : r.Follows sent) (a : α) : r.Follows (sent ++ [a]) where
  joined := h.joined
  next := by
    rw [List.length_append]
    exact Nat.le_add_right_of_le h.next
  taken := by
    rw [List.take_append_of_le_length h.next]
    exact h.taken
  count := h.count

theorem recv {capacity : ℕ} (h : r.Follows sent)
    (hrecv : Broadcast.recv capacity sent r = some r') :
    r'.Follows sent ∧ r'.joined = r.joined := by
  obtain ⟨hjoined, hnext, htaken, hcount⟩ := h
  unfold Broadcast.recv at hrecv
  split_ifs at hrecv with hbehind
  · obtain rfl := Option.some.inj hrecv
    have hle : r.next ≤ sent.length - capacity := by omega
    refine ⟨⟨Nat.le_trans hjoined hle, Nat.sub_le _ _, htaken.trans ?_, ?_⟩, rfl⟩
    · exact ((List.take_prefix_take_left hle).sublist).drop _
    · dsimp only
      omega
  · obtain ⟨a, ha, rfl⟩ := Option.map_eq_some_iff.mp hrecv
    obtain ⟨hlt, rfl⟩ := List.getElem?_eq_some_iff.mp ha
    refine ⟨⟨Nat.le_succ_of_le hjoined, hlt, ?_, ?_⟩, rfl⟩
    · rw [List.take_succ_eq_append_getElem hlt, List.drop_append_of_le_length]
      · exact htaken.append (List.Sublist.refl _)
      · dsimp only
        rw [List.length_take]
        omega
    · rw [List.length_append, List.length_singleton]
      dsimp only
      omega

/-- A receiver that missed nothing took everything. -/
theorem taken_eq (h : r.Follows sent) (hmissed : r.missed = 0) :
    r.taken = (sent.take r.next).drop r.joined := by
  refine h.taken.eq_of_length ?_
  have hcount := h.count
  have hnext := h.next
  rw [List.length_drop, List.length_take]
  omega

end Receiver.Follows

/-- A receiver that is not further behind than the capacity misses nothing. -/
theorem recv_missed {capacity : ℕ} {sent : List α} {r r' : Receiver α}
    (hrecv : recv capacity sent r = some r') (hclose : sent.length ≤ r.next + capacity) :
    r'.missed = r.missed := by
  rw [recv, if_neg (Nat.not_lt.mpr hclose)] at hrecv
  obtain ⟨a, -, rfl⟩ := Option.map_eq_some_iff.mp hrecv
  rfl

end Broadcast
