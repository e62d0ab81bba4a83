import Mathlib.Data.List.Nodup

/-! Logs of leases: who acquired and released what, in order. In an exclusive
log nothing is acquired while something else is held, nothing is acquired twice
and only what is held is released. -/

namespace Leases

/-- What an event does to the leases. A `barrier` is for events that may only
happen while nothing is held. -/
inductive Mark (κ : Type*) where
  | acquire (k : κ)
  | release (k : κ)
  | barrier
  | other

section Log

variable {ε κ : Type*} {mark : ε → Mark κ}

def acquired (mark : ε → Mark κ) (log : List ε) : List κ :=
  log.filterMap fun e =>
    match mark e with
    | .acquire k => some k
    | _ => none

def released (mark : ε → Mark κ) (log : List ε) : List κ :=
  log.filterMap fun e =>
    match mark e with
    | .release k => some k
    | _ => none

/-- What was acquired and not released since. -/
def held [DecidableEq κ] (mark : ε → Mark κ) (log : List ε) : List κ :=
  (acquired mark log).filter (· ∉ released mark log)

theorem acquired_snoc (log : List ε) (e : ε) :
    acquired mark (log ++ [e]) =
      acquired mark log ++ (match mark e with | .acquire k => [k] | _ => []) := by
  rw [acquired, List.filterMap_append]
  cases h : mark e <;> simp [acquired, h]

theorem released_snoc (log : List ε) (e : ε) :
    released mark (log ++ [e]) =
      released mark log ++ (match mark e with | .release k => [k] | _ => []) := by
  rw [released, List.filterMap_append]
  cases h : mark e <;> simp [released, h]

/-- Where an event of a log with a last event stands. -/
theorem snoc_eq_split {log earlier later : List ε} {last e : ε}
    (h : log ++ [last] = earlier ++ e :: later) :
    (log = earlier ∧ last = e) ∨ ∃ later', log = earlier ++ e :: later' := by
  obtain rfl | ⟨later', last', rfl⟩ := later.eq_nil_or_concat'
  · obtain ⟨hlog, hlast⟩ := List.append_inj' h rfl
    exact .inl ⟨hlog, (List.cons.inj hlast).1⟩
  · rw [← List.cons_append, ← List.append_assoc] at h
    exact .inr ⟨later', (List.append_inj' h rfl).1⟩

end Log

/-- The log is in order, and ends with `holder` being held. -/
inductive Exclusive {ε κ : Type*} (mark : ε → Mark κ) : List ε → Option κ → Prop where
  | nil : Exclusive mark [] none
  | acquire {log : List ε} {e : ε} {k : κ} (h : Exclusive mark log none)
      (he : mark e = .acquire k) (new : k ∉ acquired mark log) :
      Exclusive mark (log ++ [e]) (some k)
  | release {log : List ε} {e : ε} {k : κ} (h : Exclusive mark log (some k))
      (he : mark e = .release k) : Exclusive mark (log ++ [e]) none
  | barrier {log : List ε} {e : ε} (h : Exclusive mark log none) (he : mark e = .barrier) :
      Exclusive mark (log ++ [e]) none
  | other {log : List ε} {e : ε} {holder : Option κ} (h : Exclusive mark log holder)
      (he : mark e = .other) : Exclusive mark (log ++ [e]) holder

namespace Exclusive

variable {ε κ : Type*} {mark : ε → Mark κ} {log : List ε} {holder : Option κ}

/-- Leases follow one another: all but the one still held were released, in the
order in which they were acquired. -/
theorem acquired_eq (h : Exclusive mark log holder) :
    acquired mark log = released mark log ++ holder.toList := by
  induction h with
  | nil => rfl
  | acquire h he new ih => simp [acquired_snoc, released_snoc, he, ih]
  | release h he ih => simp [acquired_snoc, released_snoc, he, ih]
  | barrier h he ih => simp [acquired_snoc, released_snoc, he, ih]
  | other h he ih => simp [acquired_snoc, released_snoc, he, ih]

theorem nodup (h : Exclusive mark log holder) : (acquired mark log).Nodup := by
  induction h with
  | nil => exact List.nodup_nil
  | acquire h he new ih => simpa [acquired_snoc, he] using ih.concat new
  | release h he ih => simpa [acquired_snoc, he] using ih
  | barrier h he ih => simpa [acquired_snoc, he] using ih
  | other h he ih => simpa [acquired_snoc, he] using ih

theorem held_eq [DecidableEq κ] (h : Exclusive mark log holder) :
    held mark log = holder.toList := by
  have hnodup := h.nodup
  rw [held]
  rw [h.acquired_eq] at hnodup ⊢
  have hdisj := List.disjoint_of_nodup_append hnodup
  rw [List.filter_append, List.filter_eq_nil_iff.mpr (by simp), List.nil_append,
    List.filter_eq_self.mpr]
  intro k hk
  exact decide_eq_true fun hrel => hdisj hrel hk

/-- Nothing is held where something is acquired, nor at a barrier. -/
theorem free_before [DecidableEq κ] (h : Exclusive mark log holder) {earlier later : List ε} {e : ε}
    (hlog : log = earlier ++ e :: later)
    (he : mark e = .barrier ∨ ∃ k, mark e = .acquire k) : held mark earlier = [] := by
  induction h generalizing later with
  | nil => exact absurd hlog.symm (by simp)
  | acquire h he' new ih =>
    obtain ⟨rfl, -⟩ | ⟨later', rfl⟩ := snoc_eq_split hlog
    · exact h.held_eq
    · exact ih rfl
  | release h he' ih =>
    obtain ⟨-, rfl⟩ | ⟨later', rfl⟩ := snoc_eq_split hlog
    · simp [he'] at he
    · exact ih rfl
  | barrier h he' ih =>
    obtain ⟨rfl, -⟩ | ⟨later', rfl⟩ := snoc_eq_split hlog
    · exact h.held_eq
    · exact ih rfl
  | other h he' ih =>
    obtain ⟨-, rfl⟩ | ⟨later', rfl⟩ := snoc_eq_split hlog
    · simp [he'] at he
    · exact ih rfl

end Exclusive

end Leases
