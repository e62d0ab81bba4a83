import Mathlib.Data.List.Induction
import Mathlib.Logic.Basic

/-! Systems that take one action after another. A step that is not possible in
a state is `none`. -/

namespace Transition

variable {σ α : Type*} {step : σ → α → Option σ} {cond : σ → α → Prop}

/-- The state after the actions, when each of them is possible. -/
def run (step : σ → α → Option σ) : σ → List α → Option σ
  | s, [] => some s
  | s, a :: as => (step s a).bind fun s' => run step s' as

/-- The states reached from `s` by runs whose steps all meet `cond`. -/
inductive Reaches (step : σ → α → Option σ) (cond : σ → α → Prop) (s : σ) : σ → Prop where
  | refl : Reaches step cond s s
  | tail {t t' : σ} (a : α) (h : Reaches step cond s t) (met : cond t a)
      (next : step t a = some t') : Reaches step cond s t'

theorem run_append (s : σ) (as bs : List α) :
    run step s (as ++ bs) = (run step s as).bind fun t => run step t bs := by
  induction as generalizing s with
  | nil => rfl
  | cons a as ih => simp only [List.cons_append, run, ih, Option.bind_assoc]

theorem run_concat (s : σ) (as : List α) (a : α) :
    run step s (as ++ [a]) = (run step s as).bind fun t => step t a := by
  simp [run_append, run]

/-- What holds before the first action and is kept by each one holds after every
run, of the state and the actions that led to it. -/
theorem run_invariant (Inv : List α → σ → Prop) {s : σ} (init : Inv [] s)
    (keep : ∀ {as t a t'}, run step s as = some t → Inv as t → step t a = some t' →
      Inv (as ++ [a]) t')
    {as : List α} {t : σ} (h : run step s as = some t) : Inv as t := by
  induction as using List.reverseRecOn generalizing t with
  | nil =>
    cases h
    exact init
  | append_singleton as a ih =>
    rw [run_concat] at h
    obtain ⟨u, hu, hnext⟩ := Option.bind_eq_some_iff.mp h
    exact keep hu (ih hu) hnext

/-- Where every step of one system is matched by some steps of another, which show the same,
so is every run. -/
theorem run_simulates {τ β ω : Type*} {step' : τ → β → Option τ} (shown : α → List ω)
    (shown' : β → List ω) (R : σ → τ → Prop)
    (matched : ∀ {s t a s'}, R s t → step s a = some s' → ∃ bs t', run step' t bs = some t' ∧
      bs.flatMap shown' = shown a ∧ R s' t')
    {s s' : σ} {t : τ} {as : List α} (hR : R s t) (h : run step s as = some s') :
    ∃ bs t', run step' t bs = some t' ∧ bs.flatMap shown' = as.flatMap shown ∧ R s' t' := by
  induction as generalizing s t with
  | nil =>
    cases h
    exact ⟨[], t, rfl, rfl, hR⟩
  | cons a as ih =>
    obtain ⟨u, hu, hrest⟩ := Option.bind_eq_some_iff.mp h
    obtain ⟨bs, v, hbs, hshown, hRu⟩ := matched hR hu
    obtain ⟨cs, t', hcs, hshown', hR'⟩ := ih hRu hrest
    refine ⟨bs ++ cs, t', ?_, ?_, hR'⟩
    · rw [run_append, hbs, Option.bind_some, hcs]
    · rw [List.flatMap_append, List.flatMap_cons, hshown, hshown']

/-- A run of actions that each lower a measure is no longer than the measure. -/
theorem length_add_le_of_run {Inv : σ → Prop} {Allowed : α → Prop} (measure : σ → ℕ)
    (lowers : ∀ {s a s'}, Inv s → Allowed a → step s a = some s' →
      Inv s' ∧ measure s' < measure s)
    {s t : σ} {as : List α} (init : Inv s) (hallowed : ∀ a ∈ as, Allowed a)
    (h : run step s as = some t) : as.length + measure t ≤ measure s ∧ Inv t := by
  induction as generalizing s with
  | nil =>
    cases h
    exact ⟨Nat.le_of_eq (Nat.zero_add _), init⟩
  | cons a as ih =>
    obtain ⟨s', hs', hrest⟩ := Option.bind_eq_some_iff.mp h
    obtain ⟨init', hlower⟩ := lowers init (hallowed a (by simp)) hs'
    obtain ⟨hle, hlast⟩ := ih init' (fun b hb => hallowed b (by simp [hb])) hrest
    refine ⟨?_, hlast⟩
    rw [List.length_cons]
    omega

namespace Reaches

/-- What holds at the start and is kept by every step that meets the condition
holds in every state reached. -/
theorem invariant {Inv : σ → Prop}
    (keep : ∀ {s a s'}, Inv s → cond s a → step s a = some s' → Inv s') {s t : σ} (init : Inv s)
    (h : Reaches step cond s t) : Inv t := by
  induction h with
  | refl => exact init
  | tail a _ met next ih => exact keep ih met next

theorem trans {s t u : σ} (h : Reaches step cond s t) (h' : Reaches step cond t u) :
    Reaches step cond s u := by
  induction h' with
  | refl => exact h
  | tail a _ met next ih => exact .tail a ih met next

theorem single {s t : σ} (a : α) (met : cond s a) (next : step s a = some t) :
    Reaches step cond s t := .tail a .refl met next

theorem mono {cond' : σ → α → Prop} (hc : ∀ s a, cond s a → cond' s a) {s t : σ}
    (h : Reaches step cond s t) : Reaches step cond' s t := by
  induction h with
  | refl => exact .refl
  | tail a _ met next ih => exact .tail a ih (hc _ _ met) next

/-- Where every step meets the condition, a run reaches its last state. -/
theorem of_run (hall : ∀ s a, cond s a) {s t : σ} {as : List α} (h : run step s as = some t) :
    Reaches step cond s t := by
  induction as generalizing s with
  | nil =>
    cases h
    exact .refl
  | cons a as ih =>
    obtain ⟨s', hs', hrest⟩ := Option.bind_eq_some_iff.mp h
    exact (single a (hall s a) hs').trans (ih hrest)

/-- A run whose steps all meet the condition, checked step by step. -/
theorem of_run_met [∀ s a, Decidable (cond s a)] {s t : σ} (as : List α)
    (h : run (fun s a => if cond s a then step s a else none) s as = some t) :
    Reaches step cond s t := by
  induction as generalizing s with
  | nil =>
    cases h
    exact .refl
  | cons a as ih =>
    obtain ⟨s', hs', hrest⟩ := Option.bind_eq_some_iff.mp h
    obtain ⟨met, next⟩ := Option.ite_none_right_eq_some.mp hs'
    exact (single a met next).trans (ih hrest)

end Reaches

end Transition
