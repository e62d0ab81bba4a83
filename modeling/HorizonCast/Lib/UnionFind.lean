import Mathlib.Data.Finset.Card
import Mathlib.Logic.Function.Iterate
import Mathlib.Logic.Relation

/-! Union-find on a parent function. Every element of a forest has a root;
halving a path keeps all roots, linking one root under another merges exactly
two trees. Feeding a forest the incidences of elements with keys one by one,
with each key linked to its first owner only, yields the connected components
of the relation "shares a key". -/

namespace UnionFind

open Function

variable {α : Type*} {p : α → α}

/-! ### Roots -/

/-- `r` is the root `d` steps above `x`. -/
inductive RootAt (p : α → α) : ℕ → α → α → Prop where
  | root {x : α} (h : p x = x) : RootAt p 0 x x
  | step {d : ℕ} {x r : α} (h : p x ≠ x) (up : RootAt p d (p x) r) : RootAt p (d + 1) x r

namespace RootAt

theorem unique {d e : ℕ} {x r s : α} (h : RootAt p d x r) (h' : RootAt p e x s) :
    d = e ∧ r = s := by
  induction h generalizing e with
  | root h =>
    cases h' with
    | root => exact ⟨rfl, rfl⟩
    | step hne => exact absurd h hne
  | step hne up ih =>
    cases h' with
    | root h => exact absurd h hne
    | step _ up' =>
      obtain ⟨hd, hr⟩ := ih up'
      exact ⟨by omega, hr⟩

theorem isRoot {d : ℕ} {x r : α} (h : RootAt p d x r) : p r = r := by
  induction h with
  | root h => exact h
  | step _ _ ih => exact ih

theorem iterate {d : ℕ} {x r : α} (h : RootAt p d x r) {i : ℕ} (hi : i ≤ d) :
    RootAt p (d - i) (p^[i] x) r := by
  induction h generalizing i with
  | root h =>
    obtain rfl : i = 0 := by omega
    exact .root h
  | step hne up ih =>
    cases i with
    | zero => exact .step hne up
    | succ i =>
      rw [iterate_succ_apply, Nat.add_sub_add_right]
      exact ih (by omega)

/-- From its depth on, the path stays at the root. -/
theorem iterate_of_le {d : ℕ} {x r : α} (h : RootAt p d x r) {i : ℕ} (hi : d ≤ i) :
    p^[i] x = r := by
  induction h generalizing i with
  | root h => exact iterate_fixed h i
  | step _ _ ih =>
    cases i with
    | zero => omega
    | succ i =>
      rw [iterate_succ_apply]
      exact ih (by omega)

/-- Only a root is on a cycle. -/
theorem eq_of_cycle {d : ℕ} {x r : α} (h : RootAt p d x r) {n : ℕ} (hn : 0 < n)
    (hcycle : p^[n] x = x) : p x = x := by
  -- After `n * d` steps the path is back at `x`, and it is at the root.
  have hback : p^[n * d] x = x := by
    rw [iterate_mul]
    exact iterate_fixed hcycle d
  have hxr : x = r := by
    rw [← hback]
    exact h.iterate_of_le (Nat.le_mul_of_pos_left d hn)
  rw [hxr]
  exact h.isRoot

theorem mem {s : Set α} (closed : ∀ x ∈ s, p x ∈ s) {d : ℕ} {x r : α} (h : RootAt p d x r)
    (hx : x ∈ s) : r ∈ s := by
  induction h with
  | root => exact hx
  | step _ _ ih => exact ih (closed _ hx)

/-- A path to the root visits no element twice, so it is shorter than the set
of all elements. -/
theorem depth_lt {s : Finset α} (closed : ∀ x ∈ s, p x ∈ s) {d : ℕ} {x r : α}
    (h : RootAt p d x r) (hx : x ∈ s) : d < s.card := by
  have hmem : ∀ i, p^[i] x ∈ s := by
    intro i
    induction i with
    | zero => exact hx
    | succ i ih => rw [iterate_succ_apply']; exact closed _ ih
  have hinj : Set.InjOn (fun i => p^[i] x) (Finset.range (d + 1)) := by
    intro i hi j hj heq
    rw [Finset.coe_range, Set.mem_Iio] at hi hj
    -- Equal elements have equal distances to the root.
    have hi' := h.iterate (i := i) (by omega)
    have hj' := h.iterate (i := j) (by omega)
    have heq' : p^[i] x = p^[j] x := heq
    rw [heq'] at hi'
    have := (hi'.unique hj').1
    omega
  have hcard := Finset.card_le_card_of_injOn (s := Finset.range (d + 1)) (t := s) _
    (fun i _ => hmem i) hinj
  rw [Finset.card_range] at hcard
  omega

/-- Halving the path at `x` keeps every root and makes no path longer. -/
theorem halve [DecidableEq α] (x : α) {d : ℕ} {y r : α} (h : RootAt p d y r) :
    ∃ e ≤ d, RootAt (update p x (p (p x))) e y r := by
  induction d using Nat.strong_induction_on generalizing y with
  | _ d ih =>
    by_cases hyx : y = x
    · subst hyx
      cases h with
      | root h => exact ⟨0, le_rfl, .root (by rw [update_self, h, h])⟩
      | step hne up =>
        cases up with
        | root hp =>
          refine ⟨1, le_rfl, .step ?_ ?_⟩
          · rw [update_self, hp]; exact hne
          · rw [update_self, hp]
            exact .root (by rw [update_of_ne hne, hp])
        | step hne' up' =>
          rename_i d
          obtain ⟨e, hle, he⟩ := ih d (by omega) up'
          refine ⟨e + 1, by omega, .step ?_ ?_⟩
          · rw [update_self]
            intro hloop
            have := (up'.unique (hloop ▸ RootAt.step hne (.step hne' up'))).1
            omega
          · rw [update_self]; exact he
    · cases h with
      | root h => exact ⟨0, le_rfl, .root (by rw [update_of_ne hyx, h])⟩
      | step hne up =>
        rename_i d
        obtain ⟨e, hle, he⟩ := ih d (by omega) up
        refine ⟨e + 1, by omega, .step ?_ ?_⟩
        · rw [update_of_ne hyx]; exact hne
        · rw [update_of_ne hyx]; exact he

/-- Linking root `a` under another root `b` moves exactly the tree of `a`. -/
theorem link [DecidableEq α] {a b : α} (ha : p a = a) (hb : p b = b) (hab : a ≠ b) {d : ℕ} {y r : α}
    (h : RootAt p d y r) : ∃ e, RootAt (update p a b) e y (if r = a then b else r) := by
  induction h with
  | @root y h =>
    by_cases hya : y = a
    · subst hya
      rw [if_pos rfl]
      refine ⟨1, .step ?_ ?_⟩
      · rw [update_self]; exact hab.symm
      · rw [update_self]
        exact .root (by rw [update_of_ne hab.symm, hb])
    · rw [if_neg hya]
      exact ⟨0, .root (by rw [update_of_ne hya, h])⟩
  | @step d y r hne up ih =>
    obtain ⟨e, he⟩ := ih
    have hya : y ≠ a := fun h => hne (h ▸ ha)
    refine ⟨e + 1, .step ?_ ?_⟩
    · rw [update_of_ne hya]; exact hne
    · rw [update_of_ne hya]; exact he

end RootAt

/-! ### Forests -/

/-- Every element of `s` has a root, and `s` is closed under parents. -/
structure Forest (p : α → α) (s : Set α) : Prop where
  closed : ∀ x ∈ s, p x ∈ s
  rooted : ∀ x ∈ s, ∃ d r, RootAt p d x r

open Classical in
/-- The root above `x`, when there is one. -/
noncomputable def rootOf (p : α → α) (x : α) : α :=
  if h : ∃ r d, RootAt p d x r then h.choose else x

theorem RootAt.rootOf_eq {d : ℕ} {x r : α} (h : RootAt p d x r) : rootOf p x = r := by
  have hex : ∃ r d, RootAt p d x r := ⟨r, d, h⟩
  unfold rootOf
  rw [dif_pos hex]
  obtain ⟨e, he⟩ := hex.choose_spec
  exact (he.unique h).2

namespace Forest

variable {s : Set α}

theorem id : Forest (fun x : α => x) s := ⟨fun _ h => h, fun _ _ => ⟨0, _, .root rfl⟩⟩

theorem halve [DecidableEq α] (h : Forest p s) {x : α} (hx : x ∈ s) :
    Forest (update p x (p (p x))) s := by
  refine ⟨fun y hy => ?_, fun y hy => ?_⟩
  · by_cases hyx : y = x
    · subst hyx
      rw [update_self]
      exact h.closed _ (h.closed _ hx)
    · rw [update_of_ne hyx]
      exact h.closed y hy
  · obtain ⟨d, r, hr⟩ := h.rooted y hy
    obtain ⟨e, -, he⟩ := hr.halve x
    exact ⟨e, r, he⟩

theorem rootOf_halve [DecidableEq α] (h : Forest p s) (x : α) {y : α} (hy : y ∈ s) :
    rootOf (update p x (p (p x))) y = rootOf p y := by
  obtain ⟨d, r, hr⟩ := h.rooted y hy
  obtain ⟨e, -, he⟩ := hr.halve x
  rw [hr.rootOf_eq, he.rootOf_eq]

theorem link [DecidableEq α] (h : Forest p s) {a b : α} (ha : p a = a) (hb : p b = b) (hab : a ≠ b)
    (hbs : b ∈ s) : Forest (update p a b) s := by
  refine ⟨fun y hy => ?_, fun y hy => ?_⟩
  · by_cases hya : y = a
    · subst hya
      rw [update_self]
      exact hbs
    · rw [update_of_ne hya]
      exact h.closed y hy
  · obtain ⟨d, r, hr⟩ := h.rooted y hy
    obtain ⟨e, he⟩ := hr.link ha hb hab
    exact ⟨e, _, he⟩

theorem rootOf_link [DecidableEq α] (h : Forest p s) {a b : α} (ha : p a = a) (hb : p b = b)
    (hab : a ≠ b) {y : α} (hy : y ∈ s) :
    rootOf (update p a b) y = if rootOf p y = a then b else rootOf p y := by
  obtain ⟨d, r, hr⟩ := h.rooted y hy
  obtain ⟨e, he⟩ := hr.link ha hb hab
  rw [hr.rootOf_eq, he.rootOf_eq]

theorem rootOf_mem (h : Forest p s) {x : α} (hx : x ∈ s) : rootOf p x ∈ s := by
  obtain ⟨d, r, hr⟩ := h.rooted x hx
  rw [hr.rootOf_eq]
  exact hr.mem h.closed hx

theorem rootOf_isRoot (h : Forest p s) {x : α} (hx : x ∈ s) :
    p (rootOf p x) = rootOf p x := by
  obtain ⟨d, r, hr⟩ := h.rooted x hx
  rw [hr.rootOf_eq]
  exact hr.isRoot

end Forest

/-! ### Components of a sharing relation -/

section Components

variable {κ : Type*} {P : α → κ → Prop}

/-- Two elements that have a key in common. -/
def Shares (P : α → κ → Prop) (x y : α) : Prop := ∃ k, P x k ∧ P y k

/-- One more incidence. -/
def addIncidence (P : α → κ → Prop) (i : α) (k : κ) : α → κ → Prop :=
  fun x l => P x l ∨ x = i ∧ l = k

/-- What holds between the incidences seen so far, the roots and the first
owners: roots are equal exactly along chains of shared keys. -/
structure Tracks (s : Set α) (P : α → κ → Prop) (root : α → α) (owner : κ → Option α) : Prop where
  inside : ∀ {x k}, P x k → x ∈ s
  sound : ∀ {x y}, x ∈ s → y ∈ s → root x = root y → Relation.ReflTransGen (Shares P) x y
  complete : ∀ {x y}, Shares P x y → root x = root y
  owns : ∀ {k j}, owner k = some j → P j k
  owned : ∀ {x k}, P x k → owner k ≠ none

theorem Shares.symm {x y : α} (h : Shares P x y) : Shares P y x := by
  obtain ⟨k, hx, hy⟩ := h
  exact ⟨k, hy, hx⟩

theorem Shares.add {x y : α} (i : α) (k : κ) (h : Shares P x y) :
    Shares (addIncidence P i k) x y := by
  obtain ⟨l, hx, hy⟩ := h
  exact ⟨l, .inl hx, .inl hy⟩

theorem chain_add {x y : α} (i : α) (k : κ) (h : Relation.ReflTransGen (Shares P) x y) :
    Relation.ReflTransGen (Shares (addIncidence P i k)) x y :=
  h.lift id fun _ _ => Shares.add i k

theorem chain_symm {x y : α} (h : Relation.ReflTransGen (Shares P) x y) :
    Relation.ReflTransGen (Shares P) y x := by
  induction h with
  | refl => exact .refl
  | tail _ hlast ih => exact .head hlast.symm ih

namespace Tracks

variable {s : Set α} {root : α → α} {owner : κ → Option α}

theorem init (s : Set α) : Tracks s (fun (_ : α) (_ : κ) => False) (fun x => x) fun _ => none where
  inside := False.elim
  sound := by
    rintro x _ - - rfl
    exact .refl
  complete := by
    rintro x y ⟨k, h, -⟩
    exact h.elim
  owns := by
    intro k j h
    cases h
  owned := fun h => h.elim

theorem congr {root' : α → α} (h : Tracks s P root owner) (hroot : ∀ x ∈ s, root' x = root x) :
    Tracks s P root' owner where
  inside := h.inside
  sound := by
    intro x y hx hy heq
    rw [hroot x hx, hroot y hy] at heq
    exact h.sound hx hy heq
  complete := by
    rintro x y ⟨k, hx, hy⟩
    rw [hroot x (h.inside hx), hroot y (h.inside hy)]
    exact h.complete ⟨k, hx, hy⟩
  owns := h.owns
  owned := h.owned

/-- A key that nobody owns yet. -/
theorem own [DecidableEq κ] (h : Tracks s P root owner) {i : α} (hi : i ∈ s) {k : κ}
    (hk : owner k = none) :
    Tracks s (addIncidence P i k) root (update owner k (some i)) where
  inside := by
    rintro x l (hx | ⟨rfl, rfl⟩)
    · exact h.inside hx
    · exact hi
  sound := fun hx hy heq => chain_add i k (h.sound hx hy heq)
  complete := by
    have hnew : ∀ {x}, ¬ P x k := fun hx => h.owned hx hk
    rintro x y ⟨l, hx | ⟨rfl, rfl⟩, hy | ⟨rfl, hl⟩⟩
    · exact h.complete ⟨l, hx, hy⟩
    · exact absurd (hl ▸ hx) hnew
    · exact absurd hy hnew
    · rfl
  owns := by
    intro l j hl
    by_cases hlk : l = k
    · subst hlk
      rw [update_self, Option.some.injEq] at hl
      exact .inr ⟨hl.symm, rfl⟩
    · rw [update_of_ne hlk] at hl
      exact .inl (h.owns hl)
  owned := by
    intro x l hx
    by_cases hlk : l = k
    · subst hlk
      rw [update_self]
      exact Option.some_ne_none i
    · rw [update_of_ne hlk]
      rcases hx with hx | ⟨-, rfl⟩
      · exact h.owned hx
      · exact absurd rfl hlk

/-- A key that `j` owns: the tree of `i` is merged into the tree of `j`. -/
theorem merge [DecidableEq α] (h : Tracks s P root owner) {i j : α} (hi : i ∈ s) {k : κ}
    (hk : owner k = some j) :
    Tracks s (addIncidence P i k) (fun x => if root x = root i then root j else root x) owner where
  inside := by
    rintro x l (hx | ⟨rfl, rfl⟩)
    · exact h.inside hx
    · exact hi
  sound := by
    have hj := h.inside (h.owns hk)
    have hij : Relation.ReflTransGen (Shares (addIncidence P i k)) i j :=
      .single ⟨k, .inr ⟨rfl, rfl⟩, .inl (h.owns hk)⟩
    have old : ∀ {x y}, x ∈ s → y ∈ s → root x = root y →
        Relation.ReflTransGen (Shares (addIncidence P i k)) x y :=
      fun hx hy heq => chain_add i k (h.sound hx hy heq)
    intro x y hx hy heq
    -- A chain that crosses from one of the two trees into the other uses the new key.
    by_cases hxi : root x = root i <;> by_cases hyi : root y = root i
    · exact old hx hy (hxi.trans hyi.symm)
    · rw [if_pos hxi, if_neg hyi] at heq
      exact ((old hx hi hxi).trans hij).trans (old hj hy heq)
    · rw [if_neg hxi, if_pos hyi] at heq
      exact ((old hx hj heq).trans (chain_symm hij)).trans (old hi hy hyi.symm)
    · rw [if_neg hxi, if_neg hyi] at heq
      exact old hx hy heq
  complete := by
    have hnew : ∀ {y}, P y k → root y = root j := fun hy => h.complete ⟨k, hy, h.owns hk⟩
    rintro x y ⟨l, hx | ⟨rfl, rfl⟩, hy | ⟨rfl, hl⟩⟩
    · simp only [h.complete ⟨l, hx, hy⟩]
    · simp [hnew (hl ▸ hx)]
    · simp [hnew hy]
    · rfl
  owns := fun hl => .inl (h.owns hl)
  owned := by
    rintro x l (hx | ⟨rfl, rfl⟩)
    · exact h.owned hx
    · rw [hk]
      exact Option.some_ne_none j

/-- Roots are equal exactly along chains of shared keys. -/
theorem root_eq_iff (h : Tracks s P root owner) {x y : α} (hx : x ∈ s)
    (hy : y ∈ s) : root x = root y ↔ Relation.ReflTransGen (Shares P) x y := by
  refine ⟨h.sound hx hy, fun hchain => ?_⟩
  clear hy
  induction hchain with
  | refl => rfl
  | tail _ hlast ih => exact ih.trans (h.complete hlast)

end Tracks

end Components

end UnionFind
