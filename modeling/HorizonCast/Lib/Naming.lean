import HorizonCast.Lib.UnionFind
import Mathlib.Order.Bounds.Basic

/-! Components named by their least key, or by a text of the element itself when
it carries no key. What a new incidence does to the components, their keys and
their names. -/

namespace UnionFind

section Naming

variable {α κ : Type*} {P : α → κ → Prop}

/-- Two elements are in one component. -/
def Joined (P : α → κ → Prop) (x y : α) : Prop := Relation.ReflTransGen (Shares P) x y

/-- The keys carried in the component of `x`. -/
def keysAt (P : α → κ → Prop) (x : α) : Set κ := {k | ∃ y, Joined P x y ∧ P y k}

theorem Joined.symm {x y : α} (h : Joined P x y) : Joined P y x := chain_symm h

theorem Joined.trans {x y z : α} (h : Joined P x y) (h' : Joined P y z) : Joined P x z :=
  Relation.ReflTransGen.trans h h'

theorem Joined.mono {Q : α → κ → Prop} (hQ : ∀ x k, P x k → Q x k) {x y : α}
    (h : Joined P x y) : Joined Q x y :=
  h.lift id fun _ _ ⟨k, hx, hy⟩ => ⟨k, hQ _ k hx, hQ _ k hy⟩

theorem mem_keysAt {x : α} {k : κ} (h : P x k) : k ∈ keysAt P x := ⟨x, .refl, h⟩

theorem keysAt_of_joined {x y : α} (h : Joined P x y) : keysAt P x = keysAt P y := by
  ext k
  constructor
  · rintro ⟨z, hz, hk⟩
    exact ⟨z, h.symm.trans hz, hk⟩
  · rintro ⟨z, hz, hk⟩
    exact ⟨z, h.trans hz, hk⟩

theorem joined_of_mem_keysAt {x y : α} {k : κ} (hx : k ∈ keysAt P x) (hy : k ∈ keysAt P y) :
    Joined P x y := by
  obtain ⟨x', hx', hkx⟩ := hx
  obtain ⟨y', hy', hky⟩ := hy
  exact hx'.trans (.head ⟨k, hkx, hky⟩ hy'.symm)

/-- An element without keys is alone. -/
theorem eq_of_keyless {x y : α} (hx : keysAt P x = ∅) (h : Joined P x y) : x = y := by
  rcases Relation.ReflTransGen.cases_head h with rfl | ⟨z, ⟨k, hk, -⟩, -⟩
  · rfl
  · exact absurd (mem_keysAt hk) (hx ▸ Set.notMem_empty k)

/-! ### One more incidence -/

variable {i o : α} {k : κ}

theorem Joined.add {x y : α} (h : Joined P x y) : Joined (addIncidence P i k) x y :=
  chain_add i k h

/-- A key that nobody carries joins nothing. -/
theorem joined_add_fresh (hk : ∀ y, ¬ P y k) {x y : α} :
    Joined (addIncidence P i k) x y ↔ Joined P x y := by
  refine ⟨fun h => ?_, Joined.add⟩
  induction h with
  | refl => exact .refl
  | tail _ hlast ih =>
    obtain ⟨l, hx | ⟨rfl, rfl⟩, hy | ⟨rfl, hl⟩⟩ := hlast
    · exact ih.tail ⟨l, hx, hy⟩
    · exact absurd (hl ▸ hx) (hk _)
    · exact absurd hy (hk _)
    · exact ih

theorem mem_keysAt_add_fresh (hk : ∀ y, ¬ P y k) {x : α} {l : κ} :
    l ∈ keysAt (addIncidence P i k) x ↔ l ∈ keysAt P x ∨ l = k ∧ Joined P x i := by
  constructor
  · rintro ⟨y, hy, hl | ⟨rfl, rfl⟩⟩
    · exact .inl ⟨y, (joined_add_fresh hk).mp hy, hl⟩
    · exact .inr ⟨rfl, (joined_add_fresh hk).mp hy⟩
  · rintro (⟨y, hy, hl⟩ | ⟨rfl, hi⟩)
    · exact ⟨y, hy.add, .inl hl⟩
    · exact ⟨i, hi.add, .inr ⟨rfl, rfl⟩⟩

/-- A shared key is an old one, or leads from the component of `o` to `i` or back. -/
theorem Shares.of_add_owned (ho : P o k) {x y : α} (h : Shares (addIncidence P i k) x y) :
    Joined P x y ∨ Joined P x o ∧ Joined P i y ∨ Joined P x i ∧ Joined P o y := by
  obtain ⟨l, hx | ⟨rfl, rfl⟩, hy | ⟨rfl, hl⟩⟩ := h
  · exact .inl (.single ⟨l, hx, hy⟩)
  · exact .inr (.inl ⟨.single ⟨k, hl ▸ hx, ho⟩, .refl⟩)
  · exact .inr (.inr ⟨.refl, .single ⟨_, ho, hy⟩⟩)
  · exact .inl .refl

/-- A key that `o` carries joins the components of `i` and `o`. -/
theorem joined_add_owned (ho : P o k) {x y : α} :
    Joined (addIncidence P i k) x y ↔
      Joined P x y ∨ Joined P x i ∧ Joined P o y ∨ Joined P x o ∧ Joined P i y := by
  have hnew : Joined (addIncidence P i k) i o := .single ⟨k, .inr ⟨rfl, rfl⟩, .inl ho⟩
  constructor
  · intro h
    induction h with
    | refl => exact .inl .refl
    | tail _ hlast ih =>
      rcases ih with hx | ⟨hx, hy⟩ | ⟨hx, hy⟩ <;>
        rcases Shares.of_add_owned ho hlast with hz | ⟨hy', hz⟩ | ⟨hy', hz⟩
      · exact .inl (hx.trans hz)
      · exact .inr (.inr ⟨hx.trans hy', hz⟩)
      · exact .inr (.inl ⟨hx.trans hy', hz⟩)
      · exact .inr (.inl ⟨hx, hy.trans hz⟩)
      · exact .inl (hx.trans hz)
      · exact .inr (.inl ⟨hx, hz⟩)
      · exact .inr (.inr ⟨hx, hy.trans hz⟩)
      · exact .inr (.inr ⟨hx, hz⟩)
      · exact .inl (hx.trans hz)
  · rintro (h | ⟨hx, hy⟩ | ⟨hx, hy⟩)
    · exact h.add
    · exact hx.add.trans (hnew.trans hy.add)
    · exact hx.add.trans (hnew.symm.trans hy.add)

/-- Away from `i` and `o` nothing changes. -/
theorem keysAt_add_owned_of_not (ho : P o k) {x : α} (hi : ¬ Joined P x i) (hxo : ¬ Joined P x o) :
    keysAt (addIncidence P i k) x = keysAt P x := by
  ext l
  constructor
  · rintro ⟨y, hy, hl⟩
    have hy' : Joined P x y := by
      rcases (joined_add_owned ho).mp hy with h | ⟨h, -⟩ | ⟨h, -⟩
      · exact h
      · exact absurd h hi
      · exact absurd h hxo
    rcases hl with hl | ⟨rfl, -⟩
    · exact ⟨y, hy', hl⟩
    · exact absurd hy' hi
  · rintro ⟨y, hy, hl⟩
    exact ⟨y, hy.add, .inl hl⟩

/-- The component of `i` and `o` carries the keys of both. -/
theorem keysAt_add_owned (ho : P o k) {x : α} (hx : Joined P x i ∨ Joined P x o) :
    keysAt (addIncidence P i k) x = keysAt P i ∪ keysAt P o := by
  have hio : Joined (addIncidence P i k) i o :=
    (joined_add_owned ho).mpr (.inr (.inl ⟨.refl, .refl⟩))
  have hxi : Joined (addIncidence P i k) x i := by
    rcases hx with hx | hx
    · exact hx.add
    · exact hx.add.trans hio.symm
  rw [keysAt_of_joined hxi]
  ext l
  constructor
  · rintro ⟨y, hy, hl⟩
    have hy' : Joined P i y ∨ Joined P o y := by
      rcases (joined_add_owned ho).mp hy with h | ⟨-, h⟩ | ⟨-, h⟩
      · exact .inl h
      · exact .inr h
      · exact .inl h
    rcases hl with hl | ⟨rfl, rfl⟩
    · exact hy'.imp (fun h => ⟨y, h, hl⟩) fun h => ⟨y, h, hl⟩
    · exact .inr (mem_keysAt ho)
  · rintro (⟨y, hy, hl⟩ | ⟨y, hy, hl⟩)
    · exact ⟨y, hy.add, .inl hl⟩
    · exact ⟨y, hio.trans hy.add, .inl hl⟩

/-! ### Names -/

section Names

variable [LinearOrder κ] {text : α → κ}

/-- The name of the component of `x`: its least key, or the text of `x` when it
has no key. -/
def IsName (P : α → κ → Prop) (text : α → κ) (x : α) (n : κ) : Prop :=
  IsLeast (keysAt P x) n ∨ keysAt P x = ∅ ∧ n = text x

theorem IsName.of_joined {x y : α} {n : κ} (h : IsName P text x n) (hxy : Joined P x y) :
    IsName P text y n := by
  rcases h with h | ⟨hnone, rfl⟩
  · exact .inl (keysAt_of_joined hxy ▸ h)
  · obtain rfl := eq_of_keyless hnone hxy
    exact .inr ⟨hnone, rfl⟩

theorem IsName.unique {x : α} {n m : κ} (h : IsName P text x n) (h' : IsName P text x m) :
    n = m := by
  rcases h with h | ⟨hnone, rfl⟩ <;> rcases h' with h' | ⟨hnone', rfl⟩
  · exact h.unique h'
  · exact absurd h.1 (hnone' ▸ Set.notMem_empty n)
  · exact absurd h'.1 (hnone ▸ Set.notMem_empty m)
  · rfl

/-- Two components have one name only when the text of one, which has no key, is
the least key of the other. -/
theorem IsName.clash (htext : Function.Injective text) {x y : α} {n : κ}
    (hx : IsName P text x n) (hy : IsName P text y n) (hxy : ¬ Joined P x y) :
    keysAt P x = ∅ ∧ IsLeast (keysAt P y) (text x) ∨
      keysAt P y = ∅ ∧ IsLeast (keysAt P x) (text y) := by
  rcases hx with hx | ⟨hxnone, rfl⟩ <;> rcases hy with hy | ⟨hynone, hn⟩
  · exact absurd (joined_of_mem_keysAt hx.1 hy.1) hxy
  · exact .inr ⟨hynone, hn ▸ hx⟩
  · exact .inl ⟨hxnone, hy⟩
  · exact absurd (htext hn ▸ .refl) hxy

theorem IsName.congr {P' : α → κ → Prop} {x : α} {n : κ} (h : IsName P text x n)
    (hkeys : keysAt P' x = keysAt P x) : IsName P' text x n := by
  unfold IsName
  rwa [hkeys]

/-- A fresh key below every other key of its component becomes the name of it. -/
theorem isName_add_fresh (hk : ∀ y, ¬ P y k) {x : α} (hx : Joined P x i)
    (hlt : ∀ l ∈ keysAt P x, k < l) : IsName (addIncidence P i k) text x k := by
  refine .inl ⟨(mem_keysAt_add_fresh hk).mpr (.inr ⟨rfl, hx⟩), fun l hl => ?_⟩
  rcases (mem_keysAt_add_fresh hk).mp hl with hl | ⟨rfl, -⟩
  · exact (hlt l hl).le
  · exact le_rfl

/-- Any other fresh key leaves the names as they are. -/
theorem IsName.add_fresh (hk : ∀ y, ¬ P y k) {x : α} {n : κ} (h : IsName P text x n)
    (hx : Joined P x i → ∃ l ∈ keysAt P x, l ≤ k) : IsName (addIncidence P i k) text x n := by
  by_cases hxi : Joined P x i
  · obtain ⟨l, hl, hlk⟩ := hx hxi
    rcases h with h | ⟨hnone, -⟩
    · refine .inl ⟨(mem_keysAt_add_fresh hk).mpr (.inl h.1), fun l' hl' => ?_⟩
      rcases (mem_keysAt_add_fresh hk).mp hl' with hl' | ⟨rfl, -⟩
      · exact h.2 hl'
      · exact (h.2 hl).trans hlk
    · exact absurd hl (hnone ▸ Set.notMem_empty l)
  · refine h.congr (Set.ext fun l => (mem_keysAt_add_fresh hk).trans ?_)
    exact or_iff_left fun hl => hxi hl.2

/-- A shared key leaves the names of other components as they are. -/
theorem IsName.add_owned_of_not (ho : P o k) {x : α} {n : κ} (h : IsName P text x n)
    (hxi : ¬ Joined P x i) (hxo : ¬ Joined P x o) : IsName (addIncidence P i k) text x n :=
  h.congr (keysAt_add_owned_of_not ho hxi hxo)

theorem IsName.isLeast {x : α} {n : κ} (h : IsName P text x n) (hx : P x k) :
    IsLeast (keysAt P x) n := by
  rcases h with h | ⟨hnone, -⟩
  · exact h
  · exact absurd (mem_keysAt hx) (hnone ▸ Set.notMem_empty k)

/-- An element without keys that gets a key of `o` takes the name of `o`. -/
theorem IsName.add_owned_keyless (ho : P o k) {x : α} {m : κ} (hm : IsName P text o m)
    (hi : keysAt P i = ∅) (hx : Joined P x i ∨ Joined P x o) :
    IsName (addIncidence P i k) text x m := by
  have hkeys := keysAt_add_owned (i := i) ho hx
  rw [hi, Set.empty_union] at hkeys
  exact .inl (hkeys ▸ hm.isLeast ho)

/-- The component that a shared key makes has one of the two names. -/
theorem IsName.add_owned (ho : P o k) {x : α} {n m : κ} (hi : IsName P text i n)
    (hm : IsName P text o m) (hx : Joined P x i ∨ Joined P x o) :
    IsName (addIncidence P i k) text x n ∨ IsName (addIncidence P i k) text x m := by
  rcases hi with hi | ⟨hnone, -⟩
  · have hmin := hi.union (hm.isLeast ho)
    rw [← keysAt_add_owned (i := i) ho hx] at hmin
    rcases min_choice n m with h | h
    · exact .inl (.inl (h ▸ hmin))
    · exact .inr (.inl (h ▸ hmin))
  · exact .inr (hm.add_owned_keyless ho hnone hx)

end Names

end Naming

end UnionFind
