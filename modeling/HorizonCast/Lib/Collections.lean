import Mathlib.Data.List.AList
import Mathlib.Data.List.Induction
import Mathlib.Data.List.Perm.Basic
import Mathlib.Data.List.Sort
import Mathlib.Data.Nat.Find
import Mathlib.Order.Defs.LinearOrder

/-! The collections of the Rust standard library that the model uses. A `BTreeSet`
is its increasing list of members. A `HashMap` is an association list without
duplicate keys; the order in which it yields its entries is any permutation. -/

namespace Collections

variable {α β κ σ : Type*}

/-! ### Ordered sets -/

/-- `BTreeSet`: the members in strictly increasing order. -/
@[ext] structure BTreeSet (α : Type*) [LinearOrder α] where
  toList : List α
  sorted : toList.Pairwise (· < ·)
  deriving DecidableEq

section BTreeSet

variable [LinearOrder α]

def insertLt (a : α) : List α → List α
  | [] => [a]
  | b :: l => if a < b then a :: b :: l else if a = b then b :: l else b :: insertLt a l

theorem mem_insertLt {a b : α} {l : List α} : b ∈ insertLt a l ↔ b = a ∨ b ∈ l := by
  induction l with
  | nil => simp [insertLt]
  | cons c l ih =>
    unfold insertLt
    split_ifs with hlt heq
    · simp
    · simp [heq]
    · simp only [List.mem_cons, ih]
      tauto

theorem pairwise_insertLt (a : α) {l : List α} (h : l.Pairwise (· < ·)) :
    (insertLt a l).Pairwise (· < ·) := by
  induction l with
  | nil => exact List.pairwise_singleton _ a
  | cons c l ih =>
    obtain ⟨hc, hl⟩ := List.pairwise_cons.mp h
    unfold insertLt
    split_ifs with hlt heq
    · refine List.pairwise_cons.mpr ⟨fun b hb => ?_, h⟩
      rcases List.mem_cons.mp hb with rfl | hb
      · exact hlt
      · exact hlt.trans (hc b hb)
    · exact h
    · refine List.pairwise_cons.mpr ⟨fun b hb => ?_, ih hl⟩
      rcases mem_insertLt.mp hb with rfl | hb
      · exact lt_of_le_of_ne (le_of_not_gt hlt) (Ne.symm heq)
      · exact hc b hb

namespace BTreeSet

def empty : BTreeSet α := ⟨[], .nil⟩

def insert (a : α) (s : BTreeSet α) : BTreeSet α :=
  ⟨insertLt a s.toList, pairwise_insertLt a s.sorted⟩

instance : Membership α (BTreeSet α) := ⟨fun s a => a ∈ s.toList⟩

theorem mem_insert {a b : α} {s : BTreeSet α} : b ∈ s.insert a ↔ b = a ∨ b ∈ s := mem_insertLt

/-- The set of the elements of a list, inserted in order. -/
def ofList (l : List α) : BTreeSet α := l.foldl (fun s a => s.insert a) empty

theorem ofList_concat (l : List α) (a : α) : ofList (l ++ [a]) = (ofList l).insert a := by
  simp [ofList]

/-- An insertion of a member changes nothing. -/
theorem insert_of_mem {a : α} {s : BTreeSet α} (h : a ∈ s) : s.insert a = s := by
  refine BTreeSet.ext ((s.insert a).sorted.eq_of_mem_iff s.sorted fun b => ?_)
  rw [insert, mem_insertLt, or_iff_right_of_imp]
  rintro rfl
  exact h

theorem mem_ofList {l : List α} {a : α} : a ∈ ofList l ↔ a ∈ l := by
  induction l using List.reverseRecOn with
  | nil => exact Iff.rfl
  | append_singleton l b ih => rw [ofList_concat, mem_insert, ih, List.mem_append,
      List.mem_singleton, or_comm]

end BTreeSet

end BTreeSet

/-! ### Hash maps -/

/-- An order of iteration over a hash map. -/
structure IterOrder (α : Type*) where
  order : List α → List α
  perm : ∀ l, (order l).Perm l

variable [DecidableEq κ]

/-- `HashMap::retain`. -/
def retain (p : κ → β → Bool) (m : AList fun _ : κ => β) : AList fun _ : κ => β :=
  ⟨m.entries.filter fun e => p e.1 e.2, m.nodupKeys.sublist List.filter_sublist⟩

theorem lookup_retain (p : κ → β → Bool) (m : AList fun _ : κ => β) (k : κ) :
    (retain p m).lookup k = (m.lookup k).filter (p k) := by
  ext b
  rw [Option.filter_eq_some_iff, ← Option.mem_def, ← Option.mem_def, AList.mem_lookup_iff,
    AList.mem_lookup_iff, retain, List.mem_filter]

/-- `entry(k).or_default().push(a)` on a map to lists. -/
def pushAt (m : AList fun _ : κ => List α) (k : κ) (a : α) : AList fun _ : κ => List α :=
  m.insert k ((m.lookup k).getD [] ++ [a])

/-- `entry(k).or_insert(b)`: what is there already stays. -/
theorem lookup_orInsert (m : AList fun _ : κ => β) (k : κ) (b : β) (k' : κ) :
    (if k ∈ m then m else m.insert k b).lookup k' =
      (m.lookup k').or (if k = k' then some b else none) := by
  by_cases hk : k = k'
  · subst hk
    rw [if_pos rfl]
    split_ifs with hmem
    · obtain ⟨old, hold⟩ := Option.isSome_iff_exists.mp (AList.lookup_isSome.mpr hmem)
      rw [hold, Option.some_or]
    · rw [AList.lookup_insert, AList.lookup_eq_none.mpr hmem, Option.none_or]
  · rw [if_neg hk, Option.or_none]
    split_ifs with hmem
    · rfl
    · exact AList.lookup_insert_ne (Ne.symm hk)

def values (m : AList fun _ : κ => β) : List β := m.entries.map Sigma.snd

theorem mem_values {m : AList fun _ : κ => β} {b : β} :
    b ∈ values m ↔ ∃ k, m.lookup k = some b := by
  unfold values
  rw [List.mem_map]
  constructor
  · rintro ⟨⟨k, b⟩, hmem, rfl⟩
    exact ⟨k, AList.mem_lookup_iff.mpr hmem⟩
  · rintro ⟨k, hk⟩
    exact ⟨⟨k, b⟩, AList.mem_lookup_iff.mp hk, rfl⟩

/-! ### Grouping -/

/-- The map `m` holds the elements of `l` grouped by `f`, each group in the
order of `l`. -/
def GroupedBy (f : α → κ) (l : List α) (m : AList fun _ : κ => List α) : Prop :=
  ∀ k, m.lookup k = if l.filter (f · = k) = [] then none else some (l.filter (f · = k))

theorem groupedBy_empty (f : α → κ) : GroupedBy f [] (∅ : AList fun _ : κ => List α) := by
  intro k
  simp

theorem GroupedBy.push {f : α → κ} {l : List α} {m : AList fun _ : κ => List α}
    (h : GroupedBy f l m) (a : α) : GroupedBy f (l ++ [a]) (pushAt m (f a) a) := by
  intro k
  unfold pushAt
  by_cases hk : f a = k
  · subst hk
    have hget : (m.lookup (f a)).getD [] = l.filter (f · = f a) := by
      rw [h (f a)]
      split_ifs with hnil
      · exact hnil.symm
      · rfl
    simp [AList.lookup_insert, hget]
  · rw [AList.lookup_insert_ne (Ne.symm hk), h k]
    simp [hk]

/-- The groups of a list partition it by the key. -/
structure Partition (same : α → α → Prop) (l : List α) (gs : List (List α)) : Prop where
  nonempty : ∀ g ∈ gs, g ≠ []
  disjoint : gs.Pairwise List.Disjoint
  covers : ∀ a ∈ l, ∃ g ∈ gs, a ∈ g
  inside : ∀ g ∈ gs, ∀ a ∈ g, a ∈ l
  group : ∀ g ∈ gs, ∀ a ∈ g, ∀ b ∈ l, b ∈ g ↔ same a b

theorem Partition.perm {same : α → α → Prop} {l : List α} {gs gs' : List (List α)}
    (h : Partition same l gs) (hp : gs'.Perm gs) : Partition same l gs' where
  nonempty g hg := h.nonempty g (hp.mem_iff.mp hg)
  disjoint := by
    refine (hp.pairwise_iff ?_).mpr h.disjoint
    intro g g' hd a ha ha'
    exact hd ha' ha
  covers a ha := by
    obtain ⟨g, hg, hag⟩ := h.covers a ha
    exact ⟨g, hp.mem_iff.mpr hg, hag⟩
  inside g hg := h.inside g (hp.mem_iff.mp hg)
  group g hg := h.group g (hp.mem_iff.mp hg)

theorem GroupedBy.partition {f : α → κ} {l : List α} {m : AList fun _ : κ => List α}
    (h : GroupedBy f l m) : Partition (fun a b => f a = f b) l (values m) := by
  have hlookup : ∀ {k g}, m.lookup k = some g → g ≠ [] ∧ g = l.filter (f · = k) := by
    intro k g hk
    rw [h k] at hk
    split_ifs at hk with hnil
    cases hk
    exact ⟨hnil, rfl⟩
  refine ⟨?_, ?_, ?_, ?_, ?_⟩
  · intro g hg
    obtain ⟨k, hk⟩ := mem_values.mp hg
    exact (hlookup hk).1
  · -- Groups of different keys have no common element.
    refine List.pairwise_map.mpr ((List.nodupKeys_iff_pairwise.mp m.nodupKeys).imp_of_mem ?_)
    intro e e' he he' hne a ha ha'
    rw [(hlookup (AList.mem_lookup_iff.mpr he)).2, List.mem_filter] at ha
    rw [(hlookup (AList.mem_lookup_iff.mpr he')).2, List.mem_filter] at ha'
    exact hne ((of_decide_eq_true ha.2).symm.trans (of_decide_eq_true ha'.2))
  · intro a ha
    have hmem : a ∈ l.filter (f · = f a) := List.mem_filter.mpr ⟨ha, decide_eq_true rfl⟩
    refine ⟨l.filter (f · = f a), mem_values.mpr ⟨f a, ?_⟩, hmem⟩
    rw [h (f a), if_neg (List.ne_nil_of_mem hmem)]
  · intro g hg a ha
    obtain ⟨k, hk⟩ := mem_values.mp hg
    rw [(hlookup hk).2] at ha
    exact (List.mem_filter.mp ha).1
  · intro g hg a ha b hb
    obtain ⟨k, hk⟩ := mem_values.mp hg
    rw [(hlookup hk).2, List.mem_filter] at ha ⊢
    have hak : f a = k := of_decide_eq_true ha.2
    rw [hak]
    simp [hb, eq_comm]

/-! ### Loops with an index -/

/-- What a loop over the elements with their indices keeps. -/
theorem foldl_zipIdx_invariant {f : σ → α × ℕ → σ} (Inv : List α → σ → Prop) {s : σ}
    (init : Inv [] s)
    (next : ∀ pre x s, Inv pre s → Inv (pre ++ [x]) (f s (x, pre.length))) (l : List α) :
    Inv l (l.zipIdx.foldl f s) := by
  induction l using List.reverseRecOn with
  | nil => exact init
  | append_singleton l x ih =>
    rw [List.zipIdx_append, List.foldl_append, Nat.zero_add]
    exact next l x _ ih

/-! ### First occurrences -/

/-- The first result is there before an element that is met again. -/
theorem findSome?_concat_of_mem {l : List α} {a : α} (f : α → Option β) (h : a ∈ l) :
    (l ++ [a]).findSome? f = l.findSome? f := by
  rw [List.findSome?_append]
  cases hfirst : l.findSome? f with
  | none => simp [List.findSome?_eq_none_iff.mp hfirst a h]
  | some b => rfl

theorem find?_concat_of_mem {l : List α} {a : α} (p : α → Bool) (h : a ∈ l) :
    (l ++ [a]).find? p = l.find? p := by
  rw [List.find?_append]
  cases hfirst : l.find? p with
  | none => simpa using List.find?_eq_none.mp hfirst a h
  | some b => rfl

theorem eraseDups_concat [BEq α] [LawfulBEq α] [DecidableEq α] (l : List α) (a : α) :
    (l ++ [a]).eraseDups = if a ∈ l.eraseDups then l.eraseDups else l.eraseDups ++ [a] := by
  rw [List.eraseDups_append]
  by_cases h : a ∈ l
  · have hnil : [a].removeAll l = [] := by simpa [List.removeAll] using h
    rw [hnil, if_pos (List.mem_eraseDups.mpr h), List.eraseDups_nil, List.append_nil]
  · have hone : [a].removeAll l = [a] := by simpa [List.removeAll] using h
    rw [hone, if_neg (mt List.mem_eraseDups.mp h)]
    rfl

/-- The loop that pushes each element that is not there yet. -/
theorem foldl_push_eq_eraseDups [BEq α] [LawfulBEq α] [DecidableEq α] (l : List α) :
    l.foldl (fun as a => if a ∈ as then as else as ++ [a]) [] = l.eraseDups := by
  induction l using List.reverseRecOn with
  | nil => rfl
  | append_singleton l a ih =>
    rw [List.foldl_append, ih, eraseDups_concat]
    rfl

theorem nodup_eraseDups [BEq α] [LawfulBEq α] [DecidableEq α] (l : List α) :
    l.eraseDups.Nodup := by
  induction l using List.reverseRecOn with
  | nil => exact List.nodup_nil
  | append_singleton l a ih =>
    rw [eraseDups_concat]
    split_ifs with h
    · exact ih
    · exact List.nodup_append.mpr ⟨ih, List.nodup_singleton a, fun b hb c hc hbc => by
        rw [List.mem_singleton.mp hc] at hbc
        exact h (hbc ▸ hb)⟩

/-! ### The first in order -/

section FirstOf

variable [LinearOrder α] {f : α → Option β} {l l' : List α}

/-- The value is that of the least element of `l` where `f` has one. -/
def FirstOf (f : α → Option β) (l : List α) : Option β → Prop
  | none => ∀ a ∈ l, f a = none
  | some b => ∃ a ∈ l, f a = some b ∧ ∀ a' ∈ l, a' < a → f a' = none

theorem firstOf_findSome? (f : α → Option β) {l : List α} (h : l.Pairwise (· ≤ ·)) :
    FirstOf f l (l.findSome? f) := by
  cases hfind : l.findSome? f with
  | none => exact List.findSome?_eq_none_iff.mp hfind
  | some b =>
    obtain ⟨before, a, after, rfl, ha, hnone⟩ := List.findSome?_eq_some_iff.mp hfind
    refine ⟨a, by simp, ha, fun a' ha' hlt => ?_⟩
    rcases List.mem_append.mp ha' with ha' | ha'
    · exact hnone a' ha'
    · have hle : a ≤ a' := by
        rcases List.mem_cons.mp ha' with rfl | ha'
        · exact le_rfl
        · exact (List.pairwise_cons.mp (List.pairwise_append.mp h).2.1).1 a' ha'
      exact absurd hlt (not_lt.mpr hle)

theorem FirstOf.isSome_iff {v : Option β} (h : FirstOf f l v) :
    v.isSome ↔ ∃ a ∈ l, (f a).isSome := by
  cases v with
  | none =>
    refine iff_of_false (by simp) ?_
    rintro ⟨a, ha, hsome⟩
    rw [h a ha] at hsome
    cases hsome
  | some b =>
    obtain ⟨a, ha, hfa, -⟩ := h
    exact iff_of_true rfl ⟨a, ha, by rw [hfa]; rfl⟩

theorem FirstOf.unique {v v' : Option β} (h : FirstOf f l v) (h' : FirstOf f l' v')
    (hmem : ∀ a, a ∈ l ↔ a ∈ l') : v = v' := by
  have hsome : v.isSome = true ↔ v'.isSome = true := by
    rw [h.isSome_iff, h'.isSome_iff]
    simp only [hmem]
  cases v with
  | none => cases v' <;> simp_all
  | some b =>
    cases v' with
    | none => simp at hsome
    | some b' =>
      obtain ⟨a, ha, hfa, hbefore⟩ := h
      obtain ⟨a', ha', hfa', hbefore'⟩ := h'
      rcases lt_trichotomy a a' with hlt | rfl | hlt
      · cases hfa.symm.trans (hbefore' a ((hmem a).mp ha) hlt)
      · exact hfa.symm.trans hfa'
      · cases hfa'.symm.trans (hbefore a' ((hmem a').mpr ha') hlt)

end FirstOf

/-! ### What came since -/

section Since

variable {p : List α → Prop} [DecidablePred p]

/-- How many items had come when `p` last held of what had come by then. -/
def lastHeld (p : List α → Prop) [DecidablePred p] (l : List α) : ℕ :=
  Nat.findGreatest (fun n => p (l.take n)) l.length

/-- What came since then. -/
def since (p : List α → Prop) [DecidablePred p] (l : List α) : List α := l.drop (lastHeld p l)

theorem lastHeld_le (l : List α) : lastHeld p l ≤ l.length := Nat.findGreatest_le _

theorem lastHeld_of_holds {l : List α} (h : p l) : lastHeld p l = l.length := by
  refine le_antisymm (lastHeld_le l) (Nat.le_findGreatest le_rfl ?_)
  rwa [List.take_length]

theorem lastHeld_concat {l : List α} {a : α} (h : ¬ p (l ++ [a])) :
    lastHeld p (l ++ [a]) = lastHeld p l := by
  -- Up to the items before `a` both searches look at the same prefixes.
  have hsame : ∀ {n}, n ≤ l.length → (l ++ [a]).take n = l.take n :=
    fun hn => List.take_append_of_le_length hn
  have hlen : (l ++ [a]).length = l.length + 1 := by simp
  obtain ⟨hle, hat, hafter⟩ := Nat.findGreatest_eq_iff.mp (rfl : lastHeld p l = lastHeld p l)
  unfold lastHeld at hle hat hafter ⊢
  rw [hlen, Nat.findGreatest_of_not (by rwa [← hlen, List.take_length])]
  refine Nat.findGreatest_eq_iff.mpr ⟨hle, fun hne => ?_, fun n hn hnle => ?_⟩
  · rw [hsame hle]
    exact hat hne
  · rw [hsame hnle]
    exact hafter hn hnle

theorem since_of_holds {l : List α} (h : p l) : since p l = [] := by
  rw [since, lastHeld_of_holds h, List.drop_length]

theorem since_concat {l : List α} {a : α} (h : ¬ p (l ++ [a])) :
    since p (l ++ [a]) = since p l ++ [a] := by
  rw [since, since, lastHeld_concat h, List.drop_append_of_le_length (lastHeld_le l)]

end Since

/-! ### Fields that are written once -/

section Writes

variable {κ ω : Type*} {writes : α → κ → ω → Prop}

/-- No two elements of the list write one field. -/
def WrittenOnce (writes : α → κ → ω → Prop) (l : List α) : Prop :=
  l.Pairwise fun a b => ∀ k v w, writes a k v → ¬ writes b k w

theorem WrittenOnce.perm {l l' : List α} (h : WrittenOnce writes l) (hperm : l.Perm l') :
    WrittenOnce writes l' := by
  refine hperm.pairwise h ?_
  intro a b hab k v w hb ha
  exact hab k w v ha hb

/-- A loop leaves in each field what the one element that writes the field wrote. -/
theorem foldl_writes {step : σ → α → σ} {get : σ → κ → Option ω}
    (wrote : ∀ s a k v, writes a k v → get (step s a) k = some v)
    (kept : ∀ s a k, (∀ v, ¬ writes a k v) → get (step s a) k = get s k) {s : σ}
    (init : ∀ k, get s k = none) {l : List α} (once : WrittenOnce writes l) (k : κ) (v : ω) :
    get (l.foldl step s) k = some v ↔ ∃ a ∈ l, writes a k v := by
  induction l using List.reverseRecOn with
  | nil => simp [init]
  | append_singleton l a ih =>
    obtain ⟨honce, -, hlast⟩ := List.pairwise_append.mp once
    rw [List.foldl_append, List.foldl_cons, List.foldl_nil]
    by_cases ha : ∃ w, writes a k w
    · obtain ⟨w, hw⟩ := ha
      rw [wrote _ a k w hw, Option.some.injEq]
      constructor
      · rintro rfl
        exact ⟨a, by simp, hw⟩
      · rintro ⟨b, hb, hv⟩
        rcases List.mem_append.mp hb with hb | hb
        · exact absurd hw (hlast b hb a (List.mem_singleton_self a) k v w hv)
        · rw [List.mem_singleton.mp hb] at hv
          exact Option.some.inj ((wrote s a k w hw).symm.trans (wrote s a k v hv))
    · have hnot : ∀ w, ¬ writes a k w := fun w hw => ha ⟨w, hw⟩
      rw [kept _ a k hnot, ih honce]
      constructor
      · rintro ⟨b, hb, hv⟩
        exact ⟨b, List.mem_append_left _ hb, hv⟩
      · rintro ⟨b, hb, hv⟩
        rcases List.mem_append.mp hb with hb | hb
        · exact ⟨b, hb, hv⟩
        · rw [List.mem_singleton.mp hb] at hv
          exact absurd hv (hnot v)

end Writes

/-! ### Loops that can fail -/

/-- A loop that keeps an invariant of the elements done so far ends with all
elements done. -/
theorem foldlM_invariant (step : σ → α → Option σ) (Inv : List α → σ → Prop) {l : List α} {s : σ}
    (init : Inv [] s)
    (next : ∀ pre a post, l = pre ++ a :: post → ∀ s, Inv pre s →
      ∃ s', step s a = some s' ∧ Inv (pre ++ [a]) s') :
    ∃ s', l.foldlM step s = some s' ∧ Inv l s' := by
  suffices h : ∀ post pre s, l = pre ++ post → Inv pre s →
      ∃ s', post.foldlM step s = some s' ∧ Inv l s' from h l [] s rfl init
  intro post
  induction post with
  | nil =>
    intro pre s hl hs
    rw [List.append_nil] at hl
    exact ⟨s, rfl, hl ▸ hs⟩
  | cons a post ih =>
    intro pre s hl hs
    obtain ⟨s', hstep, hs'⟩ := next pre a post hl s hs
    obtain ⟨t, ht, hinv⟩ := ih (pre ++ [a]) s' (by rw [hl, List.append_assoc]; rfl) hs'
    refine ⟨t, ?_, hinv⟩
    rw [List.foldlM_cons, hstep]
    exact ht

theorem mapM_some {f : α → Option β} {l : List α} (h : ∀ a ∈ l, ∃ b, f a = some b) :
    ∃ bs, l.mapM f = some bs ∧ List.Forall₂ (fun a b => f a = some b) l bs := by
  induction l with
  | nil => exact ⟨[], rfl, .nil⟩
  | cons a l ih =>
    obtain ⟨b, hb⟩ := h a (by simp)
    obtain ⟨bs, hbs, hall⟩ := ih fun c hc => h c (by simp [hc])
    refine ⟨b :: bs, ?_, .cons hb hall⟩
    rw [List.mapM_cons, hb, hbs]
    rfl

theorem exists_mapM {f : α → Option β} {l : List α} (h : ∀ a ∈ l, ∃ b, f a = some b) :
    ∃ bs, l.mapM f = some bs :=
  (mapM_some h).imp fun _ hbs => hbs.1

theorem mapM_congr {f g : α → Option β} {l : List α} (h : ∀ a ∈ l, f a = g a) :
    l.mapM f = l.mapM g := by
  induction l with
  | nil => rfl
  | cons a l ih =>
    rw [List.mapM_cons, List.mapM_cons, h a (by simp), ih fun b hb => h b (by simp [hb])]

/-- Making something of every result is making it of the list of results. -/
theorem mapM_map_result {γ : Type*} (f : α → Option β) (g : β → γ) (l : List α) :
    (l.mapM fun a => (f a).map g) = (l.mapM f).map (List.map g) := by
  induction l with
  | nil => rfl
  | cons a l ih =>
    rw [List.mapM_cons, List.mapM_cons, ih]
    cases f a with
    | none => rfl
    | some b =>
      cases l.mapM f with
      | none => rfl
      | some bs => rfl

theorem mem_of_mapM {f : α → Option β} {l : List α} {bs : List β} (h : l.mapM f = some bs)
    {b : β} : b ∈ bs ↔ ∃ a ∈ l, f a = some b := by
  induction l generalizing bs with
  | nil =>
    cases h
    simp
  | cons a l ih =>
    rw [List.mapM_cons] at h
    obtain ⟨b', hb', h⟩ := Option.bind_eq_some_iff.mp h
    obtain ⟨bs', hbs', h⟩ := Option.bind_eq_some_iff.mp h
    cases h
    rw [List.mem_cons, ih hbs', List.exists_mem_cons_iff, hb', Option.some.injEq, eq_comm]

theorem length_of_mapM {f : α → Option β} {l : List α} {bs : List β} (h : l.mapM f = some bs) :
    bs.length = l.length := by
  induction l generalizing bs with
  | nil =>
    cases h
    rfl
  | cons a l ih =>
    rw [List.mapM_cons] at h
    obtain ⟨b, -, h⟩ := Option.bind_eq_some_iff.mp h
    obtain ⟨bs', hbs', h⟩ := Option.bind_eq_some_iff.mp h
    cases h
    rw [List.length_cons, ih hbs', List.length_cons]

theorem getElem?_of_mapM {f : α → Option β} {l : List α} {bs : List β} (h : l.mapM f = some bs)
    (i : ℕ) : bs[i]? = l[i]?.bind f := by
  induction l generalizing bs i with
  | nil =>
    cases h
    rfl
  | cons a l ih =>
    rw [List.mapM_cons] at h
    obtain ⟨b, hb, h⟩ := Option.bind_eq_some_iff.mp h
    obtain ⟨bs', hbs', h⟩ := Option.bind_eq_some_iff.mp h
    cases h
    cases i with
    | zero => exact hb.symm
    | succ i => exact ih hbs' i

theorem some_of_mapM_range {f : ℕ → Option β} {n : ℕ} {bs : List β}
    (h : (List.range n).mapM f = some bs) {i : ℕ} (hi : i < n) :
    ∃ b, f i = some b ∧ bs[i]? = some b := by
  have hlen := length_of_mapM h
  rw [List.length_range] at hlen
  have hget := getElem?_of_mapM h i
  rw [List.getElem?_range hi, Option.bind_some, List.getElem?_eq_getElem (by omega)] at hget
  exact ⟨_, hget.symm, List.getElem?_eq_getElem (by omega)⟩

/-- Indexing a list of lists of one length. -/
theorem getElem?_flatten {bss : List (List β)} {n : ℕ} (h : ∀ bs ∈ bss, bs.length = n) (i : ℕ)
    {j : ℕ} (hj : j < n) : bss.flatten[i * n + j]? = bss[i]?.bind (·[j]?) := by
  induction bss generalizing i with
  | nil => rfl
  | cons bs bss ih =>
    have hlen := h bs (by simp)
    rw [List.flatten_cons]
    cases i with
    | zero =>
      rw [Nat.zero_mul, Nat.zero_add, List.getElem?_append_left (by omega)]
      rfl
    | succ i =>
      have hindex : (i + 1) * n + j - bs.length = i * n + j := by
        rw [Nat.succ_mul, hlen]
        omega
      rw [List.getElem?_append_right (by rw [hlen, Nat.succ_mul]; omega), hindex]
      exact ih (fun bs hbs => h bs (by simp [hbs])) i

theorem length_flatten_eq {bss : List (List β)} {n : ℕ} (h : ∀ bs ∈ bss, bs.length = n) :
    bss.flatten.length = bss.length * n := by
  have hall : bss.map List.length = List.replicate bss.length n := by
    refine List.eq_replicate_iff.mpr ⟨List.length_map _, fun k hk => ?_⟩
    obtain ⟨bs, hbs, rfl⟩ := List.mem_map.mp hk
    exact h bs hbs
  rw [List.length_flatten, hall, List.sum_replicate_nat]

theorem length_flatten_of_mapM {f : α → Option (List β)} {l : List α} {bss : List (List β)} {n : ℕ}
    (h : l.mapM f = some bss) (hn : ∀ a ∈ l, ∀ bs, f a = some bs → bs.length = n) :
    bss.flatten.length = l.length * n := by
  rw [← length_of_mapM h]
  apply length_flatten_eq
  intro bs hbs
  obtain ⟨a, ha, hab⟩ := (mem_of_mapM h).mp hbs
  exact hn a ha bs hab

/-- Looking through the values is looking through what they are the values of. -/
theorem findSome?_mapM {γ : Type*} {f : α → Option β} (g : β → Option γ) {l : List α} {bs : List β}
    (h : l.mapM f = some bs) : bs.findSome? g = l.findSome? fun a => (f a).bind g := by
  induction l generalizing bs with
  | nil =>
    cases h
    rfl
  | cons a l ih =>
    simp only [List.mapM_cons, Option.bind_eq_bind, Option.bind_eq_some_iff] at h
    obtain ⟨b, hb, bs, hbs, heq⟩ := h
    cases heq
    rw [List.findSome?_cons, List.findSome?_cons, hb, ih hbs]
    rfl

theorem exists_left_of_forall₂ {R : α → β → Prop} {l : List α} {m : List β}
    (h : List.Forall₂ R l m) {b : β} (hb : b ∈ m) : ∃ a ∈ l, R a b := by
  induction h with
  | nil => cases hb
  | @cons a c l m hac _ ih =>
    rcases List.mem_cons.mp hb with rfl | hb
    · exact ⟨a, by simp, hac⟩
    · obtain ⟨a', ha', hR⟩ := ih hb
      exact ⟨a', by simp [ha'], hR⟩

theorem exists_right_of_forall₂ {R : α → β → Prop} {l : List α} {m : List β}
    (h : List.Forall₂ R l m) {a : α} (ha : a ∈ l) : ∃ b ∈ m, R a b :=
  exists_left_of_forall₂ h.flip ha

/-- What holds of the elements of a list in pairs passes to related elements. -/
theorem pairwise_forall₂ {R : α → β → Prop} {p : α → α → Prop} {q : β → β → Prop} {l : List α}
    {m : List β} (h : List.Forall₂ R l m) (hp : l.Pairwise p)
    (hq : ∀ a ∈ l, ∀ a' ∈ l, ∀ b b', R a b → R a' b' → p a a' → q b b') : m.Pairwise q := by
  induction h with
  | nil => exact .nil
  | @cons a b l m hab hrest ih =>
    obtain ⟨ha, hl⟩ := List.pairwise_cons.mp hp
    refine List.pairwise_cons.mpr ⟨fun b' hb' => ?_, ih hl fun c hc d hd =>
      hq c (List.mem_cons_of_mem a hc) d (List.mem_cons_of_mem a hd)⟩
    obtain ⟨a', ha', hab'⟩ := exists_left_of_forall₂ hrest hb'
    exact hq a (by simp) a' (by simp [ha']) b b' hab hab' (ha a' ha')

/-- Two lists related element by element stay so when one of them is permuted
and the other with it. -/
theorem forall₂_perm {R : α → β → Prop} {l : List α} {m m' : List β} (h : List.Forall₂ R l m)
    (hp : m'.Perm m) : ∃ l', l'.Perm l ∧ List.Forall₂ R l' m' := by
  obtain ⟨l', h', hl⟩ := List.perm_comp_forall₂ hp h.flip
  exact ⟨l', hl, h'.flip⟩

end Collections
