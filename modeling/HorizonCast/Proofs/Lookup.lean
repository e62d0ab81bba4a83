import HorizonCast.Proofs.DeviceIds

/-! The lookups of `devices`, one round of `find` at a time. Each parent array that comes
up, also between two rounds, is a forest, so every lookup ends at the root of its tree
and moves no other element to another tree. -/

namespace HorizonCast

open Collections Text UnionFind Relation

/-! ### Rounds of the loop -/

/-- One round of the loop of `find`: the array and the element it has come to. -/
inductive FindRound : List ℕ × ℕ → List ℕ × ℕ → Prop
  | mk {parent : List ℕ} {x up halved : ℕ} (hup : parent[x]? = some up) (hne : up ≠ x)
      (hhalved : parent[up]? = some halved) :
      FindRound (parent, x) (parent.set x halved, halved)

/-- A loop that ends has gone through its rounds and stands at a root. -/
theorem findLoop_rounds {fuel : ℕ} {parent : List ℕ} {x : ℕ} {parent' : List ℕ} {r : ℕ}
    (h : findLoop fuel parent x = some (parent', r)) :
    ReflTransGen FindRound (parent, x) (parent', r) ∧ parent'[r]? = some r := by
  induction fuel generalizing parent x with
  | zero => cases h
  | succ fuel ih =>
    obtain ⟨up, hup, h⟩ := Option.bind_eq_some_iff.mp h
    by_cases hroot : up = x
    · rw [if_pos hroot] at h
      cases h
      exact ⟨.refl, hroot ▸ hup⟩
    · rw [if_neg hroot] at h
      obtain ⟨halved, hhalved, h⟩ := Option.bind_eq_some_iff.mp h
      obtain ⟨hrounds, hr⟩ := ih h
      exact ⟨.head (.mk hup hroot hhalved) hrounds, hr⟩

/-- More rounds than are needed change nothing. -/
theorem findLoop_of_le {fuel fuel' : ℕ} (hle : fuel ≤ fuel') {parent : List ℕ} {x : ℕ}
    {res : List ℕ × ℕ} (h : findLoop fuel parent x = some res) :
    findLoop fuel' parent x = some res := by
  induction fuel generalizing fuel' parent x with
  | zero => cases h
  | succ fuel ih =>
    obtain ⟨fuel', rfl⟩ : ∃ k, fuel' = k + 1 := ⟨fuel' - 1, by omega⟩
    obtain ⟨up, hup, h⟩ := Option.bind_eq_some_iff.mp h
    rw [findLoop, hup]
    simp only [Option.bind_eq_bind, Option.bind_some]
    by_cases hroot : up = x
    · rw [if_pos hroot] at h ⊢
      exact h
    · rw [if_neg hroot] at h ⊢
      obtain ⟨halved, hhalved, h⟩ := Option.bind_eq_some_iff.mp h
      rw [hhalved, Option.bind_some]
      exact ih (by omega) h

/-- A round halves the path of the element it starts from. -/
theorem FindRound.sameRoots {s t : List ℕ × ℕ} (h : FindRound s t) (hforest : IsForest s.1) :
    SameRoots s.1 t.1 := by
  cases h with
  | @mk parent x up halved hup hne hhalved =>
    obtain ⟨hx, -⟩ := List.getElem?_eq_some_iff.mp hup
    obtain ⟨hupx, -⟩ := List.getElem?_eq_some_iff.mp hhalved
    rw [getElem?_parent hx, Option.some.injEq] at hup
    rw [getElem?_parent hupx, Option.some.injEq] at hhalved
    have hsame := sameRoots_halve hforest hx
    rwa [hup, hhalved] at hsame

theorem rounds_sameRoots {s t : List ℕ × ℕ} (h : ReflTransGen FindRound s t)
    (hforest : IsForest s.1) : SameRoots s.1 t.1 := by
  induction h with
  | refl => exact .refl hforest
  | tail _ hround ih => exact ih.trans (hround.sameRoots ih.forest)

/-! ### The arrays of `devices` -/

variable (reg : DeviceRegistry) (keys : IterOrder IpAddr)

/-- The linking loops are about to look at the identity `id` of the `i`-th address. -/
inductive LinkSite : Links → ℕ → Str → Prop
  | mk {pre post : List (IpAddr × ℕ)} {a : IpAddr} {i : ℕ} {e : Entry} {ids rest : List Str}
      {id : Str} {outer links : Links} (haddrs : (reg.addrs keys).zipIdx = pre ++ (a, i) :: post)
      (houter : pre.foldlM reg.linkAddress (List.range (reg.addrs keys).length, ∅) = some outer)
      (he : reg.entries.lookup a = some e) (hids : e.identities.toList = ids ++ id :: rest)
      (hlinks : ids.foldlM (linkIdentity i) outer = some links) : LinkSite links i id

/-- The grouping loop is about to look up the `i`-th address. -/
inductive GroupSite : List ℕ → ℕ → Prop
  | mk {pre post : List (IpAddr × ℕ)} {a : IpAddr} {i : ℕ} {links : Links}
      {st : List ℕ × AList fun _ : ℕ => List IpAddr}
      (haddrs : (reg.addrs keys).zipIdx = pre ++ (a, i) :: post)
      (hlinks : (reg.addrs keys).zipIdx.foldlM reg.linkAddress
        (List.range (reg.addrs keys).length, ∅) = some links)
      (hst : pre.foldlM DeviceRegistry.groupAddress (links.1, ∅) = some st) : GroupSite st.1 i

/-- `devices` calls `find` on the array for the index. -/
inductive LooksUp : List ℕ → ℕ → Prop
  | left {links : Links} {i j : ℕ} {id : Str} (hsite : LinkSite reg keys links i id)
      (hid : links.2.lookup id = some j) : LooksUp links.1 i
  | right {links : Links} {i j a : ℕ} {id : Str} {parent : List ℕ}
      (hsite : LinkSite reg keys links i id) (hid : links.2.lookup id = some j)
      (hleft : find links.1 i = some (parent, a)) : LooksUp parent j
  | group {parent : List ℕ} {i : ℕ} (hsite : GroupSite reg keys parent i) : LooksUp parent i

/-- The parent array at some point of a call of `devices`. -/
inductive Arises : List ℕ → Prop
  | start : Arises (List.range (reg.addrs keys).length)
  | round {parent parent' : List ℕ} {x y : ℕ} (hlookup : LooksUp reg keys parent x)
      (hrounds : ReflTransGen FindRound (parent, x) (parent', y)) : Arises parent'
  | link {links links' : Links} {i : ℕ} {id : Str} (hsite : LinkSite reg keys links i id)
      (hlink : linkIdentity i links id = some links') : Arises links'.1

variable {reg keys}

theorem LinkSite.linkedBy {links : Links} {i : ℕ} {id : Str} (h : LinkSite reg keys links i id) :
    i < (reg.addrs keys).length ∧ ∃ P, LinkedBy (reg.addrs keys).length P links := by
  cases h with
  | @mk pre post a _ e ids rest _ outer _ haddrs houter he hids hlinks =>
    obtain ⟨-, -, hi⟩ := index_of_mem (a := a) (i := i) (by rw [haddrs]; simp)
    have hpre : pre <+: (reg.addrs keys).zipIdx := ⟨(a, i) :: post, haddrs.symm⟩
    obtain ⟨outer', houter', hlinked⟩ := linkAddresses_spec reg keys hpre
    obtain rfl := Option.some.inj (houter'.symm.trans houter)
    obtain ⟨links', hlinks', hlinked'⟩ := linkIdentities_spec hlinked hi ids
    obtain rfl := Option.some.inj (hlinks'.symm.trans hlinks)
    exact ⟨hi, _, hlinked'⟩

theorem LooksUp.forest {parent : List ℕ} {x : ℕ} (h : LooksUp reg keys parent x) :
    parent.length = (reg.addrs keys).length ∧ IsForest parent := by
  cases h with
  | left hsite hid =>
    obtain ⟨-, P, hlinked⟩ := hsite.linkedBy
    exact ⟨hlinked.length, hlinked.forest⟩
  | right hsite hid hleft =>
    obtain ⟨hi, P, hlinked⟩ := hsite.linkedBy
    obtain ⟨q, hq, hsame⟩ := find_spec hlinked.forest (by rw [hlinked.length]; exact hi)
    cases hq.symm.trans hleft
    exact ⟨hsame.length.trans hlinked.length, hsame.forest⟩
  | group hsite =>
    cases hsite with
    | @mk pre post a _ links st haddrs hlinks hst =>
      obtain ⟨links', hlinks', hlinked⟩ := linkAddresses_spec reg keys (List.prefix_refl _)
      obtain rfl := Option.some.inj (hlinks'.symm.trans hlinks)
      have hpre : pre <+: (reg.addrs keys).zipIdx := ⟨(a, x) :: post, haddrs.symm⟩
      obtain ⟨st', hst', hsame, -⟩ :=
        groupAddresses_spec reg keys hlinked.length hlinked.forest hpre
      obtain rfl := Option.some.inj (hst'.symm.trans hst)
      exact ⟨hsame.length.trans hlinked.length, hsame.forest⟩

theorem Arises.forest {parent : List ℕ} (h : Arises reg keys parent) :
    parent.length = (reg.addrs keys).length ∧ IsForest parent := by
  cases h with
  | start => exact ⟨List.length_range, (linkedBy_init _).forest⟩
  | round hlookup hrounds =>
    obtain ⟨hlength, hforest⟩ := hlookup.forest
    have hsame := rounds_sameRoots hrounds hforest
    exact ⟨hsame.length.trans hlength, hsame.forest⟩
  | link hsite hlink =>
    obtain ⟨hi, P, hlinked⟩ := hsite.linkedBy
    obtain ⟨links', hlink', hlinked'⟩ := linkIdentity_spec hlinked hi _
    obtain rfl := Option.some.inj (hlink'.symm.trans hlink)
    exact ⟨hlinked'.length, hlinked'.forest⟩

/-! ### Lookups -/

/-- Following parents never comes back to an element that is not a root. -/
def Acyclic (parent : List ℕ) : Prop :=
  ∀ x < parent.length, ∀ n, 0 < n → (parentOf parent)^[n] x = x → parent[x]? = some x

theorem acyclic_of_forest {parent : List ℕ} (h : IsForest parent) : Acyclic parent := by
  intro x hx n hn hcycle
  obtain ⟨d, r, hr⟩ := h.rooted x hx
  rw [getElem?_parent hx, hr.eq_of_cycle hn hcycle]

theorem root_of_getElem? {parent : List ℕ} {a : ℕ} (h : parent[a]? = some a) :
    a < parent.length ∧ parentOf parent a = a := by
  obtain ⟨ha, -⟩ := List.getElem?_eq_some_iff.mp h
  rw [getElem?_parent ha, Option.some.injEq] at h
  exact ⟨ha, h⟩

/-- Linking a root under another one leaves a forest. -/
theorem forest_link {parent : List ℕ} (h : IsForest parent) {a b : ℕ} (ha : parent[a]? = some a)
    (hb : parent[b]? = some b) (hab : a ≠ b) : IsForest (parent.set a b) := by
  obtain ⟨hlt, hroot⟩ := root_of_getElem? ha
  obtain ⟨hblt, hbroot⟩ := root_of_getElem? hb
  exact (link_roots h hlt hblt hroot hbroot hab).1

/-- No parent array of `devices` has a cycle. A lookup of any element goes through finitely
many rounds, all inside the array and none of which moves a root, and ends at the root above
the element; and a root linked under another one closes no cycle. -/
theorem lookup_faithful {parent : List ℕ} (h : Arises reg keys parent) :
    Acyclic parent ∧
    (∀ x < parent.length, ∃ parent' r,
      find parent x = some (parent', r) ∧
      (∀ fuel ≥ parent.length, findLoop fuel parent x = some (parent', r)) ∧
      ReflTransGen FindRound (parent, x) (parent', r) ∧
      r < parent.length ∧ parent[r]? = some r ∧ (∃ d, RootAt (parentOf parent) d x r) ∧
      ∀ q y, ReflTransGen FindRound (parent, x) (q, y) → SameRoots parent q) ∧
    (∀ a b, parent[a]? = some a → parent[b]? = some b → a ≠ b →
      IsForest (parent.set a b) ∧ Acyclic (parent.set a b)) := by
  obtain ⟨-, hforest⟩ := h.forest
  refine ⟨acyclic_of_forest hforest, ?_, ?_⟩
  · intro x hx
    obtain ⟨parent', hfind, -⟩ := find_spec hforest hx
    obtain ⟨d, r, hr⟩ := hforest.rooted x hx
    have hroot : rootIn parent x = r := hr.rootOf_eq
    rw [hroot] at hfind
    have hrlt : r < parent.length := hr.mem hforest.closed hx
    refine ⟨parent', r, hfind, fun fuel hfuel => findLoop_of_le hfuel hfind,
      (findLoop_rounds hfind).1, hrlt, ?_, ⟨d, hr⟩,
      fun q y hrounds => rounds_sameRoots hrounds hforest⟩
    rw [getElem?_parent hrlt, hr.isRoot]
  · intro a b ha hb hab
    have hlinked := forest_link hforest ha hb hab
    exact ⟨hlinked, acyclic_of_forest hlinked⟩

/-- Two addresses with one stable id: the second is linked under the first, and is looked up. -/
theorem lookup_faithful_pair : ∃ reg keys, Arises reg keys [0, 0] ∧
    ∃ parent', find [0, 0] 1 = some (parent', 0) := by
  let reg := (DeviceRegistry.new 15).run [.observe (sampleSighting 5 (some "uuid:7".toList)) 0,
    .observe (sampleSighting 7 (some "uuid:7".toList)) 1]
  let keys := asIs IpAddr
  have hlinks : ((reg.addrs keys).zipIdx.foldlM reg.linkAddress
      (List.range (reg.addrs keys).length, ∅)).map Prod.fst = some [0, 0] := by
    decide +kernel
  have haddrs : (reg.addrs keys).zipIdx = [] ++ ((sampleSighting 5 none).address, 0) ::
      [((sampleSighting 7 none).address, 1)] := by
    decide +kernel
  obtain ⟨links, hlinks, hfst⟩ := Option.map_eq_some_iff.mp hlinks
  have hsite : GroupSite reg keys links.1 0 := .mk haddrs hlinks rfl
  rw [hfst] at hsite
  have harises : Arises reg keys [0, 0] := .round (.group hsite) .refl
  obtain ⟨parent', r, hfind, -⟩ := (lookup_faithful harises).2.1 1 (by decide)
  have hroot : (find [0, 0] 1).map Prod.snd = some 0 := by decide
  rw [hfind, Option.map_some, Option.some.injEq] at hroot
  exact ⟨reg, keys, harises, parent', hroot ▸ hfind⟩

end HorizonCast
