import Mathlib.Data.List.Basic
import Mathlib.Data.List.Range
import Mathlib.Tactic.Linarith

/-! Framing a byte stream. A stream of equal blocks is read back block by block
(`blocks`), and units that were cut into fragments, the first of each marked as
a start, are put together again by the marks alone (`reassemble`) or by the
lengths that they announce (`collect`). -/

namespace Reassembly

variable {α : Type*}

/-! ### Blocks of one length -/

/-- The whole blocks of length `n` at the front of `l`, in order. -/
def blocks (n : ℕ) (l : List α) : List (List α) :=
  (List.range (l.length / n)).map fun i => (l.drop (n * i)).take n

theorem blocks_nil (n : ℕ) : blocks n ([] : List α) = [] := by
  simp [blocks]

theorem blocks_append {n : ℕ} (hn : 0 < n) {b : List α} (hb : b.length = n) (l : List α) :
    blocks n (b ++ l) = b :: blocks n l := by
  have hlen : (b ++ l).length / n = l.length / n + 1 := by
    rw [List.length_append, hb, Nat.add_comm, Nat.add_div_right _ hn]
  unfold blocks
  rw [hlen, List.range_succ_eq_map, List.map_cons, List.map_map]
  congr 1
  · rw [Nat.mul_zero, List.drop_zero, List.take_left' hb]
  · apply List.map_congr_left
    intro i _
    simp only [Function.comp, Nat.succ_eq_add_one, Nat.mul_add, Nat.mul_one]
    rw [Nat.add_comm, ← hb, List.drop_length_add_append]

theorem blocks_flatten {n : ℕ} (hn : 0 < n) {bs : List (List α)} (h : ∀ b ∈ bs, b.length = n) :
    blocks n bs.flatten = bs := by
  induction bs with
  | nil => exact blocks_nil n
  | cons b bs ih =>
    rw [List.flatten_cons, blocks_append hn (h b (by simp)), ih fun c hc => h c (by simp [hc])]

theorem dvd_length_flatten {n : ℕ} {bs : List (List α)} (h : ∀ b ∈ bs, b.length = n) :
    n ∣ bs.flatten.length := by
  induction bs with
  | nil => simp
  | cons b bs ih =>
    rw [List.flatten_cons, List.length_append, h b (by simp)]
    exact (Nat.dvd_add_right (dvd_refl n)).mpr (ih fun c hc => h c (by simp [hc]))

/-! ### Fragments -/

/-- A piece of a unit, and whether the unit starts with it. -/
structure Fragment (α : Type*) where
  start : Bool
  data : List α

/-- What a stream of fragments carries: the data before the first start, which
belongs to a unit that began earlier, and the units that start in the stream. -/
def reassemble : List (Fragment α) → List α × List (List α)
  | [] => ([], [])
  | f :: fs =>
    let later := reassemble fs
    if f.start then ([], (f.data ++ later.1) :: later.2) else (f.data ++ later.1, later.2)

/-- `fs` is the unit `u` cut into fragments: only the first one is a start. -/
structure Cuts (u : List α) (fs : List (Fragment α)) : Prop where
  starts : ∃ n, fs.map Fragment.start = true :: List.replicate n false
  data : fs.flatMap Fragment.data = u

theorem reassemble_continue (fs rest : List (Fragment α))
    (h : fs.map Fragment.start = List.replicate fs.length false) :
    reassemble (fs ++ rest) =
      (fs.flatMap Fragment.data ++ (reassemble rest).1, (reassemble rest).2) := by
  induction fs with
  | nil => rfl
  | cons f fs ih =>
    rw [List.map_cons, List.length_cons, List.replicate_succ, List.cons.injEq] at h
    simp [reassemble, h.1, ih h.2]

theorem reassemble_cuts {u : List α} {fs : List (Fragment α)} (h : Cuts u fs)
    (rest : List (Fragment α)) :
    reassemble (fs ++ rest) = ([], (u ++ (reassemble rest).1) :: (reassemble rest).2) := by
  obtain ⟨⟨n, hstart⟩, rfl⟩ := h
  cases fs with
  | nil => simp at hstart
  | cons f fs =>
    rw [List.map_cons, List.cons.injEq] at hstart
    have hn : fs.length = n := by simpa using congrArg List.length hstart.2
    simp [reassemble, hstart.1, reassemble_continue fs rest (by rw [hstart.2, hn])]

/-- Every unit of a stream is put together again. -/
theorem reassemble_units {us : List (List α)} {fss : List (List (Fragment α))}
    (h : List.Forall₂ Cuts us fss) : reassemble fss.flatten = ([], us) := by
  induction h with
  | nil => rfl
  | cons hcuts _ ih => rw [List.flatten_cons, reassemble_cuts hcuts, ih, List.append_nil]

/-! ### Units that announce their length -/

section Announced

variable (size : List α → Option ℕ)

/-- What has been announced is not changed by the data behind it. -/
def Stable : Prop := ∀ ⦃u : List α⦄ ⦃n : ℕ⦄, size u = some n → ∀ v, size (u ++ v) = some n

/-- The unit at the front of `u`, when the length it announces has been reached. -/
def finished (u : List α) : Option (List α) :=
  (size u).bind fun n => if n ≤ u.length then some (u.take n) else none

/-- What a start or the end of the stream makes of the data before it: a unit, unless it
was to be longer. -/
def ended (pending : Option (List α)) : List (List α) :=
  (pending.filter fun u => (size u).isNone).toList

/-- The units of a stream of fragments, each given out when the length it announces has
been reached; one that announces none runs to the next start. -/
def collect : Option (List α) → List (Fragment α) → List (List α)
  | pending, [] => ended size pending
  | pending, f :: fs =>
    let before := if f.start then ended size pending else []
    let pending := if f.start then some f.data else pending.map (· ++ f.data)
    before ++ match pending.bind (finished size) with
      | some u => u :: collect none fs
      | none => collect pending fs

/-- What is given out of a whole unit. -/
def given (u : List α) : List (List α) :=
  if (size u).isNone then [u] else (finished size u).toList

/-- The next fragment, if there is one, is a start. -/
def AtStart (fs : List (Fragment α)) : Prop := ∀ f ∈ fs.head?, f.start = true

variable {size}

theorem Stable.finished (h : Stable size) {u w : List α} (hu : finished size u = some w)
    (v : List α) : finished size (u ++ v) = some w := by
  obtain ⟨n, hn, hw⟩ := Option.bind_eq_some_iff.mp hu
  obtain ⟨hle, hw⟩ := Option.ite_none_right_eq_some.mp hw
  rw [Reassembly.finished, h hn v, Option.bind_some, if_pos (by rw [List.length_append]; omega),
    List.take_append_of_le_length hle, hw]

theorem given_of_finished {u w : List α} (h : finished size u = some w) : given size u = [w] := by
  obtain ⟨n, hn, -⟩ := Option.bind_eq_some_iff.mp h
  simp [given, hn, h]

/-- A collector that waits for a start skips what comes before it. -/
theorem collect_skip (fs rest : List (Fragment α)) (h : ∀ f ∈ fs, f.start = false) :
    collect size none (fs ++ rest) = collect size none rest := by
  induction fs with
  | nil => rfl
  | cons f fs ih =>
    have hf := h f List.mem_cons_self
    rw [List.cons_append, collect]
    simp only [hf, Bool.false_eq_true, if_false, Option.map_none, Option.bind_none, List.nil_append]
    exact ih fun g hg => h g (List.mem_cons_of_mem f hg)

theorem collect_start (pending : Option (List α)) {rest : List (Fragment α)} (h : AtStart rest) :
    collect size pending rest = ended size pending ++ collect size none rest := by
  cases rest with
  | nil => simp [collect, ended]
  | cons f rest =>
    have hf : f.start = true := h f rfl
    simp [collect, hf, ended]

/-- From the first data of a unit on: what is left of it, then the units behind it. -/
theorem collect_rest (hsize : Stable size) (u : List α) (fs : List (Fragment α))
    (hfs : ∀ f ∈ fs, f.start = false) {rest : List (Fragment α)} (hrest : AtStart rest) :
    (match finished size u with
      | some w => w :: collect size none (fs ++ rest)
      | none => collect size (some u) (fs ++ rest)) =
      given size (u ++ fs.flatMap Fragment.data) ++ collect size none rest := by
  induction fs generalizing u with
  | nil =>
    rw [List.flatMap_nil, List.append_nil, List.nil_append]
    cases hu : finished size u with
    | some w => rw [given_of_finished hu]; rfl
    | none =>
      dsimp only
      rw [collect_start _ hrest]
      congr 1
      cases hn : size u <;> simp [ended, given, hn, hu]
  | cons f fs ih =>
    have hf := hfs f List.mem_cons_self
    have hfs' : ∀ g ∈ fs, g.start = false := fun g hg => hfs g (List.mem_cons_of_mem f hg)
    cases hu : finished size u with
    | some w =>
      -- The unit is out, and the rest of its fragments is skipped.
      rw [given_of_finished (hsize.finished hu _)]
      dsimp only
      rw [collect_skip _ _ hfs]
      rfl
    | none =>
      dsimp only
      rw [List.flatMap_cons, ← List.append_assoc, ← ih (u ++ f.data) hfs', List.cons_append,
        collect]
      simp only [hf, Bool.false_eq_true, if_false, Option.map_some, Option.bind_some,
        List.nil_append]

theorem Cuts.atStart {u : List α} {fs : List (Fragment α)} (h : Cuts u fs)
    (rest : List (Fragment α)) : AtStart (fs ++ rest) := by
  obtain ⟨⟨n, hstart⟩, -⟩ := h
  cases fs with
  | nil => simp at hstart
  | cons f fs =>
    rintro g hg
    obtain rfl := Option.some.inj hg
    exact (List.cons.inj hstart).1

theorem collect_cuts (hsize : Stable size) {u : List α} {fs : List (Fragment α)} (h : Cuts u fs)
    {rest : List (Fragment α)} (hrest : AtStart rest) :
    collect size none (fs ++ rest) = given size u ++ collect size none rest := by
  obtain ⟨⟨n, hstart⟩, rfl⟩ := h
  cases fs with
  | nil => simp at hstart
  | cons f fs =>
    obtain ⟨hf, htail⟩ := List.cons.inj hstart
    have hfs : ∀ g ∈ fs, g.start = false := by
      intro g hg
      have hmem : g.start ∈ fs.map Fragment.start := List.mem_map_of_mem hg
      rw [htail] at hmem
      exact List.eq_of_mem_replicate hmem
    rw [List.flatMap_cons, ← collect_rest hsize f.data fs hfs hrest, List.cons_append, collect]
    simp [hf, ended]

/-- Every unit of a stream is given out as far as it announces. -/
theorem collect_units (hsize : Stable size) {us : List (List α)} {fss : List (List (Fragment α))}
    (h : List.Forall₂ Cuts us fss) :
    collect size none fss.flatten = us.flatMap (given size) ∧ AtStart fss.flatten := by
  induction h with
  | nil => exact ⟨rfl, nofun⟩
  | @cons u fs us fss hcuts _ ih =>
    rw [List.flatten_cons, List.flatMap_cons, collect_cuts hsize hcuts ih.2, ih.1]
    exact ⟨rfl, hcuts.atStart _⟩

end Announced

end Reassembly
