import HorizonCast.Lib.Collections

/-! Buffers that a program fills one index at a time. A buffer keeps the indices it was
written at, so that it can be said of a loop which cells it writes and how often. -/

namespace Filling

open Collections

variable {α : Type*}

structure Buffer (α : Type*) where
  cells : List α
  /-- The indices written so far, in order. -/
  written : List ℕ

namespace Buffer

def blank (n : ℕ) (a : α) : Buffer α where
  cells := List.replicate n a
  written := []

/-- `none` is an index out of bounds. -/
def write (b : Buffer α) (i : ℕ) (v : α) : Option (Buffer α) :=
  if i < b.cells.length then some ⟨b.cells.set i v, b.written ++ [i]⟩ else none

/-- A buffer of `n` cells of which the first ones hold `out`, each written once. -/
def filled (n : ℕ) (a : α) (out : List α) : Buffer α where
  cells := out ++ List.replicate (n - out.length) a
  written := List.range out.length

variable {n : ℕ} {a : α} {out : List α}

theorem filled_nil (n : ℕ) (a : α) : filled n a [] = blank n a := rfl

/-- Once there is no cell left, the buffer is what was written. -/
theorem filled_whole (h : out.length = n) : filled n a out = ⟨out, List.range n⟩ := by
  rw [filled, h, Nat.sub_self, List.replicate_zero, List.append_nil]

theorem write_filled {i : ℕ} (hi : out.length = i) (hroom : i < n) (v : α) :
    (filled n a out).write i v = some (filled n a (out ++ [v])) := by
  subst hi
  have hrest : List.replicate (n - out.length) a =
      a :: List.replicate (n - (out ++ [v]).length) a := by
    rw [← List.replicate_succ, List.length_append, List.length_singleton]
    congr 1
    omega
  have hlen : (filled n a out).cells.length = n := by
    simp only [filled, List.length_append, List.length_replicate]
    omega
  have hcells : (filled n a out).cells.set out.length v = (filled n a (out ++ [v])).cells := by
    simp only [filled]
    rw [hrest, List.set_append_right _ _ (Nat.le_refl _), Nat.sub_self, List.set_cons_zero,
      List.append_assoc, List.singleton_append]
  have hwritten : List.range out.length ++ [out.length] = List.range (out ++ [v]).length := by
    rw [List.length_append, List.length_singleton, List.range_succ]
  rw [write, hlen, if_pos hroom, hcells]
  exact congrArg (fun w => some (Buffer.mk _ w)) hwritten

/-- A loop each round of which writes a piece of `size` cells behind what is filled fills
the buffer with all pieces, and fails just when a piece cannot be made. -/
theorem foldlM_filled {body : Buffer α → ℕ → Option (Buffer α)} (piece : ℕ → Option (List α))
    {size rounds : ℕ}
    (hsize : ∀ k v, piece k = some v → v.length = size)
    (hbody : ∀ k < rounds, ∀ more : List α, more.length = k * size →
      body (filled n a (out ++ more)) k =
        (piece k).map fun v => filled n a (out ++ more ++ v)) :
    (List.range rounds).foldlM body (filled n a out) =
      ((List.range rounds).mapM piece).map fun vs => filled n a (out ++ vs.flatten) := by
  induction rounds with
  | zero => simp
  | succ rounds ih =>
    rw [List.range_succ, List.foldlM_append, List.mapM_append,
      ih fun k hk => hbody k (Nat.lt_succ_of_lt hk)]
    cases hvs : (List.range rounds).mapM piece with
    | none => rfl
    | some vs =>
      -- what the rounds before have written has the length the last one expects
      have hlen : vs.flatten.length = rounds * size := by
        have hflat := length_flatten_of_mapM hvs fun k _ v hv => hsize k v hv
        rwa [List.length_range] at hflat
      have hlast := hbody rounds (Nat.lt_succ_self rounds) vs.flatten hlen
      simp only [Option.map_some, Option.bind_eq_bind, Option.bind_some, List.foldlM_cons,
        List.foldlM_nil, hlast, List.mapM_cons, List.mapM_nil]
      cases piece rounds with
      | none => rfl
      | some v => simp

/-- A loop that writes one cell a round. -/
theorem foldlM_write {f : ℕ → Option α} {start rounds : ℕ} (hout : out.length = start)
    (hroom : start + rounds ≤ n) :
    (List.range rounds).foldlM (fun b k => (f k).bind fun v => b.write (start + k) v)
        (filled n a out) =
      ((List.range rounds).mapM f).map fun vs => filled n a (out ++ vs) := by
  have hsize : ∀ k v, (f k).map (fun v => [v]) = some v → v.length = 1 := by
    intro k v hv
    obtain ⟨w, -, rfl⟩ := Option.map_eq_some_iff.mp hv
    rfl
  rw [foldlM_filled (fun k => (f k).map fun v => [v]) hsize, mapM_map_result,
    Option.map_map]
  · refine congrArg (fun g => Option.map g _) (funext fun vs => ?_)
    rw [Function.comp_apply, ← List.flatMap_def, List.flatMap_singleton']
  · intro k hk more hmore
    rw [Option.map_map]
    cases f k with
    | none => rfl
    | some v =>
      have hlen : (out ++ more).length = start + k := by
        rw [List.length_append, hout, hmore, Nat.mul_one]
      exact write_filled hlen (by omega) v

end Buffer

end Filling
