import Mathlib.Algebra.Order.Ring.Int
import Mathlib.Tactic.SplitIfs
import Mathlib.Tactic.TypeStar

/-! Integer expressions as fixed-point code computes them, the ranges of their values, and
when no value on the way leaves the bounds of the machine's integers. -/

namespace Interval

/-- The integers from `lo` to `hi`, both included. -/
structure Range where
  lo : ℤ
  hi : ℤ
  deriving DecidableEq

instance : Membership ℤ Range where
  mem r v := r.lo ≤ v ∧ v ≤ r.hi

theorem mem_def {r : Range} {v : ℤ} : v ∈ r ↔ r.lo ≤ v ∧ v ≤ r.hi := Iff.rfl

instance (r : Range) (v : ℤ) : Decidable (v ∈ r) := inferInstanceAs (Decidable (_ ∧ _))

def Range.Within (r bounds : Range) : Prop := bounds.lo ≤ r.lo ∧ r.hi ≤ bounds.hi

instance (r bounds : Range) : Decidable (r.Within bounds) := inferInstanceAs (Decidable (_ ∧ _))

theorem Range.Within.mem {r bounds : Range} (h : r.Within bounds) {v : ℤ} (hv : v ∈ r) :
    v ∈ bounds :=
  ⟨h.1.trans hv.1, hv.2.trans h.2⟩

/-- Expressions over the variables `ν`. -/
inductive Expr (ν : Type*) where
  | lit (c : ℤ)
  | var (x : ν)
  | add (a b : Expr ν)
  | sub (a b : Expr ν)
  | scale (c : ℤ) (a : Expr ν)
  /-- Division by a constant, towards zero. -/
  | quot (a : Expr ν) (k : ℕ)
  /-- The arithmetic shift to the right. -/
  | shr (a : Expr ν) (k : ℕ)

namespace Expr

variable {ν : Type*} {ρ ρ' : ν → ℤ} {box : ν → Range} {bounds : Range}

instance : Add (Expr ν) := ⟨add⟩

instance : Sub (Expr ν) := ⟨sub⟩

def eval (ρ : ν → ℤ) : Expr ν → ℤ
  | lit c => c
  | var x => ρ x
  | add a b => a.eval ρ + b.eval ρ
  | sub a b => a.eval ρ - b.eval ρ
  | scale c a => c * a.eval ρ
  | quot a k => (a.eval ρ).tdiv k
  | shr a k => Int.shiftRight (a.eval ρ) k

/-- A value the machine can hold. -/
def hold (bounds : Range) (v : ℤ) : Option ℤ := if v ∈ bounds then some v else none

/-- The value as the machine computes it; `none` when one of the operations overflows. -/
def checked (bounds : Range) (ρ : ν → ℤ) : Expr ν → Option ℤ
  | lit c => hold bounds c
  | var x => hold bounds (ρ x)
  | add a b => do hold bounds ((← a.checked bounds ρ) + (← b.checked bounds ρ))
  | sub a b => do hold bounds ((← a.checked bounds ρ) - (← b.checked bounds ρ))
  | scale c a => do hold bounds (c * (← a.checked bounds ρ))
  | quot a k => do hold bounds ((← a.checked bounds ρ).tdiv k)
  | shr a k => do hold bounds (Int.shiftRight (← a.checked bounds ρ) k)

/-- A range of the values, from ranges of the variables. -/
def range (box : ν → Range) : Expr ν → Range
  | lit c => ⟨c, c⟩
  | var x => box x
  | add a b => ⟨(a.range box).lo + (b.range box).lo, (a.range box).hi + (b.range box).hi⟩
  | sub a b => ⟨(a.range box).lo - (b.range box).hi, (a.range box).hi - (b.range box).lo⟩
  | scale c a =>
    if 0 ≤ c then ⟨c * (a.range box).lo, c * (a.range box).hi⟩
    else ⟨c * (a.range box).hi, c * (a.range box).lo⟩
  | quot a k => ⟨(a.range box).lo.tdiv k, (a.range box).hi.tdiv k⟩
  | shr a k => ⟨Int.shiftRight (a.range box).lo k, Int.shiftRight (a.range box).hi k⟩

/-- The ranges of the expression and of all its parts lie within the bounds. -/
def Fits (bounds : Range) (box : ν → Range) : Expr ν → Prop
  | lit c => ((lit c : Expr ν).range box).Within bounds
  | var x => (box x).Within bounds
  | add a b => ((add a b).range box).Within bounds ∧ a.Fits bounds box ∧ b.Fits bounds box
  | sub a b => ((sub a b).range box).Within bounds ∧ a.Fits bounds box ∧ b.Fits bounds box
  | scale c a => ((scale c a).range box).Within bounds ∧ a.Fits bounds box
  | quot a k => ((quot a k).range box).Within bounds ∧ a.Fits bounds box
  | shr a k => ((shr a k).range box).Within bounds ∧ a.Fits bounds box

instance decidableFits (bounds : Range) (box : ν → Range) :
    (e : Expr ν) → Decidable (e.Fits bounds box)
  | lit _ | var _ => inferInstanceAs (Decidable (Range.Within _ _))
  | add a b | sub a b =>
    have := decidableFits bounds box a
    have := decidableFits bounds box b
    inferInstanceAs (Decidable (_ ∧ _ ∧ _))
  | scale _ a | quot a _ | shr a _ =>
    have := decidableFits bounds box a
    inferInstanceAs (Decidable (_ ∧ _))

theorem tdiv_le_tdiv {a b : ℤ} (h : a ≤ b) (k : ℕ) : a.tdiv k ≤ b.tdiv k := by
  cases k with
  | zero => rw [Int.ofNat_zero, Int.tdiv_zero, Int.tdiv_zero]
  | succ k => exact Int.tdiv_le_tdiv (Int.natCast_pos.mpr k.succ_pos) h

theorem shiftRight_le_shiftRight {a b : ℤ} (h : a ≤ b) (k : ℕ) :
    Int.shiftRight a k ≤ Int.shiftRight b k := by
  have hpow : (0 : ℤ) < (2 ^ k : ℕ) := Int.natCast_pos.mpr (Nat.two_pow_pos k)
  rw [show Int.shiftRight a k = a / (2 ^ k : ℕ) from Int.shiftRight_eq_div_pow a k,
    show Int.shiftRight b k = b / (2 ^ k : ℕ) from Int.shiftRight_eq_div_pow b k]
  exact Int.ediv_le_ediv hpow h

/-- The values lie in the computed range. -/
theorem eval_mem_range (hbox : ∀ x, ρ x ∈ box x) (e : Expr ν) : e.eval ρ ∈ e.range box := by
  induction e with
  | lit c => exact ⟨le_rfl, le_rfl⟩
  | var x => exact hbox x
  | add a b iha ihb => exact ⟨add_le_add iha.1 ihb.1, add_le_add iha.2 ihb.2⟩
  | sub a b iha ihb => exact ⟨sub_le_sub iha.1 ihb.2, sub_le_sub iha.2 ihb.1⟩
  | scale c a ih =>
    rw [range, eval]
    split_ifs with hc
    · exact ⟨Int.mul_le_mul_of_nonneg_left ih.1 hc, Int.mul_le_mul_of_nonneg_left ih.2 hc⟩
    · have hneg : c ≤ 0 := by omega
      exact ⟨Int.mul_le_mul_of_nonpos_left hneg ih.2, Int.mul_le_mul_of_nonpos_left hneg ih.1⟩
  | quot a k ih => exact ⟨tdiv_le_tdiv ih.1 k, tdiv_le_tdiv ih.2 k⟩
  | shr a k ih => exact ⟨shiftRight_le_shiftRight ih.1 k, shiftRight_le_shiftRight ih.2 k⟩

theorem hold_of_mem {v : ℤ} {r : Range} (hr : r.Within bounds) (hv : v ∈ r) :
    hold bounds v = some v :=
  if_pos (hr.mem hv)

/-- Where the ranges lie within the bounds, no operation overflows. -/
theorem checked_of_fits (hbox : ∀ x, ρ x ∈ box x) {e : Expr ν} (h : e.Fits bounds box) :
    e.checked bounds ρ = some (e.eval ρ) := by
  induction e with
  | lit c => exact hold_of_mem h (eval_mem_range hbox (lit c))
  | var x => exact hold_of_mem h (hbox x)
  | add a b iha ihb =>
    obtain ⟨hr, ha, hb⟩ := h
    rw [checked, iha ha, ihb hb]
    exact hold_of_mem hr (eval_mem_range hbox (add a b))
  | sub a b iha ihb =>
    obtain ⟨hr, ha, hb⟩ := h
    rw [checked, iha ha, ihb hb]
    exact hold_of_mem hr (eval_mem_range hbox (sub a b))
  | scale c a ih =>
    obtain ⟨hr, ha⟩ := h
    rw [checked, ih ha]
    exact hold_of_mem hr (eval_mem_range hbox (scale c a))
  | quot a k ih =>
    obtain ⟨hr, ha⟩ := h
    rw [checked, ih ha]
    exact hold_of_mem hr (eval_mem_range hbox (quot a k))
  | shr a k ih =>
    obtain ⟨hr, ha⟩ := h
    rw [checked, ih ha]
    exact hold_of_mem hr (eval_mem_range hbox (shr a k))

/-- Nothing is subtracted and no factor is negative. -/
def Increasing : Expr ν → Prop
  | lit _ | var _ => True
  | add a b => a.Increasing ∧ b.Increasing
  | sub _ _ => False
  | scale c a => 0 ≤ c ∧ a.Increasing
  | quot a _ | shr a _ => a.Increasing

theorem eval_le_eval {e : Expr ν} (he : e.Increasing) (hle : ∀ x, ρ x ≤ ρ' x) :
    e.eval ρ ≤ e.eval ρ' := by
  induction e with
  | lit c => exact le_rfl
  | var x => exact hle x
  | add a b iha ihb => exact add_le_add (iha he.1) (ihb he.2)
  | sub a b => exact he.elim
  | scale c a ih => exact Int.mul_le_mul_of_nonneg_left (ih he.2) he.1
  | quot a k ih => exact tdiv_le_tdiv (ih he) k
  | shr a k ih => exact shiftRight_le_shiftRight (ih he) k

end Expr

end Interval
