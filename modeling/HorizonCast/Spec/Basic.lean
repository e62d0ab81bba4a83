import Mathlib.Data.List.Basic
import Mathlib.Tactic.TypeStar

/-! What the crates share: byte buffers and `usize` arithmetic. `usize` is 64 bits wide. -/

namespace HorizonCast

abbrev Bytes := List UInt8

/-- `usize::MAX`. -/
def USIZE_MAX : ℕ := 0xFFFFFFFFFFFFFFFF

/-- How the program was built: a debug build panics when an addition overflows, a
release build wraps. -/
inductive Build where
  | debug | release
  deriving DecidableEq, Repr

/-- `a + b` at `usize`; `none` is the overflow panic of a debug build. -/
def usizeAdd (build : Build) (a b : ℕ) : Option ℕ :=
  if a + b ≤ USIZE_MAX then some (a + b)
  else
    match build with
    | .debug => none
    | .release => some ((a + b) % (USIZE_MAX + 1))

/-- `&buf[start..stop]`; `none` is the panic of a range that is reversed or out of bounds. -/
def slice (buf : Bytes) (start stop : ℕ) : Option Bytes :=
  if start ≤ stop ∧ stop ≤ buf.length then some ((buf.take stop).drop start) else none

end HorizonCast
