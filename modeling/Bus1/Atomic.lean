/-
  Bus1.Atomic

  The kernel's `atomic_t` as `active.c` uses it: one C `int` that threads
  read and write only through single atomic instructions.

  An `int` is a 32-bit two's-complement value, so `CInt` carries its range as
  fields and every sum is folded back into the range with `Int.bmod`: the
  kernel's atomics wrap (it builds with `-fno-strict-overflow`), and the one
  plain C sum of `active.c`, `v + add` in `bus1_active_add_unless_negative`,
  never leaves the range where it is computed.
-/
import Mathlib.Tactic.NormNum
import Mathlib.Tactic.Ring

namespace Bus1

/-- A C `int`: a 32-bit two's-complement value. -/
structure CInt where
  val : Int
  le_val : -2 ^ 31 ≤ val
  val_lt : val < 2 ^ 31
  deriving DecidableEq, Repr

namespace CInt

theorem bmod_ge (x : Int) : -2 ^ 31 ≤ x.bmod (2 ^ 32) := by
  have := Int.le_bmod (x := x) (m := 2 ^ 32) (by decide)
  norm_num at this ⊢
  omega

theorem bmod_lt (x : Int) : x.bmod (2 ^ 32) < 2 ^ 31 := by
  have := Int.bmod_lt (x := x) (m := 2 ^ 32) (by decide)
  norm_num at this ⊢
  omega

/-- Two's-complement wrap-around: the `int` congruent to `x` modulo `2^32`. -/
def ofInt (x : Int) : CInt := ⟨x.bmod (2 ^ 32), bmod_ge x, bmod_lt x⟩

/-- Inside the `int` range, `ofInt` does not wrap. -/
theorem ofInt_val {x : Int} (h₁ : -2 ^ 31 ≤ x) (h₂ : x < 2 ^ 31) : (ofInt x).val = x := by
  simp only [ofInt, Int.bmod_def]
  norm_num
  split <;> omega

@[ext] theorem ext {a b : CInt} (h : a.val = b.val) : a = b := by
  cases a; cases b; cases h; rfl

theorem ext_iff' {a b : CInt} : a = b ↔ a.val = b.val :=
  ⟨congrArg val, ext⟩

/-- C `int` addition, as the two's-complement instruction computes it. -/
instance : Add CInt := ⟨fun a b => ofInt (a.val + b.val)⟩

/-- C `int` subtraction, as the two's-complement instruction computes it. -/
instance : Sub CInt := ⟨fun a b => ofInt (a.val - b.val)⟩

/-- An `int` literal. -/
instance (n : Nat) : OfNat CInt n := ⟨ofInt n⟩

theorem add_def (a b : CInt) : a + b = ofInt (a.val + b.val) := rfl

/-- `INT_MIN` of `<linux/kernel.h>`. -/
def INT_MIN : CInt := ⟨-2 ^ 31, le_refl _, by decide⟩

@[simp] theorem INT_MIN_val : INT_MIN.val = -2 ^ 31 := rfl

end CInt

open CInt

/-- `atomic_cmpxchg(v, old, new)`: the value it found, and the counter after it. -/
def atomicCmpxchg (v old new : CInt) : CInt × CInt :=
  (v, if v = old then new else v)

/-- `atomic_inc_unless_negative(v)`: whether it incremented, and the counter after. -/
def atomicIncUnlessNegative (v : CInt) : Bool × CInt :=
  if 0 ≤ v.val then (true, ofInt (v.val + 1)) else (false, v)

/-- `atomic_dec_return(v)`: the decremented value, which is also the counter after. -/
def atomicDecReturn (v : CInt) : CInt :=
  ofInt (v.val - 1)

@[simp] theorem atomicCmpxchg_fst (v old new : CInt) : (atomicCmpxchg v old new).1 = v := rfl

end Bus1
