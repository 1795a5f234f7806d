import Mathlib.Algebra.Order.Ring.Int

/-!
# 32-bit words as natural numbers

The source computes addresses and sizes in `u32`. The model keeps them as natural
numbers and wraps where the source can: `add32` and `sub32` are `u32` addition and
subtraction. On operands that neither overflow nor underflow they are `+` and `-`.
-/

namespace GbaStation

/-- `a + b` in `u32`. -/
def add32 (a b : Nat) : Nat := (a + b) % 2 ^ 32

/-- `a - b` in `u32`. -/
def sub32 (a b : Nat) : Nat := (a + (2 ^ 32 - b % 2 ^ 32)) % 2 ^ 32

theorem add32_eq {a b : Nat} (h : a + b < 2 ^ 32) : add32 a b = a + b :=
  Nat.mod_eq_of_lt h

theorem sub32_eq {a b : Nat} (h : b ≤ a) (ha : a < 2 ^ 32) : sub32 a b = a - b := by
  unfold sub32
  omega

end GbaStation
