import Mathlib.Algebra.Group.Nat.Defs

/-!
# Arithmetic that reports what it loses

The operations of 64-bit unsigned arithmetic with a value only where the
machine's result is the number meant: no carry out of the top, no division by
zero, no bit dropped by a cast. Code written over them once more computes the
same values as the machine's, and a value at the end says that nothing was lost
on the way.
-/

namespace Checked

def add (a b : UInt64) : Option UInt64 := if a.toNat + b.toNat < 2 ^ 64 then some (a + b) else none

def mul (a b : UInt64) : Option UInt64 := if a.toNat * b.toNat < 2 ^ 64 then some (a * b) else none

def div (a b : UInt64) : Option UInt64 := if b = 0 then none else some (a / b)

def narrow (a : UInt64) : Option UInt32 := if a.toNat < 2 ^ 32 then some a.toUInt32 else none

def atMost (limit a : UInt32) : Option UInt32 := if a ≤ limit then some a else none

variable {a b : UInt64}

theorem add_eq (h : a.toNat + b.toNat < 2 ^ 64) : add a b = some (a + b) := if_pos h

theorem mul_eq (h : a.toNat * b.toNat < 2 ^ 64) : mul a b = some (a * b) := if_pos h

theorem div_eq (h : b ≠ 0) : div a b = some (a / b) := if_neg h

theorem narrow_eq (h : a.toNat < 2 ^ 32) : narrow a = some a.toUInt32 := if_pos h

theorem atMost_eq {limit a : UInt32} (h : a ≤ limit) : atMost limit a = some a := if_pos h

theorem toNat_mul (h : a.toNat * b.toNat < 2 ^ 64) : (a * b).toNat = a.toNat * b.toNat := by
  rw [UInt64.toNat_mul, Nat.mod_eq_of_lt h]

theorem mul_narrow_lt (a b : UInt32) : a.toUInt64.toNat * b.toUInt64.toNat < 2 ^ 64 := by
  have ha := a.toNat_lt
  have hb := b.toNat_lt
  rw [UInt32.toNat_toUInt64, UInt32.toNat_toUInt64]
  calc a.toNat * b.toNat ≤ (2 ^ 32 - 1) * (2 ^ 32 - 1) := Nat.mul_le_mul (by omega) (by omega)
    _ < 2 ^ 64 := by decide

end Checked
