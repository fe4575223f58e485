import Mathlib.Algebra.Group.Nat.Defs
import Mathlib.Data.List.Induction

/-!
# Numbers as bytes, most significant first
-/

namespace BigEndian

def encode : Nat → Nat → List UInt8
  | 0, _ => []
  | k + 1, n => encode k (n / 256) ++ [UInt8.ofNat n]

def decode (bs : List UInt8) : Nat := bs.foldl (fun n b => n * 256 + b.toNat) 0

@[simp] theorem length_encode : (encode k n).length = k := by
  induction k generalizing n with
  | zero => rfl
  | succ k ih => rw [encode, List.length_append, ih, List.length_singleton]

theorem decode_concat (bs : List UInt8) (b : UInt8) : decode (bs ++ [b]) = decode bs * 256 + b.toNat :=
  List.foldl_append

theorem decode_encode (k n : Nat) : decode (encode k n) = n % 256 ^ k := by
  induction k generalizing n with
  | zero => rw [Nat.pow_zero, Nat.mod_one]; rfl
  | succ k ih =>
    have hbyte : (UInt8.ofNat n).toNat = n % 256 := UInt8.toNat_ofNat'
    rw [encode, decode_concat, ih, hbyte, Nat.pow_succ, Nat.mul_comm (256 ^ k), Nat.mod_mul]
    omega

theorem decode_lt (bs : List UInt8) : decode bs < 256 ^ bs.length := by
  induction bs using List.reverseRecOn with
  | nil => decide
  | append_singleton bs b ih =>
    have := b.toNat_lt
    rw [decode_concat, List.length_append, List.length_singleton, Nat.pow_succ]
    omega

end BigEndian
