import Mathlib.Data.Nat.Bitwise

/-!
A byte string read as a string of bits, the most significant bit of each byte
first, as SETBIT and the bitfield commands number them; past its end every bit
is zero. A run of bits is read as a number, most significant bit first, and as
a two's complement number of its width.
-/

namespace Foundations

def bitOf (p : List UInt8) (i : Nat) : Bool := (p.getD (i / 8) 0).toNat.testBit (7 - i % 8)

def readBits (f : Nat → Bool) : Nat → Nat
  | 0 => 0
  | n + 1 => readBits f n * 2 + (f n).toNat

def toSignedBits (n u : Nat) : Int := if u < 2 ^ (n - 1) then u else (u : Int) - 2 ^ n

theorem bitOf_def (p : List UInt8) (i : Nat) : bitOf p i = (p.getD (i / 8) 0).toNat.testBit (7 - i % 8) := rfl

@[simp] theorem readBits_zero (f : Nat → Bool) : readBits f 0 = 0 := rfl

theorem readBits_succ (f : Nat → Bool) (n : Nat) : readBits f (n + 1) = readBits f n * 2 + (f n).toNat := rfl

section Reading

variable {f g : Nat → Bool} {n : Nat}

theorem readBits_lt (f : Nat → Bool) (n : Nat) : readBits f n < 2 ^ n := by
  induction n with
  | zero => simp
  | succ n ih =>
    have digit := Bool.toNat_le (f n)
    rw [readBits_succ, Nat.pow_succ]
    omega

theorem testBit_readBits (f : Nat → Bool) (n k : Nat) :
    (readBits f n).testBit k = (decide (k < n) && f (n - 1 - k)) := by
  induction n generalizing k with
  | zero => simp
  | succ n ih =>
    have digit := Bool.toNat_le (f n)
    cases k with
    | zero =>
      -- the last digit is the lowest bit
      rw [readBits_succ, Nat.testBit_zero]
      cases last : f n <;> simp [last]
    | succ k =>
      -- the digits before it are the number shifted down by one
      rw [readBits_succ, Nat.testBit_add_one, show (readBits f n * 2 + (f n).toNat) / 2 = readBits f n by omega, ih,
        show n + 1 - 1 - (k + 1) = n - 1 - k by omega]
      simp

theorem readBits_congr (same : ∀ j < n, f j = g j) : readBits f n = readBits g n := by
  apply Nat.eq_of_testBit_eq
  intro k
  rw [testBit_readBits, testBit_readBits]
  by_cases low : k < n
  · rw [same _ (by omega)]
  · simp [low]

theorem readBits_add (f : Nat → Bool) (m n : Nat) :
    readBits f (m + n) = readBits f m * 2 ^ n + readBits (fun j => f (m + j)) n := by
  induction n with
  | zero => simp
  | succ n ih =>
    rw [← Nat.add_assoc, readBits_succ, ih, readBits_succ, Nat.pow_succ]
    rw [Nat.add_mul, Nat.mul_assoc, Nat.add_assoc]

theorem readBits_testBit (x n : Nat) : readBits (fun j => x.testBit (n - 1 - j)) n = x % 2 ^ n := by
  apply Nat.eq_of_testBit_eq
  intro k
  rw [testBit_readBits, Nat.testBit_mod_two_pow]
  by_cases low : k < n
  · simp [low, show n - 1 - (n - 1 - k) = k by omega]
  · simp [low]

theorem shiftLeft_one_or (v : Nat) (b : Bool) : v <<< 1 ||| b.toNat = v * 2 + b.toNat := by
  rw [← Nat.shiftLeft_add_eq_or_of_lt (by cases b <;> decide), Nat.shiftLeft_eq, Nat.pow_one]

end Reading

section Bytes

theorem bitOf_set (p : List UInt8) {byte : Nat} (inside : byte < p.length) (new : UInt8) (i : Nat) :
    bitOf (p.set byte new) i = if i / 8 = byte then new.toNat.testBit (7 - i % 8) else bitOf p i := by
  rw [bitOf_def, bitOf_def]
  rw [List.getD_eq_getElem?_getD, List.getElem?_set, List.getD_eq_getElem?_getD]
  by_cases same : i / 8 = byte
  · simp [same, inside]
  · simp [same, Ne.symm same]

theorem bitOf_append_zeros (p : List UInt8) (pad i : Nat) : bitOf (p ++ List.replicate pad 0) i = bitOf p i := by
  rw [bitOf_def, bitOf_def]
  rw [List.getD_eq_getElem?_getD, List.getD_eq_getElem?_getD, List.getElem?_append]
  split
  · rfl
  · next past =>
    rw [List.getElem?_eq_none (Nat.le_of_not_lt past), List.getElem?_replicate]
    split <;> simp

end Bytes

section Signed

variable {n : Nat}

theorem toSignedBits_emod {x : Int} (pos : 0 < n) (low : -2 ^ (n - 1) ≤ x) (high : x < 2 ^ (n - 1)) :
    toSignedBits n (x % 2 ^ n).toNat = x := by
  have double : (2 : Int) ^ n = 2 * 2 ^ (n - 1) := by
    rw [← Int.pow_succ', Nat.sub_add_cancel pos]
  have half : (0 : Int) < 2 ^ (n - 1) := by exact_mod_cast Nat.two_pow_pos (n - 1)
  have cast : ((2 ^ (n - 1) : Nat) : Int) = 2 ^ (n - 1) := by simp
  unfold toSignedBits
  by_cases sign : 0 ≤ x
  · -- a value that is not negative is its own residue
    have same : x % 2 ^ n = x := Int.emod_eq_of_lt sign (by omega)
    rw [same, if_pos (by omega)]
    omega
  · -- a negative value's residue is the value plus `2 ^ n`
    have shifted : x % 2 ^ n = x + 2 ^ n := by
      rw [← Int.add_emod_right, Int.emod_eq_of_lt (by omega) (by omega)]
    rw [shifted, if_neg (by omega)]
    omega

theorem toSignedBits_range {u : Nat} (pos : 0 < n) (fits : u < 2 ^ n) :
    -2 ^ (n - 1) ≤ toSignedBits n u ∧ toSignedBits n u ≤ 2 ^ (n - 1) - 1 := by
  have double : 2 ^ n = 2 * 2 ^ (n - 1) := by
    rw [← Nat.pow_succ']
    congr 1
    omega
  have cast : ((2 ^ n : Nat) : Int) = 2 ^ n := by simp
  have castHalf : ((2 ^ (n - 1) : Nat) : Int) = 2 ^ (n - 1) := by simp
  unfold toSignedBits
  split <;> omega

end Signed

end Foundations
