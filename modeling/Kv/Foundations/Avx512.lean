import Kv.Foundations.Simd
import Kv.Foundations.Bytes

/-!
The AVX-512 and SSE instructions of a decimal parser, lane by lane as the
instruction set manual defines them. Under a write mask a lane whose bit is clear
is zero, and a masked load does not read its byte; a mask is a 32-bit word whose
bit `j` governs byte lane `j`. The multiply-adds combine adjacent lanes into
lanes twice as wide in the signed arithmetic of `toSigned` and `ofSigned`; each
has a lemma for operands small enough that nothing saturates or wraps, which is
how a parser of digits uses them.
-/

namespace Foundations

theorem build_eq_zero_iff {size w n : Nat} (fits : w * n ≤ size) (f : Nat → Nat) :
    build size w n f = 0 ↔ ∀ j < n, f j % 2 ^ w = 0 := by
  constructor
  · intro zero j inside
    rw [← lane_build fits f inside, zero]
    simp
  · intro zero
    rw [build, ofLanes_eq_zero]
    · rfl
    · intro x mem
      obtain ⟨j, inside, rfl⟩ := List.mem_map.mp mem
      exact zero j (List.mem_range.mp inside)

section Masked

def mm256_maskz_loadu_epi8 (k : UInt32) (mem : List UInt8) (addr : Int) : BitVec 256 :=
  build 256 8 32 fun j => if k.toNat.testBit j then (mem.getD (addr + j).toNat 0).toNat else 0

def mm256_maskz_sub_epi8 (k : UInt32) (a b : BitVec 256) : BitVec 256 :=
  build 256 8 32 fun j => if k.toNat.testBit j then lane 8 a.toNat j + (2 ^ 8 - lane 8 b.toNat j) else 0

def mm256_mask_cmpgt_epu8_mask (k : UInt32) (a b : BitVec 256) : UInt32 :=
  UInt32.ofBitVec (build 32 1 32 fun j => if k.toNat.testBit j ∧ lane 8 b.toNat j < lane 8 a.toNat j then 1 else 0)

variable {j : Nat}

theorem lane_mm256_maskz_loadu_epi8 (k : UInt32) (mem : List UInt8) (addr : Int) (inside : j < 32) :
    lane 8 (mm256_maskz_loadu_epi8 k mem addr).toNat j =
      if k.toNat.testBit j then (mem.getD (addr + j).toNat 0).toNat else 0 := by
  have small : (if k.toNat.testBit j then (mem.getD (addr + j).toNat 0).toNat else 0) < 2 ^ 8 := by
    split
    · exact UInt8.toNat_lt _
    · decide
  rw [mm256_maskz_loadu_epi8, lane_build (by decide) _ inside, Nat.mod_eq_of_lt small]

theorem lane_mm256_maskz_sub_epi8 (k : UInt32) (a b : BitVec 256) (inside : j < 32) :
    lane 8 (mm256_maskz_sub_epi8 k a b).toNat j =
      if k.toNat.testBit j then (lane 8 a.toNat j + (2 ^ 8 - lane 8 b.toNat j)) % 2 ^ 8 else 0 := by
  rw [mm256_maskz_sub_epi8, lane_build (by decide) _ inside]
  split
  · rfl
  · rfl

theorem mm256_mask_cmpgt_epu8_mask_eq_zero (k : UInt32) (a b : BitVec 256) :
    mm256_mask_cmpgt_epu8_mask k a b = 0 ↔ ∀ j < 32, k.toNat.testBit j → lane 8 a.toNat j ≤ lane 8 b.toNat j := by
  rw [mm256_mask_cmpgt_epu8_mask, show (0 : UInt32) = UInt32.ofBitVec 0 from rfl, UInt32.ofBitVec.injEq,
    build_eq_zero_iff (by decide)]
  apply forall₂_congr
  intro j _
  by_cases set : k.toNat.testBit j
  · by_cases greater : lane 8 b.toNat j < lane 8 a.toNat j
    · simp [set, greater]
    · simp [set, greater]
      omega
  · simp [set]

end Masked

section Set

def setEpi8 (size n : Nat) (e : List UInt8) : BitVec size := build size 8 n fun j => (e.getD (n - 1 - j) 0).toNat

def mm256_set_epi8 (e : List UInt8) : BitVec 256 := setEpi8 256 32 e

def mm_set_epi8 (e : List UInt8) : BitVec 128 := setEpi8 128 16 e

def mm_set_epi16 (e : List UInt16) : BitVec 128 := build 128 16 8 fun j => (e.getD (7 - j) 0).toNat

variable {j : Nat}

theorem lane_setEpi8 {size n : Nat} (fits : 8 * n ≤ size) (e : List UInt8) (inside : j < n) :
    lane 8 (setEpi8 size n e).toNat j = (e.getD (n - 1 - j) 0).toNat := by
  rw [setEpi8, lane_build fits _ inside, Nat.mod_eq_of_lt (UInt8.toNat_lt _)]

theorem lane_mm_set_epi16 (e : List UInt16) (inside : j < 8) :
    lane 16 (mm_set_epi16 e).toNat j = (e.getD (7 - j) 0).toNat := by
  rw [mm_set_epi16, lane_build (by decide) _ inside, Nat.mod_eq_of_lt (UInt16.toNat_lt _)]

end Set

section MultiplyAdd

def saturate16 (x : Int) : Int := if x > 32767 then 32767 else if x < -32768 then -32768 else x

def maddubsEpi16 (size n : Nat) (a b : BitVec size) : BitVec size :=
  build size 16 n fun j =>
    ofSigned 2 (saturate16 (lane 8 a.toNat (2 * j + 1) * toSigned 1 (lane 8 b.toNat (2 * j + 1)) +
      lane 8 a.toNat (2 * j) * toSigned 1 (lane 8 b.toNat (2 * j))))

def mm256_maddubs_epi16 (a b : BitVec 256) : BitVec 256 := maddubsEpi16 256 16 a b

def mm_maddubs_epi16 (a b : BitVec 128) : BitVec 128 := maddubsEpi16 128 8 a b

def mm256_cvtepi16_epi8 (a : BitVec 256) : BitVec 128 := build 128 8 16 fun j => lane 16 a.toNat j

def mm_madd_epi16 (a b : BitVec 128) : BitVec 128 :=
  build 128 32 4 fun j =>
    ofSigned 4 (toSigned 2 (lane 16 a.toNat (2 * j + 1)) * toSigned 2 (lane 16 b.toNat (2 * j + 1)) +
      toSigned 2 (lane 16 a.toNat (2 * j)) * toSigned 2 (lane 16 b.toNat (2 * j)))

def mm_extract_epi32 (a : BitVec 128) (imm8 : Nat) : Int32 := Int32.ofNat (lane 32 a.toNat (imm8 % 4))

variable {j : Nat}

theorem saturate16_of_lt {n : Nat} (small : n < 2 ^ 15) : saturate16 n = n := by
  rw [saturate16, if_neg (by omega), if_neg (by omega)]

theorem lane_maddubsEpi16 {size n : Nat} (fits : 16 * n ≤ size) (a b : BitVec size) (inside : j < n)
    (odd : lane 8 b.toNat (2 * j + 1) < 2 ^ 7) (even : lane 8 b.toNat (2 * j) < 2 ^ 7)
    (bound : lane 8 a.toNat (2 * j + 1) * lane 8 b.toNat (2 * j + 1) + lane 8 a.toNat (2 * j) * lane 8 b.toNat (2 * j) <
      2 ^ 15) :
    lane 16 (maddubsEpi16 size n a b).toNat j =
      lane 8 a.toNat (2 * j + 1) * lane 8 b.toNat (2 * j + 1) + lane 8 a.toNat (2 * j) * lane 8 b.toNat (2 * j) := by
  have sum : (lane 8 a.toNat (2 * j + 1) : Int) * toSigned 1 (lane 8 b.toNat (2 * j + 1)) +
      lane 8 a.toNat (2 * j) * toSigned 1 (lane 8 b.toNat (2 * j)) =
      ((lane 8 a.toNat (2 * j + 1) * lane 8 b.toNat (2 * j + 1) + lane 8 a.toNat (2 * j) * lane 8 b.toNat (2 * j) :
        Nat) : Int) := by
    rw [toSigned_of_lt (by omega), toSigned_of_lt (by omega)]
    push_cast
    rfl
  rw [maddubsEpi16, lane_build fits _ inside, sum, saturate16_of_lt bound, ofSigned_of_lt (by omega),
    Nat.mod_eq_of_lt (by omega)]

theorem lane_mm256_cvtepi16_epi8 (a : BitVec 256) (inside : j < 16) :
    lane 8 (mm256_cvtepi16_epi8 a).toNat j = lane 16 a.toNat j % 2 ^ 8 :=
  lane_build (by decide) _ inside

theorem lane_mm_madd_epi16 (a b : BitVec 128) (inside : j < 4)
    (a₁ : lane 16 a.toNat (2 * j + 1) < 2 ^ 15) (b₁ : lane 16 b.toNat (2 * j + 1) < 2 ^ 15)
    (a₀ : lane 16 a.toNat (2 * j) < 2 ^ 15) (b₀ : lane 16 b.toNat (2 * j) < 2 ^ 15) :
    lane 32 (mm_madd_epi16 a b).toNat j =
      lane 16 a.toNat (2 * j + 1) * lane 16 b.toNat (2 * j + 1) + lane 16 a.toNat (2 * j) * lane 16 b.toNat (2 * j) := by
  have high : lane 16 a.toNat (2 * j + 1) * lane 16 b.toNat (2 * j + 1) < 2 ^ 15 * 2 ^ 15 :=
    Nat.mul_lt_mul'' a₁ b₁
  have low : lane 16 a.toNat (2 * j) * lane 16 b.toNat (2 * j) < 2 ^ 15 * 2 ^ 15 := Nat.mul_lt_mul'' a₀ b₀
  have sum : toSigned 2 (lane 16 a.toNat (2 * j + 1)) * toSigned 2 (lane 16 b.toNat (2 * j + 1)) +
      toSigned 2 (lane 16 a.toNat (2 * j)) * toSigned 2 (lane 16 b.toNat (2 * j)) =
      ((lane 16 a.toNat (2 * j + 1) * lane 16 b.toNat (2 * j + 1) + lane 16 a.toNat (2 * j) * lane 16 b.toNat (2 * j) :
        Nat) : Int) := by
    rw [toSigned_of_lt (by omega), toSigned_of_lt (by omega), toSigned_of_lt (by omega), toSigned_of_lt (by omega)]
    push_cast
    rfl
  rw [mm_madd_epi16, lane_build (by decide) _ inside, sum, ofSigned_of_lt (by omega), Nat.mod_eq_of_lt (by omega)]

theorem toInt_mm_extract_epi32 (a : BitVec 128) (imm8 : Nat) (small : lane 32 a.toNat (imm8 % 4) < 2 ^ 31) :
    (mm_extract_epi32 a imm8).toInt = lane 32 a.toNat (imm8 % 4) :=
  Int32.toInt_ofNat_of_lt small

end MultiplyAdd

end Foundations
