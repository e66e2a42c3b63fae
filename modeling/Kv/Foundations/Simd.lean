import Kv.Foundations.Lanes
import Mathlib.Algebra.Order.BigOperators.Group.Finset

/-!
The AVX2 and NEON instructions of a byte-counting loop, lane by lane as the
instruction set manuals define them. A register is a bit vector of its width,
256 bits for AVX2 and 128 for NEON, read as lanes of the width each instruction
names; `build` makes the register whose lanes hold given values, each reduced
modulo the lane width as the hardware truncates it, and `lane_build` reads them
back, so that each instruction's lemma is one line. Memory is a list of bytes and
a load reads the bytes from an offset on, zeros past the end.
-/

namespace Foundations

open Finset

def build (size w n : Nat) (f : Nat → Nat) : BitVec size :=
  BitVec.ofNat size (ofLanes w ((List.range n).map fun j => f j % 2 ^ w))

theorem lane_build {size w n : Nat} (fits : w * n ≤ size) (f : Nat → Nat) {j : Nat} (inside : j < n) :
    lane w (build size w n f).toNat j = f j % 2 ^ w := by
  have fit : ∀ x ∈ (List.range n).map (fun j => f j % 2 ^ w), x < 2 ^ w := by
    intro x mem
    obtain ⟨i, -, rfl⟩ := List.mem_map.mp mem
    exact Nat.mod_lt _ (Nat.two_pow_pos w)
  have small : ofLanes w ((List.range n).map fun j => f j % 2 ^ w) < 2 ^ size := by
    have below := ofLanes_lt fit
    rw [List.length_map, List.length_range] at below
    exact lt_of_lt_of_le below (Nat.pow_le_pow_right (by decide) fits)
  rw [build, BitVec.toNat_ofNat, Nat.mod_eq_of_lt small, lane_ofLanes fit,
    List.getD_eq_getElem _ _ (by simpa using inside)]
  simp

@[simp] theorem lane_zero (w j : Nat) : lane w 0 j = 0 := by
  simp [lane_def]

theorem testBit_eq_testBit_lane {w : Nat} (pos : 0 < w) (v k : Nat) :
    v.testBit k = (lane w v (k / w)).testBit (k % w) := by
  rw [testBit_lane, decide_eq_true (Nat.mod_lt k pos), Bool.true_and, Nat.mod_add_div]

theorem testBit_build {size w n : Nat} (fits : w * n ≤ size) (pos : 0 < w) (f : Nat → Nat) {k : Nat}
    (inside : k < w * n) : (build size w n f).toNat.testBit k = (f (k / w)).testBit (k % w) := by
  rw [testBit_eq_testBit_lane pos, lane_build fits f (Nat.div_lt_of_lt_mul inside), Nat.testBit_mod_two_pow,
    decide_eq_true (Nat.mod_lt k pos), Bool.true_and]

/-- The `n` bytes of `v` written into a buffer at offset `i`, as an unaligned store of an `n`-byte register
does within the buffer. -/
def storeLanes (n : Nat) (p : List UInt8) (i v : Nat) : List UInt8 :=
  p.mapIdx fun k b => if i ≤ k ∧ k < i + n then UInt8.ofNat (lane 8 v (k - i)) else b

@[simp] theorem length_storeLanes (n : Nat) (p : List UInt8) (i v : Nat) : (storeLanes n p i v).length = p.length :=
  List.length_mapIdx

theorem getD_storeLanes (n : Nat) (p : List UInt8) (i v k : Nat) :
    (storeLanes n p i v).getD k 0 =
      if i ≤ k ∧ k < i + n ∧ k < p.length then UInt8.ofNat (lane 8 v (k - i)) else p.getD k 0 := by
  by_cases inside : k < p.length
  · rw [List.getD_eq_getElem _ _ (by rw [length_storeLanes]; exact inside), List.getD_eq_getElem _ _ inside]
    simp only [storeLanes, List.getElem_mapIdx]
    by_cases stored : i ≤ k ∧ k < i + n
    · rw [if_pos stored, if_pos ⟨stored.1, stored.2, inside⟩]
    · rw [if_neg stored, if_neg fun all => stored ⟨all.1, all.2.1⟩]
  · rw [List.getD_eq_default _ _ (by rw [length_storeLanes]; omega), List.getD_eq_default _ _ (by omega),
      if_neg fun all => inside all.2.2]

/-! ### Registers of 32-bit lanes

Broadcasts and shifts of 32-bit lanes, read at bit `q` of lane `g`. -/

section Lanes32

variable {size n g q : Nat}

theorem testBit_build_const (fits : 32 * n ≤ size) (c : Nat) (lanes : g < n) (low : q < 32) :
    (build size 32 n fun _ => c).toNat.testBit (32 * g + q) = c.testBit q := by
  rw [testBit_build fits (by decide) _ (by omega), show (32 * g + q) % 32 = q by omega]

theorem testBit_build_shiftLeft (fits : 32 * n ≤ size) (v s : Nat) (lanes : g < n) (low : q < 32) :
    (build size 32 n fun j => lane 32 v j <<< s).toNat.testBit (32 * g + q) =
      (decide (s ≤ q) && v.testBit (32 * g + (q - s))) := by
  rw [testBit_build fits (by decide) _ (by omega), show (32 * g + q) / 32 = g by omega,
    show (32 * g + q) % 32 = q by omega, Nat.testBit_shiftLeft, testBit_lane]
  by_cases le : s ≤ q
  · rw [show q - s + 32 * g = 32 * g + (q - s) by omega]
    simp [le, show q - s < 32 by omega]
  · simp [le]

theorem testBit_build_shiftRight (fits : 32 * n ≤ size) (v s : Nat) (lanes : g < n) (low : q < 32) :
    (build size 32 n fun j => lane 32 v j >>> s).toNat.testBit (32 * g + q) =
      (decide (q + s < 32) && v.testBit (32 * g + (q + s))) := by
  rw [testBit_build fits (by decide) _ (by omega), show (32 * g + q) / 32 = g by omega,
    show (32 * g + q) % 32 = q by omega, Nat.testBit_shiftRight, testBit_lane,
    show s + q + 32 * g = 32 * g + (q + s) by omega, Nat.add_comm s q]

end Lanes32

section Avx2

def mm256_setzero_si256 : BitVec 256 := 0

def mm256_set1_epi8 (a : UInt8) : BitVec 256 := build 256 8 32 fun _ => a.toNat

def mm256_setr_epi8 (e : List UInt8) : BitVec 256 := build 256 8 32 fun j => (e.getD j 0).toNat

def mm256_loadu_si256 (p : List UInt8) (i : Nat) : BitVec 256 := build 256 8 32 fun j => (p.getD (i + j) 0).toNat

def mm256_and_si256 (a b : BitVec 256) : BitVec 256 := a &&& b

def mm256_srli_epi16 (a : BitVec 256) (imm8 : Nat) : BitVec 256 :=
  build 256 16 16 fun j => if imm8 > 15 then 0 else lane 16 a.toNat j >>> imm8

def mm256_shuffle_epi8 (a b : BitVec 256) : BitVec 256 :=
  build 256 8 32 fun j =>
    if (lane 8 b.toNat j).testBit 7 then 0 else lane 8 a.toNat (16 * (j / 16) + lane 8 b.toNat j % 16)

def mm256_add_epi8 (a b : BitVec 256) : BitVec 256 := build 256 8 32 fun j => lane 8 a.toNat j + lane 8 b.toNat j

def mm256_sad_epu8 (a b : BitVec 256) : BitVec 256 :=
  build 256 64 4 fun j =>
    ∑ k ∈ range 8, (((lane 8 a.toNat (8 * j + k) : Nat) : Int) - (lane 8 b.toNat (8 * j + k) : Nat)).natAbs

def mm256_add_epi64 (a b : BitVec 256) : BitVec 256 := build 256 64 4 fun j => lane 64 a.toNat j + lane 64 b.toNat j

def mm256_extract_epi64 (a : BitVec 256) (index : Nat) : Int64 := Int64.ofNat (lane 64 a.toNat (index % 4))

def mm256_set1_epi32 (a : UInt32) : BitVec 256 := build 256 32 8 fun _ => a.toNat

def mm256_slli_epi32 (a : BitVec 256) (imm8 : Nat) : BitVec 256 :=
  if imm8 > 31 then 0 else build 256 32 8 fun j => lane 32 a.toNat j <<< imm8

def mm256_srli_epi32 (a : BitVec 256) (imm8 : Nat) : BitVec 256 :=
  if imm8 > 31 then 0 else build 256 32 8 fun j => lane 32 a.toNat j >>> imm8

def mm256_or_si256 (a b : BitVec 256) : BitVec 256 := a ||| b

def mm256_max_epu8 (a b : BitVec 256) : BitVec 256 :=
  build 256 8 32 fun j => max (lane 8 a.toNat j) (lane 8 b.toNat j)

def mm256_storeu_si256 (p : List UInt8) (i : Nat) (a : BitVec 256) : List UInt8 := storeLanes 32 p i a.toNat

def mm256_castsi256_si128 (a : BitVec 256) : BitVec 128 := build 128 8 16 fun j => lane 8 a.toNat j

def mm256_extracti128_si256 (a : BitVec 256) (imm8 : Nat) : BitVec 128 :=
  build 128 8 16 fun j => lane 8 a.toNat (16 * (imm8 % 2) + j)

def mm_storeu_si128 (p : List UInt8) (i : Nat) (a : BitVec 128) : List UInt8 := storeLanes 16 p i a.toNat

variable {j : Nat}

@[simp] theorem lane_mm256_setzero_si256 (w j : Nat) : lane w mm256_setzero_si256.toNat j = 0 := by
  simp [mm256_setzero_si256]

theorem lane_mm256_set1_epi8 (a : UInt8) (inside : j < 32) : lane 8 (mm256_set1_epi8 a).toNat j = a.toNat := by
  rw [mm256_set1_epi8, lane_build (by decide) _ inside, Nat.mod_eq_of_lt a.toNat_lt]

theorem lane_mm256_setr_epi8 (e : List UInt8) (inside : j < 32) :
    lane 8 (mm256_setr_epi8 e).toNat j = (e.getD j 0).toNat := by
  rw [mm256_setr_epi8, lane_build (by decide) _ inside, Nat.mod_eq_of_lt (UInt8.toNat_lt _)]

theorem lane_mm256_loadu_si256 (p : List UInt8) (i : Nat) (inside : j < 32) :
    lane 8 (mm256_loadu_si256 p i).toNat j = (p.getD (i + j) 0).toNat := by
  rw [mm256_loadu_si256, lane_build (by decide) _ inside, Nat.mod_eq_of_lt (UInt8.toNat_lt _)]

theorem lane_mm256_and_si256 (w : Nat) (a b : BitVec 256) :
    lane w (mm256_and_si256 a b).toNat j = lane w a.toNat j &&& lane w b.toNat j := by
  rw [mm256_and_si256, BitVec.toNat_and, lane_and]

theorem lane_mm256_add_epi8 (a b : BitVec 256) (inside : j < 32) :
    lane 8 (mm256_add_epi8 a b).toNat j = (lane 8 a.toNat j + lane 8 b.toNat j) % 2 ^ 8 :=
  lane_build (by decide) _ inside

theorem lane_mm256_shuffle_epi8 (a b : BitVec 256) (inside : j < 32) (index : lane 8 b.toNat j < 2 ^ 4) :
    lane 8 (mm256_shuffle_epi8 a b).toNat j = lane 8 a.toNat (16 * (j / 16) + lane 8 b.toNat j) := by
  have clear : (lane 8 b.toNat j).testBit 7 = false := Nat.testBit_lt_two_pow (lt_of_lt_of_le index (by decide))
  rw [mm256_shuffle_epi8, lane_build (by decide) _ inside, clear, if_neg Bool.false_ne_true,
    Nat.mod_eq_of_lt (show lane 8 b.toNat j < 16 from index), Nat.mod_eq_of_lt (lane_lt 8 _ _)]

theorem lane_mm256_shuffle_epi8_of_testBit (a b : BitVec 256) (inside : j < 32) (zero : (lane 8 b.toNat j).testBit 7) :
    lane 8 (mm256_shuffle_epi8 a b).toNat j = 0 := by
  rw [mm256_shuffle_epi8, lane_build (by decide) _ inside, if_pos zero, Nat.zero_mod]

theorem lane_mm256_max_epu8 (a b : BitVec 256) (inside : j < 32) :
    lane 8 (mm256_max_epu8 a b).toNat j = max (lane 8 a.toNat j) (lane 8 b.toNat j) := by
  rw [mm256_max_epu8, lane_build (by decide) _ inside, Nat.mod_eq_of_lt (max_lt (lane_lt 8 _ _) (lane_lt 8 _ _))]

theorem lane_mm256_castsi256_si128 (a : BitVec 256) (inside : j < 16) :
    lane 8 (mm256_castsi256_si128 a).toNat j = lane 8 a.toNat j := by
  rw [mm256_castsi256_si128, lane_build (by decide) _ inside, Nat.mod_eq_of_lt (lane_lt 8 _ _)]

theorem lane_mm256_extracti128_si256 (a : BitVec 256) (imm8 : Nat) (inside : j < 16) :
    lane 8 (mm256_extracti128_si256 a imm8).toNat j = lane 8 a.toNat (16 * (imm8 % 2) + j) := by
  rw [mm256_extracti128_si256, lane_build (by decide) _ inside, Nat.mod_eq_of_lt (lane_lt 8 _ _)]

theorem testBit_mm256_and_si256 (a b : BitVec 256) (k : Nat) :
    (mm256_and_si256 a b).toNat.testBit k = (a.toNat.testBit k && b.toNat.testBit k) := by
  rw [mm256_and_si256, BitVec.toNat_and, Nat.testBit_and]

theorem testBit_mm256_or_si256 (a b : BitVec 256) (k : Nat) :
    (mm256_or_si256 a b).toNat.testBit k = (a.toNat.testBit k || b.toNat.testBit k) := by
  rw [mm256_or_si256, BitVec.toNat_or, Nat.testBit_or]

theorem testBit_mm256_set1_epi32 (a : UInt32) {g q : Nat} (lanes : g < 8) (low : q < 32) :
    (mm256_set1_epi32 a).toNat.testBit (32 * g + q) = a.toNat.testBit q :=
  testBit_build_const (by decide) _ lanes low

theorem testBit_mm256_slli_epi32 (a : BitVec 256) {s g q : Nat} (small : s ≤ 31) (lanes : g < 8) (low : q < 32) :
    (mm256_slli_epi32 a s).toNat.testBit (32 * g + q) = (decide (s ≤ q) && a.toNat.testBit (32 * g + (q - s))) := by
  rw [mm256_slli_epi32, if_neg (by omega), testBit_build_shiftLeft (by decide) _ _ lanes low]

theorem testBit_mm256_srli_epi32 (a : BitVec 256) {s g q : Nat} (small : s ≤ 31) (lanes : g < 8) (low : q < 32) :
    (mm256_srli_epi32 a s).toNat.testBit (32 * g + q) = (decide (q + s < 32) && a.toNat.testBit (32 * g + (q + s))) := by
  rw [mm256_srli_epi32, if_neg (by omega), testBit_build_shiftRight (by decide) _ _ lanes low]

theorem lane_mm256_add_epi64 (a b : BitVec 256) (inside : j < 4) :
    lane 64 (mm256_add_epi64 a b).toNat j = (lane 64 a.toNat j + lane 64 b.toNat j) % 2 ^ 64 :=
  lane_build (by decide) _ inside

theorem lane_mm256_and_srli_epi16 {s : Nat} (le : s ≤ 8) {m : UInt8} (mask : m.toNat < 2 ^ (8 - s)) (a : BitVec 256)
    (inside : j < 32) :
    lane 8 (mm256_and_si256 (mm256_srli_epi16 a s) (mm256_set1_epi8 m)).toNat j = lane 8 a.toNat j >>> s &&& m.toNat := by
  have half : j / 2 < 16 := by omega
  have byte := lane_lt 8 a.toNat j
  have word : lane 16 a.toNat (j / 2) >>> s < 2 ^ 16 :=
    lt_of_le_of_lt (Nat.shiftRight_le _ _) (lane_lt 16 _ _)
  have parts := shiftRight_lane_add le (lane 8 a.toNat (2 * (j / 2))) (lane 8 a.toNat (2 * (j / 2) + 1))
  have low : lane 8 a.toNat (2 * (j / 2)) >>> s + 2 ^ (8 - s) * (lane 8 a.toNat (2 * (j / 2) + 1) % 2 ^ s) < 2 ^ 8 := by
    have shifted : lane 8 a.toNat (2 * (j / 2)) >>> s < 2 ^ (8 - s) := by
      rw [Nat.shiftRight_eq_div_pow, Nat.div_lt_iff_lt_mul (Nat.two_pow_pos s), ← Nat.pow_add, Nat.sub_add_cancel le]
      exact lane_lt 8 _ _
    have within := add_two_pow_mul_lt shifted (Nat.mod_lt (lane 8 a.toNat (2 * (j / 2) + 1)) (Nat.two_pow_pos s))
    rwa [Nat.sub_add_cancel le] at within
  have word16 : lane 16 a.toNat (j / 2) = lane 8 a.toNat (2 * (j / 2)) + 2 ^ 8 * lane 8 a.toNat (2 * (j / 2) + 1) :=
    lane_double (w := 8) a.toNat (j / 2)
  rw [lane_mm256_and_si256, lane_mm256_set1_epi8 m inside, ← Nat.div_add_mod j 2, lane_mul_add _ (Nat.mod_lt j (by decide)),
    mm256_srli_epi16, lane_build (by decide) _ half, if_neg (by omega), Nat.mod_eq_of_lt word, word16, parts]
  rcases Nat.mod_two_eq_zero_or_one j with even | odd
  · -- the low byte of the word: what the mask keeps came from this byte
    rw [even, Nat.add_zero, lane_def, Nat.mul_zero, Nat.pow_zero, Nat.div_one, Nat.add_mul_mod_self_left,
      Nat.mod_eq_of_lt low, add_two_pow_mul_and mask, Nat.add_zero]
  · -- the high byte of the word: only its own bits remain
    have top : lane 8 a.toNat (2 * (j / 2) + 1) >>> s < 2 ^ 8 :=
      lt_of_le_of_lt (Nat.shiftRight_le _ _) (lane_lt 8 _ _)
    rw [odd, lane_def, Nat.mul_one, Nat.add_mul_div_left _ _ (Nat.two_pow_pos 8), Nat.div_eq_of_lt low, Nat.zero_add,
      Nat.mod_eq_of_lt top]

theorem sum_lane_mm256_sad_epu8 (a : BitVec 256) :
    ∑ g ∈ range 4, lane 64 (mm256_sad_epu8 a mm256_setzero_si256).toNat g = ∑ j ∈ range 32, lane 8 a.toNat j := by
  have group : ∀ g ∈ range 4, lane 64 (mm256_sad_epu8 a mm256_setzero_si256).toNat g =
      ∑ k ∈ range 8, lane 8 a.toNat (8 * g + k) := by
    intro g mem
    have small : ∑ k ∈ range 8, lane 8 a.toNat (8 * g + k) < 2 ^ 64 := by
      have each : ∀ k ∈ range 8, lane 8 a.toNat (8 * g + k) ≤ 255 := fun k _ => by
        have := lane_lt 8 a.toNat (8 * g + k)
        omega
      calc ∑ k ∈ range 8, lane 8 a.toNat (8 * g + k) ≤ ∑ k ∈ range 8, 255 := Finset.sum_le_sum each
        _ < 2 ^ 64 := by simp
    rw [mm256_sad_epu8, lane_build (by decide) _ (Finset.mem_range.mp mem)]
    simp only [lane_mm256_setzero_si256, Nat.cast_zero, sub_zero, Int.natAbs_natCast]
    exact Nat.mod_eq_of_lt small
  rw [Finset.sum_congr rfl group, sum_range_mul_add]

theorem sum_lane_mm256_add_epi64 (a b : BitVec 256) :
    (∑ g ∈ range 4, lane 64 (mm256_add_epi64 a b).toNat g) % 2 ^ 64 =
      (∑ g ∈ range 4, lane 64 a.toNat g + ∑ g ∈ range 4, lane 64 b.toNat g) % 2 ^ 64 := by
  rw [Finset.sum_congr rfl fun g mem => lane_mm256_add_epi64 a b (Finset.mem_range.mp mem), ← Finset.sum_nat_mod,
    Finset.sum_add_distrib]

end Avx2

section Neon

def vld1q_u8 (p : List UInt8) (i : Nat) : BitVec 128 := build 128 8 16 fun j => (p.getD (i + j) 0).toNat

def vcntq_u8 (a : BitVec 128) : BitVec 128 :=
  build 128 8 16 fun j => (List.range 8).countP fun t => (lane 8 a.toNat j).testBit t

def vaddq_u8 (a b : BitVec 128) : BitVec 128 := build 128 8 16 fun j => lane 8 a.toNat j + lane 8 b.toNat j

def vpaddlq_u8 (a : BitVec 128) : BitVec 128 :=
  build 128 16 8 fun j => lane 8 a.toNat (2 * j) + lane 8 a.toNat (2 * j + 1)

def vaddvq_u16 (a : BitVec 128) : UInt16 := UInt16.ofNat (∑ j ∈ range 8, lane 16 a.toNat j)

def vaddvq_u8 (a : BitVec 128) : UInt8 := UInt8.ofNat (∑ j ∈ range 16, lane 8 a.toNat j)

/-- A load of four 32-bit lanes: the same bytes as vld1q_u8, little-endian. -/
def vld1q_u32 (p : List UInt8) (i : Nat) : BitVec 128 := build 128 8 16 fun j => (p.getD (i + j) 0).toNat

def vdupq_n_u32 (a : UInt32) : BitVec 128 := build 128 32 4 fun _ => a.toNat

def vqtbl1q_u8 (t idx : BitVec 128) : BitVec 128 :=
  build 128 8 16 fun j => if lane 8 idx.toNat j < 16 then lane 8 t.toNat (lane 8 idx.toNat j) else 0

def vandq_u8 (a b : BitVec 128) : BitVec 128 := a &&& b

def vandq_u32 (a b : BitVec 128) : BitVec 128 := a &&& b

def vorrq_u8 (a b : BitVec 128) : BitVec 128 := a ||| b

def vorrq_u32 (a b : BitVec 128) : BitVec 128 := a ||| b

def vshlq_n_u32 (a : BitVec 128) (n : Nat) : BitVec 128 := build 128 32 4 fun j => lane 32 a.toNat j <<< n

def vshrq_n_u32 (a : BitVec 128) (n : Nat) : BitVec 128 := build 128 32 4 fun j => lane 32 a.toNat j >>> n

def vmaxq_u8 (a b : BitVec 128) : BitVec 128 := build 128 8 16 fun j => max (lane 8 a.toNat j) (lane 8 b.toNat j)

def vst1q_u8 (p : List UInt8) (i : Nat) (a : BitVec 128) : List UInt8 := storeLanes 16 p i a.toNat

variable {j : Nat}

theorem lane_vld1q_u8 (p : List UInt8) (i : Nat) (inside : j < 16) :
    lane 8 (vld1q_u8 p i).toNat j = (p.getD (i + j) 0).toNat := by
  rw [vld1q_u8, lane_build (by decide) _ inside, Nat.mod_eq_of_lt (UInt8.toNat_lt _)]

theorem lane_vcntq_u8 (a : BitVec 128) (inside : j < 16) :
    lane 8 (vcntq_u8 a).toNat j = (List.range 8).countP fun t => (lane 8 a.toNat j).testBit t := by
  have few : (List.range 8).countP (fun t => (lane 8 a.toNat j).testBit t) < 2 ^ 8 :=
    lt_of_le_of_lt (List.countP_le_length) (by simp)
  rw [vcntq_u8, lane_build (by decide) _ inside, Nat.mod_eq_of_lt few]

theorem lane_vaddq_u8 (a b : BitVec 128) (inside : j < 16) :
    lane 8 (vaddq_u8 a b).toNat j = (lane 8 a.toNat j + lane 8 b.toNat j) % 2 ^ 8 :=
  lane_build (by decide) _ inside

theorem sum_lane_vpaddlq_u8 (a : BitVec 128) :
    ∑ g ∈ range 8, lane 16 (vpaddlq_u8 a).toNat g = ∑ k ∈ range 16, lane 8 a.toNat k := by
  have pair : ∀ g ∈ range 8, lane 16 (vpaddlq_u8 a).toNat g = ∑ k ∈ range 2, lane 8 a.toNat (2 * g + k) := by
    intro g mem
    have small : lane 8 a.toNat (2 * g) + lane 8 a.toNat (2 * g + 1) < 2 ^ 16 := by
      have := lane_lt 8 a.toNat (2 * g)
      have := lane_lt 8 a.toNat (2 * g + 1)
      omega
    rw [vpaddlq_u8, lane_build (by decide) _ (Finset.mem_range.mp mem), Nat.mod_eq_of_lt small]
    simp [Finset.sum_range_succ]
  rw [Finset.sum_congr rfl pair, sum_range_mul_add]

theorem toNat_vaddvq_u16 (a : BitVec 128) : (vaddvq_u16 a).toNat = (∑ j ∈ range 8, lane 16 a.toNat j) % 2 ^ 16 := by
  rw [vaddvq_u16, UInt16.toNat_ofNat']

theorem toNat_vaddvq_u8 (a : BitVec 128) : (vaddvq_u8 a).toNat = (∑ j ∈ range 16, lane 8 a.toNat j) % 2 ^ 8 := by
  rw [vaddvq_u8, UInt8.toNat_ofNat']

theorem lane_vld1q_u32 (p : List UInt8) (i : Nat) (inside : j < 16) :
    lane 8 (vld1q_u32 p i).toNat j = (p.getD (i + j) 0).toNat := by
  rw [vld1q_u32, lane_build (by decide) _ inside, Nat.mod_eq_of_lt (UInt8.toNat_lt _)]

theorem lane_vqtbl1q_u8 (t idx : BitVec 128) (inside : j < 16) (index : lane 8 idx.toNat j < 16) :
    lane 8 (vqtbl1q_u8 t idx).toNat j = lane 8 t.toNat (lane 8 idx.toNat j) := by
  rw [vqtbl1q_u8, lane_build (by decide) _ inside, if_pos index, Nat.mod_eq_of_lt (lane_lt 8 _ _)]

theorem lane_vqtbl1q_u8_of_le (t idx : BitVec 128) (inside : j < 16) (index : 16 ≤ lane 8 idx.toNat j) :
    lane 8 (vqtbl1q_u8 t idx).toNat j = 0 := by
  rw [vqtbl1q_u8, lane_build (by decide) _ inside, if_neg (by omega), Nat.zero_mod]

theorem lane_vmaxq_u8 (a b : BitVec 128) (inside : j < 16) :
    lane 8 (vmaxq_u8 a b).toNat j = max (lane 8 a.toNat j) (lane 8 b.toNat j) := by
  rw [vmaxq_u8, lane_build (by decide) _ inside, Nat.mod_eq_of_lt (max_lt (lane_lt 8 _ _) (lane_lt 8 _ _))]

theorem testBit_vandq (a b : BitVec 128) (k : Nat) : (a &&& b).toNat.testBit k = (a.toNat.testBit k && b.toNat.testBit k) := by
  rw [BitVec.toNat_and, Nat.testBit_and]

theorem testBit_vorrq (a b : BitVec 128) (k : Nat) : (a ||| b).toNat.testBit k = (a.toNat.testBit k || b.toNat.testBit k) := by
  rw [BitVec.toNat_or, Nat.testBit_or]

theorem testBit_vdupq_n_u32 (a : UInt32) {g q : Nat} (lanes : g < 4) (low : q < 32) :
    (vdupq_n_u32 a).toNat.testBit (32 * g + q) = a.toNat.testBit q :=
  testBit_build_const (by decide) _ lanes low

theorem testBit_vshlq_n_u32 (a : BitVec 128) (s : Nat) {g q : Nat} (lanes : g < 4) (low : q < 32) :
    (vshlq_n_u32 a s).toNat.testBit (32 * g + q) = (decide (s ≤ q) && a.toNat.testBit (32 * g + (q - s))) :=
  testBit_build_shiftLeft (by decide) _ _ lanes low

theorem testBit_vshrq_n_u32 (a : BitVec 128) (s : Nat) {g q : Nat} (lanes : g < 4) (low : q < 32) :
    (vshrq_n_u32 a s).toNat.testBit (32 * g + q) = (decide (q + s < 32) && a.toNat.testBit (32 * g + (q + s))) :=
  testBit_build_shiftRight (by decide) _ _ lanes low

end Neon

end Foundations
