import Kv.Bitops.Popcount
import Kv.Foundations.Simd

/-!
popcountAVX2 and popcountNEON of bitops.c, and the choice serverPopcount makes
between them and popcountScalar. popcountAVX2 looks up the count of each nibble
of 32 bytes at a time with a byte shuffle, adds the two counts of every byte
into 8-bit lanes, and flushes those lanes into four 64-bit sums with sad_epu8:
after eight blocks in Part A, and once after the at most seven blocks of Part B,
so that no 8-bit lane passes 64. popcountNEON counts 64 bytes at a time with
vcnt, adds four vectors' counts byte lane by byte lane (at most 32), pairs them
into 16-bit lanes and sums them, then 16 bytes at a time, and hands the rest to
popcountScalar. Offsets stand for the pointers: `p <= e - 64` is `o + 64 ≤ n`,
as it is for every buffer that does not start within 64 bytes of address zero.
-/

namespace Kv.Bitops

open Foundations Finset

section Avx2

def popcountLookupBytes : List UInt8 :=
  [0, 1, 1, 2, 1, 2, 2, 3, 1, 2, 2, 3, 2, 3, 3, 4, 0, 1, 1, 2, 1, 2, 2, 3, 1, 2, 2, 3, 2, 3, 3, 4]

def popcountLookup : BitVec 256 := mm256_setr_epi8 popcountLookupBytes

def lowMask : BitVec 256 := mm256_set1_epi8 0x0f

def iter32Bytes (p : List UInt8) (loc : BitVec 256) (i : Nat) : BitVec 256 :=
  let vec := mm256_loadu_si256 p i
  let lo := mm256_and_si256 vec lowMask
  let hi := mm256_and_si256 (mm256_srli_epi16 vec 4) lowMask
  let popcnt1 := mm256_shuffle_epi8 popcountLookup lo
  let popcnt2 := mm256_shuffle_epi8 popcountLookup hi
  let loc := mm256_add_epi8 loc popcnt1
  mm256_add_epi8 loc popcnt2

def popcountAVX2PartA (p : List UInt8) (acc : BitVec 256) (i : Nat) : BitVec 256 × Nat :=
  if i + 8 * 32 ≤ p.length then
    let loc := (List.range 8).foldl (fun loc k => iter32Bytes p loc (i + 32 * k)) mm256_setzero_si256
    popcountAVX2PartA p (mm256_add_epi64 acc (mm256_sad_epu8 loc mm256_setzero_si256)) (i + 8 * 32)
  else (acc, i)
termination_by p.length - i
decreasing_by omega

def popcountAVX2PartB (p : List UInt8) (loc : BitVec 256) (i : Nat) : BitVec 256 × Nat :=
  if i + 32 ≤ p.length then popcountAVX2PartB p (iter32Bytes p loc i) (i + 32) else (loc, i)
termination_by p.length - i

/-- popcountAVX2(s, count) for the `count` bytes `p`. -/
def popcountAVX2 (p : List UInt8) : Int64 :=
  let (acc, i) := popcountAVX2PartA p mm256_setzero_si256 0
  let (loc, i) := popcountAVX2PartB p mm256_setzero_si256 i
  let acc := mm256_add_epi64 acc (mm256_sad_epu8 loc mm256_setzero_si256)
  let bits : Int64 := 0
  let bits := bits + mm256_extract_epi64 acc 0
  let bits := bits + mm256_extract_epi64 acc 1
  let bits := bits + mm256_extract_epi64 acc 2
  let bits := bits + mm256_extract_epi64 acc 3
  -- Part C
  popcountBytes bits (p.drop i)

theorem popcountAVX2PartA_eq (p : List UInt8) (acc : BitVec 256) (i : Nat) :
    popcountAVX2PartA p acc i =
      if i + 8 * 32 ≤ p.length then
        popcountAVX2PartA p (mm256_add_epi64 acc (mm256_sad_epu8
          ((List.range 8).foldl (fun loc k => iter32Bytes p loc (i + 32 * k)) mm256_setzero_si256)
          mm256_setzero_si256)) (i + 8 * 32)
      else (acc, i) := by
  rw [popcountAVX2PartA]

theorem popcountAVX2PartB_eq (p : List UInt8) (loc : BitVec 256) (i : Nat) :
    popcountAVX2PartB p loc i = if i + 32 ≤ p.length then popcountAVX2PartB p (iter32Bytes p loc i) (i + 32) else (loc, i) := by
  rw [popcountAVX2PartB]

theorem popcountAVX2_def (p : List UInt8) :
    popcountAVX2 p =
      let acc := mm256_add_epi64 (popcountAVX2PartA p mm256_setzero_si256 0).1
        (mm256_sad_epu8 (popcountAVX2PartB p mm256_setzero_si256 (popcountAVX2PartA p mm256_setzero_si256 0).2).1
          mm256_setzero_si256)
      popcountBytes (0 + mm256_extract_epi64 acc 0 + mm256_extract_epi64 acc 1 + mm256_extract_epi64 acc 2 +
        mm256_extract_epi64 acc 3)
        (p.drop (popcountAVX2PartB p mm256_setzero_si256 (popcountAVX2PartA p mm256_setzero_si256 0).2).2) := rfl

theorem popcountLookup_table : ∀ h < 2, ∀ b < 256,
    (popcountLookupBytes.getD (16 * h + (b &&& 15)) 0).toNat +
      (popcountLookupBytes.getD (16 * h + (b >>> 4 &&& 15)) 0).toNat = bitsinbyteTable.getD b 0 := by
  decide +kernel

theorem lane_iter32Bytes (p : List UInt8) (loc : BitVec 256) (i : Nat) {j : Nat} (inside : j < 32) :
    lane 8 (iter32Bytes p loc i).toNat j = (lane 8 loc.toNat j + bitsinbyte (p.getD (i + j) 0)) % 2 ^ 8 := by
  have byte := UInt8.toNat_lt (p.getD (i + j) 0)
  have lo : lane 8 (mm256_and_si256 (mm256_loadu_si256 p i) lowMask).toNat j = (p.getD (i + j) 0).toNat &&& 15 := by
    rw [lowMask, lane_mm256_and_si256, lane_mm256_loadu_si256 p i inside, lane_mm256_set1_epi8 _ inside]
    rfl
  have hi : lane 8 (mm256_and_si256 (mm256_srli_epi16 (mm256_loadu_si256 p i) 4) lowMask).toNat j =
      (p.getD (i + j) 0).toNat >>> 4 &&& 15 := by
    rw [lowMask, lane_mm256_and_srli_epi16 (by decide) (by decide) _ inside, lane_mm256_loadu_si256 p i inside]
    rfl
  have loNibble : (p.getD (i + j) 0).toNat &&& 15 < 2 ^ 4 := Nat.and_lt_two_pow _ (by decide)
  have hiNibble : (p.getD (i + j) 0).toNat >>> 4 &&& 15 < 2 ^ 4 := Nat.and_lt_two_pow _ (by decide)
  have looked := popcountLookup_table (j / 16) (by omega) _ byte
  -- the two lookups, each in the 128-bit half of lane j
  have popcnt1 : lane 8 (mm256_shuffle_epi8 popcountLookup (mm256_and_si256 (mm256_loadu_si256 p i) lowMask)).toNat j =
      (popcountLookupBytes.getD (16 * (j / 16) + ((p.getD (i + j) 0).toNat &&& 15)) 0).toNat := by
    rw [lane_mm256_shuffle_epi8 _ _ inside (by rw [lo]; exact loNibble), lo, popcountLookup,
      lane_mm256_setr_epi8 _ (by omega)]
  have popcnt2 : lane 8 (mm256_shuffle_epi8 popcountLookup
      (mm256_and_si256 (mm256_srli_epi16 (mm256_loadu_si256 p i) 4) lowMask)).toNat j =
        (popcountLookupBytes.getD (16 * (j / 16) + ((p.getD (i + j) 0).toNat >>> 4 &&& 15)) 0).toNat := by
    rw [lane_mm256_shuffle_epi8 _ _ inside (by rw [hi]; exact hiNibble), hi, popcountLookup,
      lane_mm256_setr_epi8 _ (by omega)]
  simp only [iter32Bytes]
  rw [lane_mm256_add_epi8 _ _ inside, lane_mm256_add_epi8 _ _ inside, popcnt1, popcnt2, Nat.mod_add_mod,
    Nat.add_assoc, looked]
  rfl

theorem lane_iter32Bytes_blocks (p : List UInt8) (i : Nat) {n : Nat} (few : n ≤ 8) {j : Nat} (inside : j < 32) :
    lane 8 ((List.range n).foldl (fun loc k => iter32Bytes p loc (i + 32 * k)) mm256_setzero_si256).toNat j =
      ∑ k ∈ range n, bitsinbyte (p.getD (i + 32 * k + j) 0) := by
  induction n with
  | zero => simp
  | succ n ih =>
    have bound := sum_bitsinbyte_le (fun k => p.getD (i + 32 * k + j) 0) n
    have last := bitsinbyte_le (p.getD (i + 32 * n + j) 0)
    rw [List.range_succ, List.foldl_append, List.foldl_cons, List.foldl_nil, lane_iter32Bytes _ _ _ inside,
      ih (by omega), Finset.sum_range_succ]
    exact Nat.mod_eq_of_lt (by omega)

theorem sum_lane_iter32Bytes_blocks (p : List UInt8) (i : Nat) {n : Nat} (few : n ≤ 8) :
    ∑ j ∈ range 32, lane 8 ((List.range n).foldl (fun loc k => iter32Bytes p loc (i + 32 * k)) mm256_setzero_si256).toNat j =
      ∑ t ∈ range (n * 32), bitsinbyte (p.getD (i + t) 0) := by
  rw [Finset.sum_congr rfl fun j mem => lane_iter32Bytes_blocks p i few (Finset.mem_range.mp mem), Finset.sum_comm,
    ← sum_range_mul_add (fun t => bitsinbyte (p.getD (i + t) 0))]
  simp only [Nat.add_assoc]

theorem popcountAVX2PartA_spec (p : List UInt8) (acc : BitVec 256) (i : Nat) (le : i ≤ p.length)
    (counts : (∑ g ∈ range 4, lane 64 acc.toNat g) % 2 ^ 64 = (∑ t ∈ range i, bitsinbyte (p.getD t 0)) % 2 ^ 64) :
    (popcountAVX2PartA p acc i).2 ≤ p.length ∧ p.length < (popcountAVX2PartA p acc i).2 + 8 * 32 ∧
      (∑ g ∈ range 4, lane 64 (popcountAVX2PartA p acc i).1.toNat g) % 2 ^ 64 =
        (∑ t ∈ range (popcountAVX2PartA p acc i).2, bitsinbyte (p.getD t 0)) % 2 ^ 64 := by
  induction acc, i using popcountAVX2PartA.induct p with
  | case1 acc i long loc ih =>
    -- the eight blocks' lanes, summed into acc, extend the count by their 256 bytes
    have flushed : (∑ g ∈ range 4, lane 64 (mm256_add_epi64 acc (mm256_sad_epu8 loc mm256_setzero_si256)).toNat g) %
        2 ^ 64 = (∑ t ∈ range (i + 8 * 32), bitsinbyte (p.getD t 0)) % 2 ^ 64 := by
      rw [sum_lane_mm256_add_epi64, sum_lane_mm256_sad_epu8, Nat.add_mod, counts, ← Nat.add_mod,
        sum_lane_iter32Bytes_blocks p i (le_refl 8), Finset.sum_range_add]
    rw [popcountAVX2PartA_eq, if_pos long]
    exact ih long flushed
  | case2 acc i short =>
    rw [popcountAVX2PartA_eq, if_neg short]
    exact ⟨le, by omega, counts⟩

theorem popcountAVX2PartB_spec (p : List UInt8) (loc : BitVec 256) (i : Nat) (le : i ≤ p.length)
    (room : ∀ j < 32, lane 8 loc.toNat j + 8 * ((p.length - i) / 32) < 2 ^ 8) :
    (popcountAVX2PartB p loc i).2 ≤ p.length ∧ p.length < (popcountAVX2PartB p loc i).2 + 32 ∧ i ≤ (popcountAVX2PartB p loc i).2 ∧
      ∑ j ∈ range 32, lane 8 (popcountAVX2PartB p loc i).1.toNat j =
        ∑ j ∈ range 32, lane 8 loc.toNat j +
          ∑ t ∈ range ((popcountAVX2PartB p loc i).2 - i), bitsinbyte (p.getD (i + t) 0) := by
  induction loc, i using popcountAVX2PartB.induct p with
  | case1 loc i long ih =>
    -- this block's counts fit the room of one block
    have fits : ∀ j < 32,
        lane 8 loc.toNat j + bitsinbyte (p.getD (i + j) 0) + 8 * ((p.length - (i + 32)) / 32) < 2 ^ 8 := by
      intro j inside
      have := room j inside
      have := bitsinbyte_le (p.getD (i + j) 0)
      omega
    have lanes : ∀ j < 32, lane 8 (iter32Bytes p loc i).toNat j = lane 8 loc.toNat j + bitsinbyte (p.getD (i + j) 0) := by
      intro j inside
      rw [lane_iter32Bytes _ _ _ inside]
      exact Nat.mod_eq_of_lt (by have := fits j inside; omega)
    have room' : ∀ j < 32, lane 8 (iter32Bytes p loc i).toNat j + 8 * ((p.length - (i + 32)) / 32) < 2 ^ 8 := by
      intro j inside
      rw [lanes j inside]
      exact fits j inside
    obtain ⟨bound, stop, past, sum⟩ := ih long room'
    rw [popcountAVX2PartB_eq, if_pos long]
    refine ⟨bound, stop, by omega, ?_⟩
    rw [sum, Finset.sum_congr rfl fun j mem => lanes j (Finset.mem_range.mp mem), Finset.sum_add_distrib, Nat.add_assoc,
      show (popcountAVX2PartB p (iter32Bytes p loc i) (i + 32)).2 - i =
        32 + ((popcountAVX2PartB p (iter32Bytes p loc i) (i + 32)).2 - (i + 32)) by omega, Finset.sum_range_add]
    simp only [Nat.add_assoc]
  | case2 loc i short =>
    rw [popcountAVX2PartB_eq, if_neg short]
    exact ⟨le, by omega, le_refl i, by simp⟩

theorem extract_epi64_sum (acc : BitVec 256) :
    0 + mm256_extract_epi64 acc 0 + mm256_extract_epi64 acc 1 + mm256_extract_epi64 acc 2 + mm256_extract_epi64 acc 3 =
      Int64.ofNat (∑ g ∈ range 4, lane 64 acc.toNat g) := by
  simp only [mm256_extract_epi64, Finset.sum_range_succ, Finset.sum_range_zero, Int64.ofNat_add]
  rfl

theorem popcountAVX2_eq (p : List UInt8) : popcountAVX2 p = Int64.ofNat (bitsinbyteSum p) := by
  obtain ⟨aBound, aStop, aCounts⟩ :=
    popcountAVX2PartA_spec p mm256_setzero_si256 0 (Nat.zero_le _) (by simp)
  set iA := (popcountAVX2PartA p mm256_setzero_si256 0).2
  obtain ⟨bBound, -, bPast, bSum⟩ := popcountAVX2PartB_spec p mm256_setzero_si256 iA aBound fun j _ => by
    rw [lane_mm256_setzero_si256]
    omega
  set iB := (popcountAVX2PartB p mm256_setzero_si256 iA).2
  -- the last flush leaves in acc the count of the bytes before Part C, modulo 2 ^ 64
  have counted : (∑ g ∈ range 4, lane 64 (mm256_add_epi64 (popcountAVX2PartA p mm256_setzero_si256 0).1
      (mm256_sad_epu8 (popcountAVX2PartB p mm256_setzero_si256 iA).1 mm256_setzero_si256)).toNat g) % 2 ^ 64 =
        (∑ t ∈ range iB, bitsinbyte (p.getD t 0)) % 2 ^ 64 := by
    rw [sum_lane_mm256_add_epi64, sum_lane_mm256_sad_epu8, Nat.add_mod, aCounts, ← Nat.add_mod, bSum]
    simp only [lane_mm256_setzero_si256, Finset.sum_const_zero, Nat.zero_add]
    rw [← Finset.sum_range_add, Nat.add_sub_cancel' bPast]
  rw [popcountAVX2_def]
  dsimp only
  rw [extract_epi64_sum, ← int64_ofNat_mod, counted, int64_ofNat_mod, popcountBytes_eq, ← Int64.ofNat_add,
    sum_range_add_bitsinbyteSum_drop p bBound]

end Avx2

section Neon

def neonBlock (p : List UInt8) (o : Nat) : UInt32 :=
  let v0 := vld1q_u8 p o
  let v1 := vld1q_u8 p (o + 16)
  let v2 := vld1q_u8 p (o + 32)
  let v3 := vld1q_u8 p (o + 48)
  let s1 := vaddq_u8 (vcntq_u8 v0) (vcntq_u8 v1)
  let s2 := vaddq_u8 (vcntq_u8 v2) (vcntq_u8 v3)
  let s0 := vaddq_u8 s1 s2
  let sc := vpaddlq_u8 s0
  (vaddvq_u16 sc).toUInt32

def popcountNEONBlocks (p : List UInt8) (t : Int64) (o : Nat) : Int64 × Nat :=
  if o + 64 ≤ p.length then popcountNEONBlocks p (t + Int64.ofNat (neonBlock p o).toNat) (o + 64) else (t, o)
termination_by p.length - o

def popcountNEONChunks (p : List UInt8) (t : Int64) (o : Nat) : Int64 × Nat :=
  if o + 16 ≤ p.length then
    popcountNEONChunks p (t + Int64.ofNat (vaddvq_u8 (vcntq_u8 (vld1q_u8 p o))).toNat) (o + 16)
  else (t, o)
termination_by p.length - o

/-- popcountNEON(s, n) for the `n` bytes `p` at address `addr`. -/
def popcountNEON (addr : Nat) (p : List UInt8) : Int64 :=
  let (t, o) := popcountNEONBlocks p 0 0
  let (t, o) := popcountNEONChunks p t o
  if o < p.length then t + popcountScalar (addr + o) (p.drop o) else t

theorem popcountNEONBlocks_eq (p : List UInt8) (t : Int64) (o : Nat) :
    popcountNEONBlocks p t o =
      if o + 64 ≤ p.length then popcountNEONBlocks p (t + Int64.ofNat (neonBlock p o).toNat) (o + 64) else (t, o) := by
  rw [popcountNEONBlocks]

theorem popcountNEONChunks_eq (p : List UInt8) (t : Int64) (o : Nat) :
    popcountNEONChunks p t o =
      if o + 16 ≤ p.length then
        popcountNEONChunks p (t + Int64.ofNat (vaddvq_u8 (vcntq_u8 (vld1q_u8 p o))).toNat) (o + 16)
      else (t, o) := by
  rw [popcountNEONChunks]

theorem popcountNEON_def (addr : Nat) (p : List UInt8) :
    popcountNEON addr p =
      let r := popcountNEONChunks p (popcountNEONBlocks p 0 0).1 (popcountNEONBlocks p 0 0).2
      if r.2 < p.length then r.1 + popcountScalar (addr + r.2) (p.drop r.2) else r.1 := rfl

theorem vcnt_table : ∀ b < 256, (List.range 8).countP (fun t => b.testBit t) = bitsinbyteTable.getD b 0 := by
  decide +kernel

theorem lane_vcntq_u8_vld1q_u8 (p : List UInt8) (o : Nat) {j : Nat} (inside : j < 16) :
    lane 8 (vcntq_u8 (vld1q_u8 p o)).toNat j = bitsinbyte (p.getD (o + j) 0) := by
  rw [lane_vcntq_u8 _ inside, lane_vld1q_u8 _ _ inside, vcnt_table _ (UInt8.toNat_lt _)]
  rfl

theorem toNat_vaddvq_u8_vcntq_u8 (p : List UInt8) (o : Nat) :
    (vaddvq_u8 (vcntq_u8 (vld1q_u8 p o))).toNat = ∑ j ∈ range 16, bitsinbyte (p.getD (o + j) 0) := by
  have lanes := Finset.sum_congr rfl fun j mem => lane_vcntq_u8_vld1q_u8 p o (Finset.mem_range.mp mem)
  have small : ∑ j ∈ range 16, bitsinbyte (p.getD (o + j) 0) < 2 ^ 8 :=
    lt_of_le_of_lt (sum_bitsinbyte_le (fun j => p.getD (o + j) 0) 16) (by decide)
  rw [toNat_vaddvq_u8, lanes, Nat.mod_eq_of_lt small]

theorem toNat_neonBlock (p : List UInt8) (o : Nat) :
    (neonBlock p o).toNat = ∑ t ∈ range 64, bitsinbyte (p.getD (o + t) 0) := by
  -- the byte lanes of s0 hold the counts of byte j of each of the four vectors, at most 32
  have quad : ∀ j < 16, lane 8 (vaddq_u8 (vaddq_u8 (vcntq_u8 (vld1q_u8 p o)) (vcntq_u8 (vld1q_u8 p (o + 16))))
      (vaddq_u8 (vcntq_u8 (vld1q_u8 p (o + 32))) (vcntq_u8 (vld1q_u8 p (o + 48))))).toNat j =
        ∑ q ∈ range 4, bitsinbyte (p.getD (o + 16 * q + j) 0) := by
    intro j inside
    have b0 := bitsinbyte_le (p.getD (o + j) 0)
    have b1 := bitsinbyte_le (p.getD (o + 16 + j) 0)
    have b2 := bitsinbyte_le (p.getD (o + 32 + j) 0)
    have b3 := bitsinbyte_le (p.getD (o + 48 + j) 0)
    rw [lane_vaddq_u8 _ _ inside, lane_vaddq_u8 _ _ inside, lane_vaddq_u8 _ _ inside, lane_vcntq_u8_vld1q_u8 _ _ inside,
      lane_vcntq_u8_vld1q_u8 _ _ inside, lane_vcntq_u8_vld1q_u8 _ _ inside, lane_vcntq_u8_vld1q_u8 _ _ inside]
    simp only [Finset.sum_range_succ, Finset.sum_range_zero, Nat.mul_zero, Nat.add_zero, Nat.mul_one, Nat.reduceMul,
      Nat.zero_add]
    omega
  have total : ∑ j ∈ range 16, lane 8 (vaddq_u8 (vaddq_u8 (vcntq_u8 (vld1q_u8 p o)) (vcntq_u8 (vld1q_u8 p (o + 16))))
      (vaddq_u8 (vcntq_u8 (vld1q_u8 p (o + 32))) (vcntq_u8 (vld1q_u8 p (o + 48))))).toNat j =
        ∑ t ∈ range 64, bitsinbyte (p.getD (o + t) 0) := by
    rw [Finset.sum_congr rfl fun j mem => quad j (Finset.mem_range.mp mem), Finset.sum_comm,
      ← sum_range_mul_add (fun t => bitsinbyte (p.getD (o + t) 0)) 4 16]
    simp only [Nat.add_assoc]
  have small : ∑ t ∈ range 64, bitsinbyte (p.getD (o + t) 0) < 2 ^ 16 :=
    lt_of_le_of_lt (sum_bitsinbyte_le (fun t => p.getD (o + t) 0) 64) (by decide)
  simp only [neonBlock]
  rw [UInt16.toNat_toUInt32, toNat_vaddvq_u16, sum_lane_vpaddlq_u8, total, Nat.mod_eq_of_lt small]

theorem popcountNEONBlocks_spec (p : List UInt8) (t : Int64) (o : Nat) (le : o ≤ p.length)
    (counts : t = Int64.ofNat (∑ u ∈ range o, bitsinbyte (p.getD u 0))) :
    (popcountNEONBlocks p t o).2 ≤ p.length ∧ p.length < (popcountNEONBlocks p t o).2 + 64 ∧
      (popcountNEONBlocks p t o).1 = Int64.ofNat (∑ u ∈ range (popcountNEONBlocks p t o).2, bitsinbyte (p.getD u 0)) := by
  induction t, o using popcountNEONBlocks.induct p with
  | case1 t o long ih =>
    rw [popcountNEONBlocks_eq, if_pos long]
    exact ih long (by rw [counts, ← Int64.ofNat_add, toNat_neonBlock, Finset.sum_range_add])
  | case2 t o short =>
    rw [popcountNEONBlocks_eq, if_neg short]
    exact ⟨le, by omega, counts⟩

theorem popcountNEONChunks_spec (p : List UInt8) (t : Int64) (o : Nat) (le : o ≤ p.length)
    (counts : t = Int64.ofNat (∑ u ∈ range o, bitsinbyte (p.getD u 0))) :
    (popcountNEONChunks p t o).2 ≤ p.length ∧
      (popcountNEONChunks p t o).1 = Int64.ofNat (∑ u ∈ range (popcountNEONChunks p t o).2, bitsinbyte (p.getD u 0)) := by
  induction t, o using popcountNEONChunks.induct p with
  | case1 t o long ih =>
    rw [popcountNEONChunks_eq, if_pos long]
    exact ih (by omega) (by rw [counts, ← Int64.ofNat_add, toNat_vaddvq_u8_vcntq_u8, Finset.sum_range_add])
  | case2 t o short =>
    rw [popcountNEONChunks_eq, if_neg short]
    exact ⟨le, counts⟩

theorem popcountNEON_eq (addr : Nat) (p : List UInt8) : popcountNEON addr p = Int64.ofNat (bitsinbyteSum p) := by
  obtain ⟨bBound, -, bCounts⟩ := popcountNEONBlocks_spec p 0 0 (Nat.zero_le _) (by simp)
  obtain ⟨cBound, cCounts⟩ := popcountNEONChunks_spec p _ _ bBound bCounts
  rw [popcountNEON_def]
  dsimp only
  split
  · -- the rest goes to popcountScalar
    rw [cCounts, popcountScalar_eq, ← Int64.ofNat_add, sum_range_add_bitsinbyteSum_drop p cBound]
  · -- nothing is left
    next done =>
    rw [cCounts, show (popcountNEONChunks p (popcountNEONBlocks p 0 0).1 (popcountNEONBlocks p 0 0).2).2 = p.length by
      omega, bitsinbyteSum_eq_sum]

end Neon

section Dispatch

/-- serverPopcount(s, count) as the build and the machine choose: popcountAVX2 for 32 bytes or more where the
build has the x86 SIMD code and the CPU supports AVX2, popcountNEON for 16 bytes or more on aarch64, and
popcountScalar otherwise. -/
def serverPopcount (avx2 aarch64 : Bool) (addr : Nat) (p : List UInt8) : Int64 :=
  if p.length ≥ 32 ∧ avx2 then popcountAVX2 p
  else if aarch64 ∧ p.length ≥ 16 then popcountNEON addr p
  else popcountScalar addr p

theorem serverPopcount_eq (avx2 aarch64 : Bool) (addr : Nat) (p : List UInt8) :
    serverPopcount avx2 aarch64 addr p = Int64.ofNat (bitsinbyteSum p) := by
  rw [serverPopcount]
  split
  · exact popcountAVX2_eq p
  · split
    · exact popcountNEON_eq addr p
    · exact popcountScalar_eq addr p

/-- Below 2^63 bits the long long that serverPopcount returns is the count itself. -/
theorem toInt_serverPopcount (avx2 aarch64 : Bool) (addr : Nat) {p : List UInt8} (small : 8 * p.length < 2 ^ 63) :
    (serverPopcount avx2 aarch64 addr p).toInt = bitsinbyteSum p := by
  have bound : bitsinbyteSum p ≤ 8 * p.length := by
    rw [bitsinbyteSum_eq_sum]
    exact sum_bitsinbyte_le (fun t => p.getD t 0) p.length
  rw [serverPopcount_eq, Int64.toInt_ofNat_of_lt (by omega)]

/-- popcountScalar at every address, popcountAVX2 and popcountNEON at every address return, for every buffer, the
sum of the bitsinbyte entries of its bytes as a long long; that sum is the number of set bits of the buffer. -/
theorem popcount_implementations_agree (addr : Nat) (p : List UInt8) :
    popcountScalar addr p = Int64.ofNat (p.map bitsinbyte).sum ∧ popcountAVX2 p = Int64.ofNat (p.map bitsinbyte).sum ∧
      popcountNEON addr p = Int64.ofNat (p.map bitsinbyte).sum ∧ (p.map bitsinbyte).sum = onesIn p 0 (8 * p.length) :=
  ⟨popcountScalar_eq addr p, popcountAVX2_eq p, popcountNEON_eq addr p, bitsinbyteSum_eq p⟩

end Dispatch

end Kv.Bitops
