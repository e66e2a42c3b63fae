import Kv.Hll.Dense
import Kv.Foundations.Simd

/-!
The AVX2 and NEON variants of hllMergeDense and hllDenseCompress in hyperloglog.c, and the dispatch
between them and the scalar loops. A 32-bit group of a vector holds four registers: packed, six bits each
in its low three bytes as the dense encoding has them, or one to a byte as the raw array has them. The
merges load packed bytes, give each group its three bytes with a shuffle and move each register to its
byte with masks and left shifts; the compressions mask and shift right, and gather each group's three
bytes with a shuffle. The registers where a vector load or store would pass the end of a buffer are done
by the scalar loop. Each variant is proved, bit by bit of the buffers, to leave the registers the scalar
loop leaves.
-/

namespace Kv.Hll

open Foundations

/-- What the dispatch reads: whether the build has the x86 SIMD code (HAVE_X86_SIMD) and the ARM NEON
code (HAVE_ARM_NEON), whether it targets aarch64, whether the CPU supports AVX2, and simd_enabled, which
PFDEBUG SIMD sets. -/
structure HllSimd where
  haveX86Simd : Bool
  haveArmNeon : Bool
  aarch64 : Bool
  cpuAvx2 : Bool
  simdEnabled : Bool
  deriving DecidableEq, Repr

/-- HLL_USE_AVX2. -/
def HllSimd.useAvx2 (s : HllSimd) : Bool := s.haveX86Simd && s.simdEnabled && s.cpuAvx2

/-- HLL_USE_NEON. -/
def HllSimd.useNeon (s : HllSimd) : Bool := s.aarch64 && s.haveArmNeon && s.simdEnabled

section Groups

/-- What the merges' masks and left shifts make of bit `q` of a 32-bit group whose bits are `X`: the
six-bit field `q / 8` of its low 24 bits, in the low bits of byte `q / 8`. -/
theorem unpack_testBit (X : Nat → Bool) {q : Nat} (low : q < 32) :
    (((X q && (0x3f : Nat).testBit q) || (decide (2 ≤ q) && (X (q - 2) && (0xfc0 : Nat).testBit (q - 2)))) ||
      ((decide (4 ≤ q) && (X (q - 4) && (0x3f000 : Nat).testBit (q - 4))) ||
        (decide (6 ≤ q) && (X (q - 6) && (0xfc0000 : Nat).testBit (q - 6))))) =
      (decide (q % 8 < 6) && X (6 * (q / 8) + q % 8)) := by
  interval_cases q <;> simp [Nat.testBit]

/-- What the compressions' masks and right shifts make of bit `q` of a 32-bit group whose bits are `X`:
the low six bits of its four bytes, packed into its low 24 bits. -/
theorem pack_testBit (X : Nat → Bool) {q : Nat} (low : q < 32) :
    (((X q && (0x3f : Nat).testBit q) ||
        (decide (q + 2 < 32) && (X (q + 2) && (0x3f00 : Nat).testBit (q + 2)))) ||
      ((decide (q + 4 < 32) && (X (q + 4) && (0x3f0000 : Nat).testBit (q + 4))) ||
        (decide (q + 6 < 32) && (X (q + 6) && (0x3f000000 : Nat).testBit (q + 6))))) =
      (decide (q < 24) && X (8 * (q / 6) + q % 6)) := by
  interval_cases q <;> simp [Nat.testBit]

end Groups

/-! ### hllMergeDense -/

section Merge

variable {reg_raw reg_dense raw : List UInt8}

/-- A vector store of registers each raised to the dense one of its number merges them. -/
theorem mergedBelow_store {t n : Nat} (merged : MergedBelow reg_raw reg_dense t raw) {v : Nat}
    (lanes : ∀ j < n, lane 8 v j = max (raw.getD (t + j) 0).toNat (hllDenseGetRegister reg_dense (t + j))) :
    MergedBelow reg_raw reg_dense (t + n) (storeLanes n raw t v) := by
  obtain ⟨length, values⟩ := merged
  refine ⟨by rw [length_storeLanes, length], fun k => ?_⟩
  rw [getD_storeLanes]
  by_cases stored : t ≤ k ∧ k < t + n ∧ k < raw.length
  · -- a stored register had not been merged before, since it lies at or past `t`
    have fits : max (raw.getD k 0).toNat (hllDenseGetRegister reg_dense k) < 256 :=
      max_lt (UInt8.toNat_lt _) (Nat.lt_trans (hllDenseGetRegister_lt _ k) (by decide))
    rw [if_pos stored, lanes (k - t) (by omega), show t + (k - t) = k by omega, UInt8.toNat_ofNat_of_lt' fits,
      values k, if_neg (by omega), if_pos ⟨by omega, by omega⟩]
  · rw [if_neg stored, values k]
    by_cases before : k < t ∧ k < reg_raw.length
    · rw [if_pos before, if_pos ⟨by omega, before.2⟩]
    · rw [if_neg before, if_neg (by omega)]

theorem mergedBelow_scalar (base : MergedBelow reg_raw reg_dense 0 reg_raw) {n : Nat} :
    MergedBelow reg_raw reg_dense n ((List.range n).foldl (hllMergeRegister reg_dense) reg_raw) :=
  foldl_range_invariant (MergedBelow reg_raw reg_dense) base fun _ _ _ below => mergedBelow_round below

theorem mergedBelow_start (reg_raw reg_dense : List UInt8) : MergedBelow reg_raw reg_dense 0 reg_raw :=
  ⟨rfl, fun i => by rw [if_neg (by omega)]⟩

theorem mergedBelow_tail {start n : Nat} (merged : MergedBelow reg_raw reg_dense start raw) :
    MergedBelow reg_raw reg_dense (start + n) ((List.range' start n).foldl (hllMergeRegister reg_dense) raw) :=
  foldl_range'_invariant (MergedBelow reg_raw reg_dense) merged fun _ _ _ _ below => mergedBelow_round below

end Merge

section Avx2Merge

/-- The shuffle of hllMergeDenseAVX2, each -1 written 255: group `g` gets the three packed bytes at `4 + 3 g`
of the load, which starts four bytes before the registers of the block. -/
def hllMergeDenseAVX2Shuffle : BitVec 256 :=
  mm256_setr_epi8 [4, 5, 6, 255, 7, 8, 9, 255, 10, 11, 12, 255, 13, 14, 15, 255,
    0, 1, 2, 255, 3, 4, 5, 255, 6, 7, 8, 255, 9, 10, 11, 255]

/-- The loop body of hllMergeDenseAVX2 from the loaded dense bytes to the 32 registers of a byte each. -/
def hllMergeDenseAVX2Unpack (x0 : BitVec 256) : BitVec 256 :=
  let x := mm256_shuffle_epi8 x0 hllMergeDenseAVX2Shuffle
  let a1 := mm256_and_si256 x (mm256_set1_epi32 0x0000003f)
  let a2 := mm256_and_si256 x (mm256_set1_epi32 0x00000fc0)
  let a3 := mm256_and_si256 x (mm256_set1_epi32 0x0003f000)
  let a4 := mm256_and_si256 x (mm256_set1_epi32 0x00fc0000)
  let a2 := mm256_slli_epi32 a2 2
  let a3 := mm256_slli_epi32 a3 4
  let a4 := mm256_slli_epi32 a4 6
  let y1 := mm256_or_si256 a1 a2
  let y2 := mm256_or_si256 a3 a4
  mm256_or_si256 y1 y2

/-- Iteration `i` of the loop of hllMergeDenseAVX2, with `r = reg_dense + 6 - 4 + 24 i` and
`t = reg_raw + 8 + 32 i`. -/
def hllMergeDenseAVX2Block (reg_dense raw : List UInt8) (i : Nat) : List UInt8 :=
  let r := 6 - 4 + 24 * i
  let t := 8 + 32 * i
  let y := hllMergeDenseAVX2Unpack (mm256_loadu_si256 reg_dense r)
  let z := mm256_loadu_si256 raw t
  mm256_storeu_si256 raw t (mm256_max_epu8 z y)

/-- hllMergeDenseAVX2: the first 8 registers by the scalar loop, since the loads start four bytes early,
511 blocks of 32 registers, and the last 24 by the scalar loop, since the last load would read four bytes
past them. -/
def hllMergeDenseAVX2 (reg_raw reg_dense : List UInt8) : List UInt8 :=
  let raw := (List.range 8).foldl (hllMergeRegister reg_dense) reg_raw
  let raw := (List.range (hllRegisters / 32 - 1)).foldl (hllMergeDenseAVX2Block reg_dense) raw
  (List.range' (hllRegisters - 24) 24).foldl (hllMergeRegister reg_dense) raw

theorem hllMergeDenseAVX2Shuffle_entry {j : Nat} (inside : j < 32) (field : j % 4 < 3) :
    lane 8 hllMergeDenseAVX2Shuffle.toNat j < 2 ^ 4 ∧
      16 * (j / 16) + lane 8 hllMergeDenseAVX2Shuffle.toNat j = 4 + 3 * (j / 4) + j % 4 := by
  rw [hllMergeDenseAVX2Shuffle, lane_mm256_setr_epi8 _ inside]
  revert field
  interval_cases j <;> decide

/-- After the shuffle, bit `p` of group `g` is bit `p` of the three packed bytes at `6 + 24 i + 3 g`. -/
theorem testBit_hllMergeDenseAVX2Shuffled (reg_dense : List UInt8) (i : Nat) {g p : Nat} (lanes : g < 8)
    (field : p < 24) :
    (mm256_shuffle_epi8 (mm256_loadu_si256 reg_dense (6 - 4 + 24 * i)) hllMergeDenseAVX2Shuffle).toNat.testBit
        (32 * g + p) = bufferBit reg_dense (8 * (6 + 24 * i + 3 * g) + p) := by
  obtain ⟨small, sum⟩ := hllMergeDenseAVX2Shuffle_entry (j := 4 * g + p / 8) (by omega) (by omega)
  rw [testBit_eq_testBit_lane (show 0 < 8 by decide), show (32 * g + p) / 8 = 4 * g + p / 8 by omega,
    show (32 * g + p) % 8 = p % 8 by omega, lane_mm256_shuffle_epi8 _ _ (by omega) small, sum,
    lane_mm256_loadu_si256 _ _ (by omega), bufferBit, show (8 * (6 + 24 * i + 3 * g) + p) / 8 =
      6 - 4 + 24 * i + (4 + 3 * ((4 * g + p / 8) / 4) + (4 * g + p / 8) % 4) by omega,
    show (8 * (6 + 24 * i + 3 * g) + p) % 8 = p % 8 by omega]

/-- Byte `j` of the unpacked block is register `8 + 32 i + j`. -/
theorem lane_hllMergeDenseAVX2Unpack (reg_dense : List UInt8) (i : Nat) {j : Nat} (inside : j < 32) :
    lane 8 (hllMergeDenseAVX2Unpack (mm256_loadu_si256 reg_dense (6 - 4 + 24 * i))).toNat j =
      hllDenseGetRegister reg_dense (8 + 32 * i + j) := by
  obtain ⟨g, m, rfl, lanes, part⟩ : ∃ g m, j = 4 * g + m ∧ g < 8 ∧ m < 4 :=
    ⟨j / 4, j % 4, by omega, by omega, by omega⟩
  apply Nat.eq_of_testBit_eq
  intro t
  rw [hllDenseGetRegister_eq_readField, testBit_readField (by decide), testBit_lane]
  by_cases byte : t < 8
  · rw [decide_eq_true byte, Bool.true_and, show t + 8 * (4 * g + m) = 32 * g + (8 * m + t) by omega]
    simp (disch := omega) only [hllMergeDenseAVX2Unpack, testBit_mm256_or_si256, testBit_mm256_and_si256,
      testBit_mm256_slli_epi32, testBit_mm256_set1_epi32, UInt32.reduceToNat]
    rw [unpack_testBit (fun p => (mm256_shuffle_epi8 (mm256_loadu_si256 reg_dense (6 - 4 + 24 * i))
      hllMergeDenseAVX2Shuffle).toNat.testBit (32 * g + p)) (by omega), show (8 * m + t) % 8 = t by omega,
      show (8 * m + t) / 8 = m by omega]
    by_cases field : t < 6
    · rw [decide_eq_true field, Bool.true_and, Bool.true_and,
        testBit_hllMergeDenseAVX2Shuffled reg_dense i lanes (by omega),
        show 8 * (6 + 24 * i + 3 * g) + (6 * m + t) = (8 + 32 * i + (4 * g + m)) * 6 + t by omega]
    · simp [field]
  · simp [byte, show ¬t < 6 by omega]

theorem mergedBelow_hllMergeDenseAVX2Block {reg_raw reg_dense raw : List UInt8} (i : Nat)
    (merged : MergedBelow reg_raw reg_dense (8 + 32 * i) raw) :
    MergedBelow reg_raw reg_dense (8 + 32 * (i + 1)) (hllMergeDenseAVX2Block reg_dense raw i) := by
  rw [show 8 + 32 * (i + 1) = 8 + 32 * i + 32 by omega]
  apply mergedBelow_store merged
  intro j inside
  rw [lane_mm256_max_epu8 _ _ inside, lane_mm256_loadu_si256 _ _ inside, lane_hllMergeDenseAVX2Unpack _ _ inside]

theorem hllMergeDenseAVX2_merged (reg_raw reg_dense : List UInt8) :
    MergedBelow reg_raw reg_dense hllRegisters (hllMergeDenseAVX2 reg_raw reg_dense) := by
  have first := mergedBelow_scalar (n := 8) (mergedBelow_start reg_raw reg_dense)
  -- the blocks start after the first eight registers
  have blocks : MergedBelow reg_raw reg_dense (8 + 32 * (hllRegisters / 32 - 1))
      ((List.range (hllRegisters / 32 - 1)).foldl (hllMergeDenseAVX2Block reg_dense)
        ((List.range 8).foldl (hllMergeRegister reg_dense) reg_raw)) :=
    foldl_range_invariant (fun i raw => MergedBelow reg_raw reg_dense (8 + 32 * i) raw) first
      fun i _ _ below => mergedBelow_hllMergeDenseAVX2Block i below
  have last := mergedBelow_tail (n := 24) blocks
  rw [show 8 + 32 * (hllRegisters / 32 - 1) = hllRegisters - 24 by rw [hllRegisters_eq],
    show hllRegisters - 24 + 24 = hllRegisters by rw [hllRegisters_eq]] at last
  exact last

end Avx2Merge

section NeonMerge

/-- The table of hllMergeDenseNEON, each 0xFF out of range: group `g` gets the three packed bytes at `3 g`. -/
def hllMergeDenseNEONIdx : BitVec 128 :=
  vld1q_u8 [0, 1, 2, 0xFF, 3, 4, 5, 0xFF, 6, 7, 8, 0xFF, 9, 10, 11, 0xFF] 0

/-- The loop body of hllMergeDenseNEON from the loaded dense bytes to the 16 registers of a byte each; the
masks are vdupq_n_u32 reinterpreted as bytes, the same bits. -/
def hllMergeDenseNEONUnpack (r : BitVec 128) : BitVec 128 :=
  let x := vqtbl1q_u8 r hllMergeDenseNEONIdx
  let a1 := vandq_u8 x (vdupq_n_u32 0x0000003f)
  let a2 := vandq_u8 x (vdupq_n_u32 0x00000fc0)
  let a3 := vandq_u8 x (vdupq_n_u32 0x0003f000)
  let a4 := vandq_u8 x (vdupq_n_u32 0x00fc0000)
  let a2 := vshlq_n_u32 a2 2
  let a3 := vshlq_n_u32 a3 4
  let a4 := vshlq_n_u32 a4 6
  let y1 := vorrq_u8 a1 a2
  let y2 := vorrq_u8 a3 a4
  vorrq_u8 y1 y2

/-- Iteration `i` of the loop of hllMergeDenseNEON, with `dense_ptr = reg_dense + 12 i` and
`raw_ptr = reg_raw + 16 i`. -/
def hllMergeDenseNEONBlock (reg_dense raw : List UInt8) (i : Nat) : List UInt8 :=
  let y := hllMergeDenseNEONUnpack (vld1q_u8 reg_dense (12 * i))
  let z := vld1q_u8 raw (16 * i)
  vst1q_u8 raw (16 * i) (vmaxq_u8 z y)

/-- hllMergeDenseNEON: 1023 blocks of 16 registers, and the last 16 by the scalar loop, since the last load
would read four bytes past them. -/
def hllMergeDenseNEON (reg_raw reg_dense : List UInt8) : List UInt8 :=
  let raw := (List.range (hllRegisters / 16 - 1)).foldl (hllMergeDenseNEONBlock reg_dense) reg_raw
  (List.range' (hllRegisters - 16) 16).foldl (hllMergeRegister reg_dense) raw

theorem hllMergeDenseNEONIdx_entry {j : Nat} (inside : j < 16) (field : j % 4 < 3) :
    lane 8 hllMergeDenseNEONIdx.toNat j = 3 * (j / 4) + j % 4 := by
  rw [hllMergeDenseNEONIdx, lane_vld1q_u8 _ _ inside]
  revert field
  interval_cases j <;> decide

/-- After the table lookup, bit `p` of group `g` is bit `p` of the three packed bytes at `12 i + 3 g`. -/
theorem testBit_hllMergeDenseNEONLooked (reg_dense : List UInt8) (i : Nat) {g p : Nat} (lanes : g < 4)
    (field : p < 24) :
    (vqtbl1q_u8 (vld1q_u8 reg_dense (12 * i)) hllMergeDenseNEONIdx).toNat.testBit (32 * g + p) =
      bufferBit reg_dense (8 * (12 * i + 3 * g) + p) := by
  have entry := hllMergeDenseNEONIdx_entry (j := 4 * g + p / 8) (by omega) (by omega)
  rw [testBit_eq_testBit_lane (show 0 < 8 by decide), show (32 * g + p) / 8 = 4 * g + p / 8 by omega,
    show (32 * g + p) % 8 = p % 8 by omega, lane_vqtbl1q_u8 _ _ (by omega) (by omega), entry,
    lane_vld1q_u8 _ _ (by omega), bufferBit,
    show (8 * (12 * i + 3 * g) + p) / 8 = 12 * i + (3 * ((4 * g + p / 8) / 4) + (4 * g + p / 8) % 4) by omega,
    show (8 * (12 * i + 3 * g) + p) % 8 = p % 8 by omega]

/-- Byte `j` of the unpacked block is register `16 i + j`. -/
theorem lane_hllMergeDenseNEONUnpack (reg_dense : List UInt8) (i : Nat) {j : Nat} (inside : j < 16) :
    lane 8 (hllMergeDenseNEONUnpack (vld1q_u8 reg_dense (12 * i))).toNat j =
      hllDenseGetRegister reg_dense (16 * i + j) := by
  obtain ⟨g, m, rfl, lanes, part⟩ : ∃ g m, j = 4 * g + m ∧ g < 4 ∧ m < 4 :=
    ⟨j / 4, j % 4, by omega, by omega, by omega⟩
  apply Nat.eq_of_testBit_eq
  intro t
  rw [hllDenseGetRegister_eq_readField, testBit_readField (by decide), testBit_lane]
  by_cases byte : t < 8
  · rw [decide_eq_true byte, Bool.true_and, show t + 8 * (4 * g + m) = 32 * g + (8 * m + t) by omega]
    simp (disch := omega) only [hllMergeDenseNEONUnpack, vorrq_u8, vandq_u8, testBit_vorrq, testBit_vandq,
      testBit_vshlq_n_u32, testBit_vdupq_n_u32, UInt32.reduceToNat]
    rw [unpack_testBit (fun p => (vqtbl1q_u8 (vld1q_u8 reg_dense (12 * i)) hllMergeDenseNEONIdx).toNat.testBit
      (32 * g + p)) (by omega), show (8 * m + t) % 8 = t by omega, show (8 * m + t) / 8 = m by omega]
    by_cases field : t < 6
    · rw [decide_eq_true field, Bool.true_and, Bool.true_and,
        testBit_hllMergeDenseNEONLooked reg_dense i lanes (by omega),
        show 8 * (12 * i + 3 * g) + (6 * m + t) = (16 * i + (4 * g + m)) * 6 + t by omega]
    · simp [field]
  · simp [byte, show ¬t < 6 by omega]

theorem mergedBelow_hllMergeDenseNEONBlock {reg_raw reg_dense raw : List UInt8} (i : Nat)
    (merged : MergedBelow reg_raw reg_dense (16 * i) raw) :
    MergedBelow reg_raw reg_dense (16 * (i + 1)) (hllMergeDenseNEONBlock reg_dense raw i) := by
  rw [show 16 * (i + 1) = 16 * i + 16 by omega]
  apply mergedBelow_store merged
  intro j inside
  rw [lane_vmaxq_u8 _ _ inside, lane_vld1q_u8 _ _ inside, lane_hllMergeDenseNEONUnpack _ _ inside]

theorem hllMergeDenseNEON_merged (reg_raw reg_dense : List UInt8) :
    MergedBelow reg_raw reg_dense hllRegisters (hllMergeDenseNEON reg_raw reg_dense) := by
  have blocks : MergedBelow reg_raw reg_dense (16 * (hllRegisters / 16 - 1))
      ((List.range (hllRegisters / 16 - 1)).foldl (hllMergeDenseNEONBlock reg_dense) reg_raw) :=
    foldl_range_invariant (fun i raw => MergedBelow reg_raw reg_dense (16 * i) raw)
      (mergedBelow_start reg_raw reg_dense) fun i _ _ below => mergedBelow_hllMergeDenseNEONBlock i below
  have last := mergedBelow_tail (n := 16) blocks
  rw [show 16 * (hllRegisters / 16 - 1) = hllRegisters - 16 by rw [hllRegisters_eq],
    show hllRegisters - 16 + 16 = hllRegisters by rw [hllRegisters_eq]] at last
  exact last

end NeonMerge

/-- hllMergeDense: the AVX2 variant where the build has it and HLL_USE_AVX2 holds, else the NEON variant on
aarch64 builds that have it where HLL_USE_NEON holds, else the scalar loop. -/
def hllMergeDense (simd : HllSimd) (reg_raw reg_dense : List UInt8) : List UInt8 :=
  if simd.haveX86Simd ∧ hllRegisters = 16384 ∧ hllBits = 6 ∧ simd.useAvx2 then hllMergeDenseAVX2 reg_raw reg_dense
  else if simd.aarch64 ∧ simd.haveArmNeon ∧ hllRegisters = 16384 ∧ hllBits = 6 ∧ simd.useNeon then
    hllMergeDenseNEON reg_raw reg_dense
  else hllMergeDenseScalar reg_raw reg_dense

theorem hllMergeDense_merged (simd : HllSimd) (reg_raw reg_dense : List UInt8) :
    MergedBelow reg_raw reg_dense hllRegisters (hllMergeDense simd reg_raw reg_dense) := by
  unfold hllMergeDense
  split
  · exact hllMergeDenseAVX2_merged reg_raw reg_dense
  · split
    · exact hllMergeDenseNEON_merged reg_raw reg_dense
    · exact hllMergeDenseScalar_merged reg_raw reg_dense

/-- Whichever variant the build and the CPU select, hllMergeDense leaves in each raw register the larger of
it and the dense register of its number. -/
theorem hllMergeDense_registers (simd : HllSimd) {reg_raw : List UInt8} (size : reg_raw.length = hllRegisters)
    (reg_dense : List UInt8) :
    hllRawRegisters (hllMergeDense simd reg_raw reg_dense) =
      List.zipWith max (hllRawRegisters reg_raw) (hllDenseRegisters reg_dense) :=
  MergedBelow.registers size (hllMergeDense_merged simd reg_raw reg_dense)

theorem hllMergeDense_registers_zeros :
    (List.replicate 16384 (0 : UInt8)).length = hllRegisters ∧
      hllRawRegisters (hllMergeDense ⟨true, false, false, true, true⟩ (List.replicate 16384 0)
          (List.replicate 12288 0)) =
        List.zipWith max (hllRawRegisters (List.replicate 16384 0)) (hllDenseRegisters (List.replicate 12288 0)) :=
  have size : (List.replicate 16384 (0 : UInt8)).length = hllRegisters := by
    rw [List.length_replicate, hllRegisters_eq]
  ⟨size, hllMergeDense_registers _ size _⟩

/-! ### hllDenseCompress -/

section Compress

variable {reg_raw d d' : List UInt8}

theorem bufferBit_storeLanes (n : Nat) (p : List UInt8) (i v x : Nat) :
    bufferBit (storeLanes n p i v) x =
      if i ≤ x / 8 ∧ x / 8 < i + n ∧ x / 8 < p.length then (lane 8 v (x / 8 - i)).testBit (x % 8)
      else bufferBit p x := by
  rw [bufferBit, getD_storeLanes]
  split
  · rw [UInt8.toNat_ofNat_of_lt' (lane_lt 8 _ _)]
  · rfl

theorem hllDenseGetRegister_eq_of_bits {j v : Nat} (fits : v < 64)
    (bits : ∀ t < 6, bufferBit d (j * 6 + t) = v.testBit t) : hllDenseGetRegister d j = v := by
  rw [hllDenseGetRegister_eq_readField]
  apply Nat.eq_of_testBit_eq
  intro t
  rw [testBit_readField (by decide)]
  by_cases field : t < 6
  · rw [decide_eq_true field, Bool.true_and, bits t field]
  · rw [decide_eq_false field, Bool.false_and,
      Nat.testBit_lt_two_pow (lt_of_lt_of_le fits (Nat.pow_le_pow_right (by decide) (by omega) : 2 ^ 6 ≤ 2 ^ t))]

/-- A block of a compression: a buffer that keeps the bits below register `k` and holds the raw registers
`k` to `k + 4 n` bit by bit has the registers below `k + 4 n` compressed. -/
theorem compressedTo_block {k n : Nat} (compressed : CompressedTo reg_raw k d) (length : d'.length = hllDenseBytes)
    (fits : ∀ j < k + 4 * n, (reg_raw.getD j 0).toNat < 64) (kept : ∀ x < k * 6, bufferBit d' x = bufferBit d x)
    (packed : ∀ j t, k ≤ j → j < k + 4 * n → t < 6 → bufferBit d' (j * 6 + t) = (reg_raw.getD j 0).toNat.testBit t) :
    CompressedTo reg_raw (k + 4 * n) d' := by
  refine ⟨length, fun j below => ?_⟩
  by_cases earlier : j < k
  · rw [hllDenseGetRegister_eq_readField, readField_congr (by decide) fun t field => kept _ (by omega),
      ← hllDenseGetRegister_eq_readField, compressed.2 j earlier]
  · exact hllDenseGetRegister_eq_of_bits (fits j below) fun t field => packed j t (by omega) below field

theorem compressedTo_tail (fits : ∀ j < hllRegisters, (reg_raw.getD j 0).toNat < 64) {start n : Nat}
    (within : start + n ≤ hllRegisters) (compressed : CompressedTo reg_raw start d) :
    CompressedTo reg_raw (start + n) ((List.range' start n).foldl (hllCompressRegister reg_raw) d) :=
  foldl_range'_invariant (CompressedTo reg_raw) compressed
    fun k _ _ below holds => compressedTo_round (by omega) (fits k (by omega)) holds

end Compress

section Avx2Compress

/-- The shuffle of hllDenseCompressAVX2, each -1 written 255: the low three bytes of each group gathered,
twelve to each 128-bit lane. -/
def hllDenseCompressAVX2Shuffle : BitVec 256 :=
  mm256_setr_epi8 [0, 1, 2, 4, 5, 6, 8, 9, 10, 12, 13, 14, 255, 255, 255, 255,
    0, 1, 2, 4, 5, 6, 8, 9, 10, 12, 13, 14, 255, 255, 255, 255]

/-- The masks and right shifts of hllDenseCompressAVX2, from 32 raw registers to their six bits packed in
the low three bytes of each group. -/
def hllDenseCompressAVX2Pack (x : BitVec 256) : BitVec 256 :=
  let a1 := mm256_and_si256 x (mm256_set1_epi32 0x0000003f)
  let a2 := mm256_and_si256 x (mm256_set1_epi32 0x00003f00)
  let a3 := mm256_and_si256 x (mm256_set1_epi32 0x003f0000)
  let a4 := mm256_and_si256 x (mm256_set1_epi32 0x3f000000)
  let a2 := mm256_srli_epi32 a2 2
  let a3 := mm256_srli_epi32 a3 4
  let a4 := mm256_srli_epi32 a4 6
  let y1 := mm256_or_si256 a1 a2
  let y2 := mm256_or_si256 a3 a4
  mm256_or_si256 y1 y2

/-- Iteration `i` of the loop of hllDenseCompressAVX2, with `r = reg_raw + 32 i` and `t = reg_dense + 24 i`:
the lower half stored at `t` and the higher at `t + 12`, over the lower half's four padding bytes. -/
def hllDenseCompressAVX2Block (reg_raw d : List UInt8) (i : Nat) : List UInt8 :=
  let r := 32 * i
  let t := 24 * i
  let y := mm256_shuffle_epi8 (hllDenseCompressAVX2Pack (mm256_loadu_si256 reg_raw r)) hllDenseCompressAVX2Shuffle
  let lower := mm256_castsi256_si128 y
  let higher := mm256_extracti128_si256 y 1
  mm_storeu_si128 (mm_storeu_si128 d t lower) (t + 12) higher

/-- hllDenseCompressAVX2: 511 blocks of 32 registers, and the last 32 by the scalar loop, since the last
stores would write four bytes past them. -/
def hllDenseCompressAVX2 (reg_dense reg_raw : List UInt8) : List UInt8 :=
  let d := (List.range (hllRegisters / 32 - 1)).foldl (hllDenseCompressAVX2Block reg_raw) reg_dense
  (List.range' (hllRegisters - 32) 32).foldl (hllCompressRegister reg_raw) d

/-- Bit `q` of group `g` of the packed block: the low six bits of the raw registers `32 i + 4 g` to
`32 i + 4 g + 3`, one after the other. -/
theorem testBit_hllDenseCompressAVX2Pack (reg_raw : List UInt8) (i : Nat) {g q : Nat} (lanes : g < 8) (low : q < 24) :
    (hllDenseCompressAVX2Pack (mm256_loadu_si256 reg_raw (32 * i))).toNat.testBit (32 * g + q) =
      (reg_raw.getD (32 * i + 4 * g + q / 6) 0).toNat.testBit (q % 6) := by
  simp (disch := omega) only [hllDenseCompressAVX2Pack, testBit_mm256_or_si256, testBit_mm256_and_si256,
    testBit_mm256_srli_epi32, testBit_mm256_set1_epi32, UInt32.reduceToNat]
  rw [pack_testBit (fun p => (mm256_loadu_si256 reg_raw (32 * i)).toNat.testBit (32 * g + p)) (by omega),
    decide_eq_true low, Bool.true_and, testBit_eq_testBit_lane (show 0 < 8 by decide),
    show (32 * g + (8 * (q / 6) + q % 6)) / 8 = 4 * g + q / 6 by omega,
    show (32 * g + (8 * (q / 6) + q % 6)) % 8 = q % 6 by omega, lane_mm256_loadu_si256 _ _ (by omega),
    Nat.add_assoc]

theorem hllDenseCompressAVX2Shuffle_entry {j : Nat} (inside : j < 32) :
    if j % 16 < 12 then lane 8 hllDenseCompressAVX2Shuffle.toNat j < 2 ^ 4 ∧
        16 * (j / 16) + lane 8 hllDenseCompressAVX2Shuffle.toNat j = 16 * (j / 16) + 4 * (j % 16 / 3) + j % 16 % 3
      else (lane 8 hllDenseCompressAVX2Shuffle.toNat j).testBit 7 := by
  rw [hllDenseCompressAVX2Shuffle, lane_mm256_setr_epi8 _ inside]
  interval_cases j <;> decide

/-- The bits a block writes: byte `b` of the 24 is byte `4 (b / 3) + b % 3` of the packed block. -/
theorem bufferBit_hllDenseCompressAVX2Block (reg_raw d : List UInt8) (i : Nat) (room : 24 * i + 28 ≤ d.length)
    {x : Nat} (inside : x < 192) :
    bufferBit (hllDenseCompressAVX2Block reg_raw d i) (8 * (24 * i) + x) =
      (hllDenseCompressAVX2Pack (mm256_loadu_si256 reg_raw (32 * i))).toNat.testBit
        (32 * (x / 24) + (8 * (x / 8 % 3) + x % 8)) := by
  -- the byte comes from the higher half from offset 12 on, from the lower half before
  have lane_y : ∀ J < 32, J % 16 < 12 →
      lane 8 (mm256_shuffle_epi8 (hllDenseCompressAVX2Pack (mm256_loadu_si256 reg_raw (32 * i)))
        hllDenseCompressAVX2Shuffle).toNat J =
        lane 8 (hllDenseCompressAVX2Pack (mm256_loadu_si256 reg_raw (32 * i))).toNat
          (16 * (J / 16) + 4 * (J % 16 / 3) + J % 16 % 3) := by
    intro J inJ field
    have entry := hllDenseCompressAVX2Shuffle_entry inJ
    rw [if_pos field] at entry
    rw [lane_mm256_shuffle_epi8 _ _ inJ entry.1, entry.2]
  simp only [hllDenseCompressAVX2Block, mm_storeu_si128, bufferBit_storeLanes, length_storeLanes]
  by_cases high : 12 ≤ x / 8
  · rw [if_pos ⟨by omega, by omega, by omega⟩, lane_mm256_extracti128_si256 _ _ (by omega),
      show 16 * (1 % 2) + ((8 * (24 * i) + x) / 8 - (24 * i + 12)) = x / 8 + 4 by omega,
      lane_y _ (by omega) (by omega), testBit_lane, show (8 * (24 * i) + x) % 8 = x % 8 by omega]
    simp only [show x % 8 < 8 by omega, decide_true, Bool.true_and]
    congr 1
    omega
  · rw [if_neg (by omega), if_pos ⟨by omega, by omega, by omega⟩, lane_mm256_castsi256_si128 _ (by omega),
      show (8 * (24 * i) + x) / 8 - 24 * i = x / 8 by omega, lane_y _ (by omega) (by omega), testBit_lane,
      show (8 * (24 * i) + x) % 8 = x % 8 by omega]
    simp only [show x % 8 < 8 by omega, decide_true, Bool.true_and]
    congr 1
    omega

theorem bufferBit_hllDenseCompressAVX2Block_below (reg_raw d : List UInt8) (i : Nat) {x : Nat}
    (below : x < 8 * (24 * i)) : bufferBit (hllDenseCompressAVX2Block reg_raw d i) x = bufferBit d x := by
  simp only [hllDenseCompressAVX2Block, mm_storeu_si128, bufferBit_storeLanes, length_storeLanes]
  rw [if_neg (by omega), if_neg (by omega)]

theorem compressedTo_hllDenseCompressAVX2Block (fits : ∀ j < hllRegisters, (reg_raw.getD j 0).toNat < 64) {i : Nat}
    (block : i < hllRegisters / 32 - 1) (compressed : CompressedTo reg_raw (32 * i) d) :
    CompressedTo reg_raw (32 * (i + 1)) (hllDenseCompressAVX2Block reg_raw d i) := by
  have room : 24 * i + 28 ≤ d.length := by
    rw [compressed.1, hllDenseBytes_eq]
    rw [hllRegisters_eq] at block
    omega
  rw [show 32 * (i + 1) = 32 * i + 4 * 8 by omega]
  refine compressedTo_block compressed ?_ (fun j below => fits j (by rw [hllRegisters_eq] at block ⊢; omega))
    (fun x below => bufferBit_hllDenseCompressAVX2Block_below reg_raw d i (by omega)) ?_
  · simp only [hllDenseCompressAVX2Block, mm_storeu_si128, length_storeLanes]
    exact compressed.1
  · intro j t start below field
    -- register `j` is register `m` of group `g` of the block
    obtain ⟨g, m, rfl, lanes, part⟩ : ∃ g m, j = 32 * i + 4 * g + m ∧ g < 8 ∧ m < 4 :=
      ⟨(j - 32 * i) / 4, (j - 32 * i) % 4, by omega, by omega, by omega⟩
    have group : (24 * g + 6 * m + t) / 24 = g := by omega
    have byte : (24 * g + 6 * m + t) / 8 % 3 = (6 * m + t) / 8 := by omega
    rw [show (32 * i + 4 * g + m) * 6 + t = 8 * (24 * i) + (24 * g + 6 * m + t) by omega,
      bufferBit_hllDenseCompressAVX2Block reg_raw d i room (by omega), group, byte,
      show 8 * ((6 * m + t) / 8) + (24 * g + 6 * m + t) % 8 = 6 * m + t by omega,
      testBit_hllDenseCompressAVX2Pack reg_raw i lanes (by omega), show (6 * m + t) / 6 = m by omega,
      show (6 * m + t) % 6 = t by omega]

theorem hllDenseCompressAVX2_compressed (size : reg_dense.length = hllDenseBytes)
    (fits : ∀ j < hllRegisters, (reg_raw.getD j 0).toNat < 64) :
    CompressedTo reg_raw hllRegisters (hllDenseCompressAVX2 reg_dense reg_raw) := by
  have blocks : CompressedTo reg_raw (32 * (hllRegisters / 32 - 1))
      ((List.range (hllRegisters / 32 - 1)).foldl (hllDenseCompressAVX2Block reg_raw) reg_dense) :=
    foldl_range_invariant (fun i d => CompressedTo reg_raw (32 * i) d) ⟨size, fun j below => by omega⟩
      fun i _ block below => compressedTo_hllDenseCompressAVX2Block fits block below
  have last := compressedTo_tail fits (n := 32) (by rw [hllRegisters_eq]) blocks
  rw [show 32 * (hllRegisters / 32 - 1) = hllRegisters - 32 by rw [hllRegisters_eq],
    show hllRegisters - 32 + 32 = hllRegisters by rw [hllRegisters_eq]] at last
  exact last

end Avx2Compress

section NeonCompress

/-- The table of hllDenseCompressNEON, each 0xFF out of range: the low three bytes of each group gathered. -/
def hllDenseCompressNEONIdx : BitVec 128 :=
  vld1q_u8 [0, 1, 2, 4, 5, 6, 8, 9, 10, 12, 13, 14, 0xFF, 0xFF, 0xFF, 0xFF] 0

/-- The masks and right shifts of hllDenseCompressNEON, as in hllDenseCompressAVX2Pack. -/
def hllDenseCompressNEONPack (x : BitVec 128) : BitVec 128 :=
  let a1 := vandq_u32 x (vdupq_n_u32 0x0000003F)
  let a2 := vandq_u32 x (vdupq_n_u32 0x00003F00)
  let a3 := vandq_u32 x (vdupq_n_u32 0x003F0000)
  let a4 := vandq_u32 x (vdupq_n_u32 0x3F000000)
  let a2 := vshrq_n_u32 a2 2
  let a3 := vshrq_n_u32 a3 4
  let a4 := vshrq_n_u32 a4 6
  let y1 := vorrq_u32 a1 a2
  let y2 := vorrq_u32 a3 a4
  vorrq_u32 y1 y2

/-- Iteration `i` of the loop of hllDenseCompressNEON, with `r = reg_raw + 16 i` and `t = reg_dense + 12 i`:
sixteen bytes stored, the last four of them over the next block's. -/
def hllDenseCompressNEONBlock (reg_raw d : List UInt8) (i : Nat) : List UInt8 :=
  let y := hllDenseCompressNEONPack (vld1q_u32 reg_raw (16 * i))
  vst1q_u8 d (12 * i) (vqtbl1q_u8 y hllDenseCompressNEONIdx)

/-- hllDenseCompressNEON: 1023 blocks of 16 registers, and the last 16 by the scalar loop. -/
def hllDenseCompressNEON (reg_dense reg_raw : List UInt8) : List UInt8 :=
  let d := (List.range (hllRegisters / 16 - 1)).foldl (hllDenseCompressNEONBlock reg_raw) reg_dense
  (List.range' (hllRegisters - 16) 16).foldl (hllCompressRegister reg_raw) d

theorem testBit_hllDenseCompressNEONPack (reg_raw : List UInt8) (i : Nat) {g q : Nat} (lanes : g < 4) (low : q < 24) :
    (hllDenseCompressNEONPack (vld1q_u32 reg_raw (16 * i))).toNat.testBit (32 * g + q) =
      (reg_raw.getD (16 * i + 4 * g + q / 6) 0).toNat.testBit (q % 6) := by
  simp (disch := omega) only [hllDenseCompressNEONPack, vorrq_u32, vandq_u32, testBit_vorrq, testBit_vandq,
    testBit_vshrq_n_u32, testBit_vdupq_n_u32, UInt32.reduceToNat]
  rw [pack_testBit (fun p => (vld1q_u32 reg_raw (16 * i)).toNat.testBit (32 * g + p)) (by omega),
    decide_eq_true low, Bool.true_and, testBit_eq_testBit_lane (show 0 < 8 by decide),
    show (32 * g + (8 * (q / 6) + q % 6)) / 8 = 4 * g + q / 6 by omega,
    show (32 * g + (8 * (q / 6) + q % 6)) % 8 = q % 6 by omega, lane_vld1q_u32 _ _ (by omega), Nat.add_assoc]

theorem hllDenseCompressNEONIdx_entry {j : Nat} (inside : j < 12) :
    lane 8 hllDenseCompressNEONIdx.toNat j = 4 * (j / 3) + j % 3 := by
  rw [hllDenseCompressNEONIdx, lane_vld1q_u8 _ _ (by omega)]
  interval_cases j <;> decide

/-- The bits a block writes: byte `b` of the twelve is byte `4 (b / 3) + b % 3` of the packed block. -/
theorem bufferBit_hllDenseCompressNEONBlock (reg_raw d : List UInt8) (i : Nat) (room : 12 * i + 16 ≤ d.length)
    {x : Nat} (inside : x < 96) :
    bufferBit (hllDenseCompressNEONBlock reg_raw d i) (8 * (12 * i) + x) =
      (hllDenseCompressNEONPack (vld1q_u32 reg_raw (16 * i))).toNat.testBit
        (32 * (x / 24) + (8 * (x / 8 % 3) + x % 8)) := by
  simp only [hllDenseCompressNEONBlock, vst1q_u8, bufferBit_storeLanes]
  rw [if_pos ⟨by omega, by omega, by omega⟩, show (8 * (12 * i) + x) / 8 - 12 * i = x / 8 by omega,
    lane_vqtbl1q_u8 _ _ (by omega) (by rw [hllDenseCompressNEONIdx_entry (by omega)]; omega),
    hllDenseCompressNEONIdx_entry (by omega), testBit_lane, show (8 * (12 * i) + x) % 8 = x % 8 by omega]
  simp only [show x % 8 < 8 by omega, decide_true, Bool.true_and]
  congr 1
  omega

theorem bufferBit_hllDenseCompressNEONBlock_below (reg_raw d : List UInt8) (i : Nat) {x : Nat}
    (below : x < 8 * (12 * i)) : bufferBit (hllDenseCompressNEONBlock reg_raw d i) x = bufferBit d x := by
  simp only [hllDenseCompressNEONBlock, vst1q_u8, bufferBit_storeLanes]
  rw [if_neg (by omega)]

theorem compressedTo_hllDenseCompressNEONBlock (fits : ∀ j < hllRegisters, (reg_raw.getD j 0).toNat < 64) {i : Nat}
    (block : i < hllRegisters / 16 - 1) (compressed : CompressedTo reg_raw (16 * i) d) :
    CompressedTo reg_raw (16 * (i + 1)) (hllDenseCompressNEONBlock reg_raw d i) := by
  have room : 12 * i + 16 ≤ d.length := by
    rw [compressed.1, hllDenseBytes_eq]
    rw [hllRegisters_eq] at block
    omega
  rw [show 16 * (i + 1) = 16 * i + 4 * 4 by omega]
  refine compressedTo_block compressed ?_ (fun j below => fits j (by rw [hllRegisters_eq] at block ⊢; omega))
    (fun x below => bufferBit_hllDenseCompressNEONBlock_below reg_raw d i (by omega)) ?_
  · simp only [hllDenseCompressNEONBlock, vst1q_u8, length_storeLanes]
    exact compressed.1
  · intro j t start below field
    -- register `j` is register `m` of group `g` of the block
    obtain ⟨g, m, rfl, lanes, part⟩ : ∃ g m, j = 16 * i + 4 * g + m ∧ g < 4 ∧ m < 4 :=
      ⟨(j - 16 * i) / 4, (j - 16 * i) % 4, by omega, by omega, by omega⟩
    have group : (24 * g + 6 * m + t) / 24 = g := by omega
    have byte : (24 * g + 6 * m + t) / 8 % 3 = (6 * m + t) / 8 := by omega
    rw [show (16 * i + 4 * g + m) * 6 + t = 8 * (12 * i) + (24 * g + 6 * m + t) by omega,
      bufferBit_hllDenseCompressNEONBlock reg_raw d i room (by omega), group, byte,
      show 8 * ((6 * m + t) / 8) + (24 * g + 6 * m + t) % 8 = 6 * m + t by omega,
      testBit_hllDenseCompressNEONPack reg_raw i lanes (by omega), show (6 * m + t) / 6 = m by omega,
      show (6 * m + t) % 6 = t by omega]

theorem hllDenseCompressNEON_compressed (size : reg_dense.length = hllDenseBytes)
    (fits : ∀ j < hllRegisters, (reg_raw.getD j 0).toNat < 64) :
    CompressedTo reg_raw hllRegisters (hllDenseCompressNEON reg_dense reg_raw) := by
  have blocks : CompressedTo reg_raw (16 * (hllRegisters / 16 - 1))
      ((List.range (hllRegisters / 16 - 1)).foldl (hllDenseCompressNEONBlock reg_raw) reg_dense) :=
    foldl_range_invariant (fun i d => CompressedTo reg_raw (16 * i) d) ⟨size, fun j below => by omega⟩
      fun i _ block below => compressedTo_hllDenseCompressNEONBlock fits block below
  have last := compressedTo_tail fits (n := 16) (by rw [hllRegisters_eq]) blocks
  rw [show 16 * (hllRegisters / 16 - 1) = hllRegisters - 16 by rw [hllRegisters_eq],
    show hllRegisters - 16 + 16 = hllRegisters by rw [hllRegisters_eq]] at last
  exact last

end NeonCompress

/-- hllDenseCompress: the AVX2 variant where the build has it and HLL_USE_AVX2 holds, else the NEON variant
where the build has it and HLL_USE_NEON holds, else the scalar loop. -/
def hllDenseCompress (simd : HllSimd) (reg_dense reg_raw : List UInt8) : List UInt8 :=
  if simd.haveX86Simd ∧ hllRegisters = 16384 ∧ hllBits = 6 ∧ simd.useAvx2 then hllDenseCompressAVX2 reg_dense reg_raw
  else if simd.haveArmNeon ∧ hllRegisters = 16384 ∧ hllBits = 6 ∧ simd.useNeon then
    hllDenseCompressNEON reg_dense reg_raw
  else hllDenseCompressScalar reg_dense reg_raw

theorem hllDenseCompress_compressed (simd : HllSimd) {reg_dense reg_raw : List UInt8}
    (size : reg_dense.length = hllDenseBytes) (fits : ∀ v ∈ hllRawRegisters reg_raw, v < 64) :
    CompressedTo reg_raw hllRegisters (hllDenseCompress simd reg_dense reg_raw) := by
  have fits' : ∀ j < hllRegisters, (reg_raw.getD j 0).toNat < 64 := fun j below =>
    fits _ (List.mem_map.mpr ⟨j, List.mem_range.mpr below, rfl⟩)
  unfold hllDenseCompress
  split
  · exact hllDenseCompressAVX2_compressed size fits'
  · split
    · exact hllDenseCompressNEON_compressed size fits'
    · exact hllDenseCompressScalar_compressed size fits

/-- Whichever variant the build and the CPU select, hllDenseCompress writes every raw register that fits in
six bits to the dense register of its number. -/
theorem hllDenseCompress_registers (simd : HllSimd) {reg_dense reg_raw : List UInt8}
    (size : reg_dense.length = hllDenseBytes) (fits : ∀ v ∈ hllRawRegisters reg_raw, v < 64) :
    hllDenseRegisters (hllDenseCompress simd reg_dense reg_raw) = hllRawRegisters reg_raw :=
  CompressedTo.registers (hllDenseCompress_compressed simd size fits)

theorem hllDenseCompress_registers_empty :
    (List.replicate 12288 (0 : UInt8)).length = hllDenseBytes ∧
      (∀ v ∈ hllRawRegisters (List.replicate 16384 0), v < 64) ∧
      hllDenseRegisters (hllDenseCompress ⟨true, false, false, true, true⟩ (List.replicate 12288 0)
          (List.replicate 16384 0)) = hllRawRegisters (List.replicate 16384 0) :=
  have size : (List.replicate 12288 (0 : UInt8)).length = hllDenseBytes := by
    rw [List.length_replicate, hllDenseBytes_eq]
  have fits : ∀ v ∈ hllRawRegisters (List.replicate 16384 (0 : UInt8)), v < 64 := by
    intro v mem
    obtain ⟨j, inside, rfl⟩ := List.mem_map.mp mem
    rw [List.getD_replicate _ (by rw [← hllRegisters_eq]; exact List.mem_range.mp inside)]
    decide
  ⟨size, fits, hllDenseCompress_registers _ size fits⟩

end Kv.Hll
