import Kv.Foundations.ReflectedCrc

/-!
The bit-by-bit CRC-64 of crc64.c, as pycrc generated it for the Jones
polynomial with reflected input and output. `_crc64` feeds each byte into the
register lowest bit first, the register's top bit falling out first, and
reflects the register once at the end. Read backwards, that register is the
reflected register of a table-driven CRC (`reverse64_crcByteBits`), so `_crc64`
is the reflected CRC of its input, started from the reflected starting value
(`_crc64_eq_crcBytes`).
-/

namespace Kv.Crc

open Foundations

/-- POLY -/
def poly : UInt64 := 0xad93d23594c935a9

/-- One swap of crc_reflect: the bits under `mask` change places with those `shift` places above them. -/
def reflectStage (data shift mask : UInt64) : UInt64 :=
  ((data >>> shift) &&& mask) ||| ((data &&& mask) <<< shift)

/-- crc_reflect, with the portable byte swap of its #else branch; __builtin_bswap64 swaps the same bytes. The
assertion `data_len <= 64` holds at its one call, with 64. -/
def crcReflect (data dataLen : UInt64) : UInt64 :=
  -- swap odd and even bits, then pairs, nibbles, bytes, 2-byte pairs and 4-byte quads
  let data := reflectStage data 1 0x5555555555555555
  let data := reflectStage data 2 0x3333333333333333
  let data := reflectStage data 4 0x0F0F0F0F0F0F0F0F
  let data := reflectStage data 8 0x00FF00FF00FF00FF
  let data := reflectStage data 16 0xFFFF0000FFFF
  let data := reflectStage data 32 0xFFFFFFFF
  data >>> (64 - dataLen)

/-- One pass of the inner loop of _crc64: the message bit `c & i` meets the register's top bit, the register moves
up a place, and POLY goes in when the two differ. -/
def crcBitStep (c i : UInt8) (crc : UInt64) : UInt64 :=
  let bit : UInt64 := crc &&& 0x8000000000000000
  let bit : UInt64 := if c &&& i ≠ 0 then (if bit = 0 then 1 else 0) else bit
  let crc := crc <<< 1
  if bit ≠ 0 then crc ^^^ poly else crc

/-- The inner loop of _crc64, `for (i = 0x01; i & 0xff; i <<= 1)` over a uint_fast8_t mask. -/
def crcByteBits (c : UInt8) : Nat → UInt8 → UInt64 → UInt64
  | 0, _, crc => crc
  | fuel + 1, i, crc => if i &&& 0xff = 0 then crc else crcByteBits c fuel (i <<< 1) (crcBitStep c i crc)

/-- _crc64: each of the `len` bytes through the bit loop, then the register reflected. -/
def _crc64 (crc : UInt64) (data : List UInt8) (len : Nat) : UInt64 :=
  let crc := (data.take len).foldl (fun crc c => crcByteBits c 9 1 crc &&& 0xffffffffffffffff) crc
  let crc := crc &&& 0xffffffffffffffff
  crcReflect crc 64 ^^^ 0x0000000000000000

/-- Bit `i` of a reflect stage is bit `i ^^^ shift` of its input: either the mask holds bit `i` and bit `i + shift`
comes down, or it holds bit `i - shift` and that bit goes up. -/
def swapsBit (mask : UInt64) (shift i : Nat) : Bool :=
  (mask.toBitVec.getLsbD i && i + shift == i ^^^ shift &&
      !(decide (shift ≤ i) && mask.toBitVec.getLsbD (i - shift))) ||
    (!mask.toBitVec.getLsbD i && decide (shift ≤ i) && mask.toBitVec.getLsbD (i - shift) && i - shift == i ^^^ shift)

theorem reflectStage_getLsbD (data shift mask : UInt64) (s : Nat) (amount : shift.toNat = s) (small : s < 64)
    {i : Nat} (below : i < 64) (swaps : swapsBit mask s i = true) :
    (reflectStage data shift mask).toBitVec.getLsbD i = data.toBitVec.getLsbD (i ^^^ s) := by
  rw [reflectStage, UInt64.toBitVec_or, BitVec.getLsbD_or, UInt64.toBitVec_and, BitVec.getLsbD_and,
    uint64_getLsbD_shiftRight _ _ s amount small, uint64_getLsbD_shiftLeft _ _ s amount small, UInt64.toBitVec_and,
    BitVec.getLsbD_and]
  simp only [swapsBit, Bool.or_eq_true, Bool.and_eq_true, beq_iff_eq, Bool.not_eq_true', decide_eq_true_eq,
    Bool.and_eq_false_iff] at swaps
  rcases swaps with ⟨⟨held, down⟩, notUp⟩ | ⟨⟨⟨notHeld, le⟩, heldBelow⟩, up⟩
  · -- the mask holds bit `i`: bit `i + shift` comes down, and nothing goes up into bit `i`
    rw [held, ← down, Nat.add_comm s i, Bool.and_true]
    rcases notUp with outside | free
    · have under : i < s := by simpa using outside
      simp only [decide_eq_true under, Bool.not_true, Bool.and_false, Bool.false_and, Bool.or_false]
    · simp only [free, Bool.and_false, Bool.or_false]
  · -- the mask holds bit `i - shift`, which goes up into bit `i`
    rw [notHeld, heldBelow, ← up]
    simp only [Bool.and_false, Bool.false_or, Bool.and_true, decide_eq_true below,
      decide_eq_false (show ¬ i < s by omega), Bool.not_false, Bool.true_and]

/-- Stage `s` swaps bits `s` apart: each of the six masks sends every bit to its partner. -/
theorem crcReflect_masks :
    (∀ i : Fin 64, swapsBit 0x5555555555555555 1 i = true) ∧ (∀ i : Fin 64, swapsBit 0x3333333333333333 2 i = true) ∧
      (∀ i : Fin 64, swapsBit 0x0F0F0F0F0F0F0F0F 4 i = true) ∧
      (∀ i : Fin 64, swapsBit 0x00FF00FF00FF00FF 8 i = true) ∧ (∀ i : Fin 64, swapsBit 0xFFFF0000FFFF 16 i = true) ∧
      (∀ i : Fin 64, swapsBit 0xFFFFFFFF 32 i = true) := by
  refine ⟨?_, ?_, ?_, ?_, ?_, ?_⟩ <;> decide

/-- crc_reflect over 64 bits reverses the word. -/
theorem crcReflect_eq_reverse64 (data : UInt64) : crcReflect data 64 = reverse64 data := by
  obtain ⟨m1, m2, m4, m8, m16, m32⟩ := crcReflect_masks
  have partner : ∀ i : Fin 64, ((((((i.val ^^^ 32) ^^^ 16) ^^^ 8) ^^^ 4) ^^^ 2) ^^^ 1) = 63 - i.val := by decide
  have xorBelow : ∀ {j : Nat} (s : Nat), j < 64 → s < 64 → j ^^^ s < 64 := fun s hj hs =>
    Nat.xor_lt_two_pow (show _ < 2 ^ 6 from hj) (show _ < 2 ^ 6 from hs)
  apply uint64_eq_of_getLsbD
  intro i below
  have noShift : (64 - (64 : UInt64)) = 0 := rfl
  simp only [crcReflect, noShift]
  rw [uint64_getLsbD_shiftRight _ _ 0 rfl (by decide), Nat.zero_add, reverse64_getLsbD _ below]
  have i32 := xorBelow 32 below (by decide)
  have i16 := xorBelow 16 i32 (by decide)
  have i8 := xorBelow 8 i16 (by decide)
  have i4 := xorBelow 4 i8 (by decide)
  have i2 := xorBelow 2 i4 (by decide)
  rw [reflectStage_getLsbD _ _ _ 32 rfl (by decide) below (m32 ⟨i, below⟩),
    reflectStage_getLsbD _ _ _ 16 rfl (by decide) i32 (m16 ⟨_, i32⟩),
    reflectStage_getLsbD _ _ _ 8 rfl (by decide) i16 (m8 ⟨_, i16⟩),
    reflectStage_getLsbD _ _ _ 4 rfl (by decide) i8 (m4 ⟨_, i8⟩),
    reflectStage_getLsbD _ _ _ 2 rfl (by decide) i4 (m2 ⟨_, i4⟩),
    reflectStage_getLsbD _ _ _ 1 rfl (by decide) i2 (m1 ⟨_, i2⟩), partner ⟨i, below⟩]

/-- The top-bit test of the bit loop reads bit 63. -/
theorem and_topBit_eq_zero_iff (crc : UInt64) :
    crc &&& 0x8000000000000000 = 0 ↔ crc.toBitVec.getLsbD 63 = false := by
  have top : ∀ j : Fin 64, (0x8000000000000000 : UInt64).toBitVec.getLsbD j = decide (j.val = 63) := by decide
  constructor
  · intro zero
    have bit := congrArg (fun w : UInt64 => w.toBitVec.getLsbD 63) zero
    simpa [UInt64.toBitVec_and, top ⟨63, by decide⟩] using bit
  · intro clear
    apply uint64_eq_of_getLsbD
    intro j below
    rw [UInt64.toBitVec_and, BitVec.getLsbD_and, top ⟨j, below⟩]
    by_cases at63 : j = 63
    · subst at63
      rw [clear, Bool.false_and]
      rfl
    · simp [at63]

/-- A mask of one bit picks that bit of the message byte. -/
theorem and_single_ne_zero_iff (c m : UInt8) {j : Nat} (single : ∀ t : Fin 8, m.toBitVec.getLsbD t = decide (t.val = j))
    (small : j < 8) : c &&& m ≠ 0 ↔ c.toBitVec.getLsbD j = true := by
  constructor
  · intro nonzero
    by_contra clear
    apply nonzero
    apply UInt8.toBitVec_inj.mp
    apply BitVec.eq_of_getLsbD_eq
    intro t below
    rw [UInt8.toBitVec_and, BitVec.getLsbD_and, single ⟨t, below⟩]
    by_cases atJ : t = j
    · subst atJ
      simp [clear]
    · simp [atJ]
  · intro set zero
    have bit := congrArg (fun w : UInt8 => w.toBitVec.getLsbD j) zero
    simp [UInt8.toBitVec_and, single ⟨j, small⟩, set] at bit

/-- A pass of the bit loop is one bit through the register in the natural order, the message bit `c & i`. -/
theorem crcBitStep_eq_crcShiftMsb (c i : UInt8) (crc : UInt64) :
    crcBitStep c i crc = crcShiftMsb poly crc (decide (c &&& i ≠ 0)) := by
  have top := and_topBit_eq_zero_iff crc
  have one : (1 : UInt64) ≠ 0 := by decide
  simp only [crcBitStep, crcShiftMsb]
  cases topBit : crc.toBitVec.getLsbD 63
  · -- the top bit is clear: the loop's `bit` is the message bit
    have zero : crc &&& 0x8000000000000000 = 0 := top.mpr topBit
    by_cases message : c &&& i ≠ 0 <;> simp [zero, message, one]
  · -- the top bit is set: the loop's `bit` is the message bit flipped
    have nonzero : crc &&& 0x8000000000000000 ≠ 0 := fun zero => absurd (top.mp zero) (by rw [topBit]; decide)
    by_cases message : c &&& i ≠ 0 <;> simp [nonzero, message]

/-- The bit loop runs its eight masks and stops when the mask shifts out of the byte. -/
theorem crcByteBits_nine (c : UInt8) (crc : UInt64) :
    crcByteBits c 9 1 crc =
      crcBitStep c 128 (crcBitStep c 64 (crcBitStep c 32 (crcBitStep c 16
        (crcBitStep c 8 (crcBitStep c 4 (crcBitStep c 2 (crcBitStep c 1 crc))))))) := rfl

/-- Read backwards, a pass of the bit loop with the mask `1 << j` takes in bit `j` of the byte. -/
theorem reverse64_crcBitStep (c m : UInt8) (j : Nat) (single : ∀ t : Fin 8, m.toBitVec.getLsbD t = decide (t.val = j))
    (small : j < 8) (crc : UInt64) :
    reverse64 (crcBitStep c m crc) =
      crcShift (reverse64 poly) (reverse64 crc ^^^ if c.toUInt64.toBitVec.getLsbD j then 1 else 0) := by
  have same : decide (c &&& m ≠ 0) = c.toUInt64.toBitVec.getLsbD j := by
    rw [UInt8.toBitVec_toUInt64, BitVec.getLsbD_setWidth, decide_eq_true (show j < 64 by omega), Bool.true_and]
    exact Bool.eq_iff_iff.mpr (by simpa using and_single_ne_zero_iff c m single small)
  rw [crcBitStep_eq_crcShiftMsb, reverse64_crcShiftMsb, same]

/-- Read backwards, the register after a byte of the bit loop is a zero byte through the reflected register after
the byte is xored into its bottom. -/
theorem reverse64_crcByteBits (c : UInt8) (crc : UInt64) :
    reverse64 (crcByteBits c 9 1 crc) = zeroByte (reverse64 poly) (reverse64 crc ^^^ c.toUInt64) := by
  have fits : (fun w : UInt64 => w >>> 1)^[8] c.toUInt64 = 0 := by
    apply UInt64.toNat_inj.mp
    rw [iterate_shiftRight_toNat, UInt8.toNat_toUInt64, Nat.div_eq_of_lt c.toNat_lt]
    rfl
  -- the eight passes, outermost first, each taking in the bit its mask selects
  rw [zeroByte, iterate_crcShift_eq_crcShiftBits _ 8 _ _ fits, crcByteBits_nine,
    reverse64_crcBitStep c 128 7 (by decide) (by decide), reverse64_crcBitStep c 64 6 (by decide) (by decide),
    reverse64_crcBitStep c 32 5 (by decide) (by decide), reverse64_crcBitStep c 16 4 (by decide) (by decide),
    reverse64_crcBitStep c 8 3 (by decide) (by decide), reverse64_crcBitStep c 4 2 (by decide) (by decide),
    reverse64_crcBitStep c 2 1 (by decide) (by decide), reverse64_crcBitStep c 1 0 (by decide) (by decide)]
  rfl

/-- The loop over the bytes, read backwards, is the byte-wise reflected CRC. -/
theorem reverse64_foldl_crcByteBits (bytes : List UInt8) (crc : UInt64) :
    reverse64 (bytes.foldl (fun crc c => crcByteBits c 9 1 crc &&& 0xffffffffffffffff) crc) =
      crcBytes (reverse64 poly) (reverse64 crc) bytes := by
  induction bytes generalizing crc with
  | nil => rfl
  | cons b bytes ih => rw [List.foldl_cons, ih, uint64_and_allOnes, reverse64_crcByteBits, crcBytes_cons]

/-- _crc64 is the reflected CRC of its first `len` bytes, started from the reflected starting value. -/
theorem _crc64_eq_crcBytes (crc : UInt64) (data : List UInt8) (len : Nat) :
    _crc64 crc data len = crcBytes (reverse64 poly) (reverse64 crc) (data.take len) := by
  rw [_crc64, uint64_and_allOnes, crcReflect_eq_reverse64, UInt64.xor_zero, reverse64_foldl_crcByteBits]

end Kv.Crc
