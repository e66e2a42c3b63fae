import Kv.Foundations.Gf2

/-!
A CRC register kept in reflected bit order, as table-driven CRCs keep it: the
oldest bit of the message sits at the bottom of the word, and each bit moves the
register down a place, xoring the reflected polynomial in when the bit that
falls out is set (`crcShift`). A byte is xored into the low end and eight moves
follow (`zeroByte`). The moves are linear over GF(2), so the CRC of a
concatenation is the CRC of the first part moved past the second part's length
in zero bytes, xored with the CRC of the second part from zero
(`crcBytes_append_combine`); up to eight bytes go in at once as a little-endian
word (`crcBytes_eq_word`); and eight zero bytes after a word are the xor of a
table's entries for its bytes (`iterate_zeroByte_succ`). A register kept in the
natural order, top bit first, is the reflected one read backwards
(`reverse64_crcShiftMsb`).
-/

namespace Foundations

theorem uint64_getLsbD_toUInt8 (x : UInt64) (i : Nat) :
    x.toUInt8.toUInt64.toBitVec.getLsbD i = (decide (i < 8) && x.toBitVec.getLsbD i) := by
  simp only [UInt8.toBitVec_toUInt64, UInt64.toBitVec_toUInt8, BitVec.getLsbD_setWidth]
  by_cases low : i < 8
  · simp [low, show i < 64 by omega]
  · simp [low]

/-- One bit through a reflected CRC register. -/
def crcShift (poly x : UInt64) : UInt64 := (x >>> 1) ^^^ (if x &&& 1 = 0 then 0 else poly)

section Register

variable (poly : UInt64)

theorem crcShift_of_even {x : UInt64} (even : x.toBitVec.getLsbD 0 = false) : crcShift poly x = x >>> 1 := by
  rw [crcShift, if_pos ((uint64_and_one_eq_zero_iff x).mpr even), UInt64.xor_zero]

/-- The polynomial goes in when the lowest bit of one word, but not of both, is set. -/
theorem crcShift_select_xor (x y : UInt64) :
    (if (x ^^^ y) &&& 1 = 0 then 0 else poly) =
      (if x &&& 1 = 0 then 0 else poly) ^^^ (if y &&& 1 = 0 then 0 else poly) := by
  have bit : (x ^^^ y).toBitVec.getLsbD 0 = (x.toBitVec.getLsbD 0 ^^ y.toBitVec.getLsbD 0) := by
    simp [UInt64.toBitVec_xor]
  simp only [uint64_and_one_eq_zero_iff, bit]
  cases x.toBitVec.getLsbD 0 <;> cases y.toBitVec.getLsbD 0 <;> simp

theorem xorLinear_crcShift : XorLinear (crcShift poly) := fun x y => by
  rw [crcShift, crcShift, crcShift, UInt64.shiftRight_xor, crcShift_select_xor, uint64_xor_xor_xor_comm]

/-- What lies above the lowest bit of `v` passes one move a place lower, untouched by the polynomial. -/
theorem crcShift_xor_split (y v : UInt64) :
    crcShift poly (y ^^^ v) = crcShift poly (y ^^^ (v &&& 1)) ^^^ (v >>> 1) := by
  have upper : crcShift poly ((v >>> 1) <<< 1) = v >>> 1 := by
    rw [crcShift_of_even poly (by simp)]
    apply uint64_eq_of_getLsbD
    intro i below
    rw [uint64_getLsbD_shiftRight _ 1 1 rfl (by decide), uint64_getLsbD_shiftLeft _ 1 1 rfl (by decide),
      uint64_getLsbD_shiftRight _ 1 1 rfl (by decide)]
    by_cases top : 1 + i < 64
    · simp [top]
    · have out : v.toBitVec.getLsbD (1 + i) = false := BitVec.getLsbD_of_ge _ _ (by omega)
      simp [top, out]
  conv => lhs; rw [uint64_split_low v, ← UInt64.xor_assoc, xorLinear_crcShift, upper]

/-- `k` moves of the register, the bits `bit 0, bit 1, ...` xored into its bottom one before each move: a register
fed a message bit by bit. -/
def crcShiftBits : Nat → UInt64 → (Nat → Bool) → UInt64
  | 0, r, _ => r
  | k + 1, r, bit => crcShiftBits k (crcShift poly (r ^^^ if bit 0 then 1 else 0)) fun j => bit (j + 1)

/-- Fed bit by bit, lowest first, the register ends where `k` moves after xoring in the whole word end: the
bit-serial register and the word-wise one agree. -/
theorem iterate_crcShift_eq_crcShiftBits (k : Nat) (r v : UInt64) (fits : (fun w : UInt64 => w >>> 1)^[k] v = 0) :
    (crcShift poly)^[k] (r ^^^ v) = crcShiftBits poly k r fun j => v.toBitVec.getLsbD j := by
  induction k generalizing r v with
  | zero =>
    simp only [Function.iterate_zero, id_eq] at fits ⊢
    rw [fits, UInt64.xor_zero]
    rfl
  | succ k ih =>
    have low : v &&& 1 = if v.toBitVec.getLsbD 0 then 1 else 0 := by
      rcases uint64_and_one_cases v with zero | one
      · rw [zero, if_neg (by rw [Bool.not_eq_true, ← uint64_and_one_eq_zero_iff]; exact zero)]
      · have set : v.toBitVec.getLsbD 0 = true := by
          rw [← Bool.not_eq_false, ← uint64_and_one_eq_zero_iff, one]
          decide
        rw [one, if_pos set]
    have rest : (fun j => (v >>> 1).toBitVec.getLsbD j) = fun j => v.toBitVec.getLsbD (j + 1) := by
      funext j
      rw [uint64_getLsbD_shiftRight _ 1 1 rfl (by decide), Nat.add_comm]
    rw [Function.iterate_succ_apply] at fits
    rw [Function.iterate_succ_apply, crcShift_xor_split, ih _ _ fits, crcShiftBits, low, rest]

/-- A zero byte through the register: eight moves. -/
def zeroByte : UInt64 → UInt64 := (crcShift poly)^[8]

theorem xorLinear_zeroByte : XorLinear (zeroByte poly) := (xorLinear_crcShift poly).iterate 8

/-- A word whose low `k` bits are clear only moves down through `k` moves. -/
theorem iterate_crcShift_of_low_clear {k : Nat} {x : UInt64} (clear : ∀ i < k, x.toBitVec.getLsbD i = false) :
    (crcShift poly)^[k] x = (fun w : UInt64 => w >>> 1)^[k] x := by
  induction k generalizing x with
  | zero => rfl
  | succ k ih =>
    have shifted : ∀ i < k, (x >>> 1).toBitVec.getLsbD i = false := by
      intro i below
      rw [uint64_getLsbD_shiftRight _ 1 1 rfl (by decide)]
      exact clear _ (by omega)
    rw [Function.iterate_succ_apply, Function.iterate_succ_apply, crcShift_of_even poly (clear 0 (by omega)),
      ih shifted]

theorem zeroByte_of_low_clear {x : UInt64} (clear : ∀ i < 8, x.toBitVec.getLsbD i = false) :
    zeroByte poly x = x >>> 8 := by
  rw [zeroByte, iterate_crcShift_of_low_clear poly clear]
  exact iterate_shiftRight_eq 8 (by decide) x

/-- Only the low byte of a word meets the polynomial in a zero byte; the rest moves down a byte. -/
theorem zeroByte_split (x : UInt64) : zeroByte poly x = zeroByte poly x.toUInt8.toUInt64 ^^^ (x >>> 8) := by
  have whole : x = x.toUInt8.toUInt64 ^^^ (x ^^^ x.toUInt8.toUInt64) := by
    rw [UInt64.xor_comm x, ← UInt64.xor_assoc, UInt64.xor_self, UInt64.zero_xor]
  have clear : ∀ i < 8, (x ^^^ x.toUInt8.toUInt64).toBitVec.getLsbD i = false := by
    intro i below
    simp only [UInt64.toBitVec_xor, BitVec.getLsbD_xor, uint64_getLsbD_toUInt8]
    simp [below]
  have high : (x ^^^ x.toUInt8.toUInt64) >>> 8 = x >>> 8 := by
    apply uint64_eq_of_getLsbD
    intro i _
    rw [uint64_getLsbD_shiftRight _ 8 8 rfl (by decide), uint64_getLsbD_shiftRight _ 8 8 rfl (by decide)]
    simp only [UInt64.toBitVec_xor, BitVec.getLsbD_xor, uint64_getLsbD_toUInt8]
    simp [show ¬ 8 + i < 8 by omega]
  conv => lhs; rw [whole, xorLinear_zeroByte, zeroByte_of_low_clear poly clear, high]

/-- `m + 1` zero bytes after a word: those after its low byte, and `m` after the rest moved down a byte. -/
theorem iterate_zeroByte_succ (m : Nat) (y : UInt64) :
    (zeroByte poly)^[m + 1] y = (zeroByte poly)^[m + 1] y.toUInt8.toUInt64 ^^^ (zeroByte poly)^[m] (y >>> 8) := by
  rw [Function.iterate_succ_apply, Function.iterate_succ_apply, zeroByte_split poly y,
    (xorLinear_zeroByte poly).iterate m]

/-- The CRC of a byte string from the register `crc`, a byte at a time. -/
def crcBytes (crc : UInt64) (bytes : List UInt8) : UInt64 :=
  bytes.foldl (fun crc b => zeroByte poly (crc ^^^ b.toUInt64)) crc

@[simp] theorem crcBytes_nil (crc : UInt64) : crcBytes poly crc [] = crc := rfl

@[simp] theorem crcBytes_cons (crc : UInt64) (b : UInt8) (bytes : List UInt8) :
    crcBytes poly crc (b :: bytes) = crcBytes poly (zeroByte poly (crc ^^^ b.toUInt64)) bytes := rfl

theorem crcBytes_append (crc : UInt64) (front back : List UInt8) :
    crcBytes poly crc (front ++ back) = crcBytes poly (crcBytes poly crc front) back :=
  List.foldl_append

/-- A word xored into the starting register comes out moved past the whole string in zero bytes. -/
theorem crcBytes_xor (c d : UInt64) (bytes : List UInt8) :
    crcBytes poly (c ^^^ d) bytes = crcBytes poly c bytes ^^^ (zeroByte poly)^[bytes.length] d := by
  induction bytes generalizing c d with
  | nil => rfl
  | cons b bytes ih =>
    have swap : c ^^^ d ^^^ b.toUInt64 = c ^^^ b.toUInt64 ^^^ d := by
      rw [UInt64.xor_assoc, UInt64.xor_comm d, ← UInt64.xor_assoc]
    rw [crcBytes_cons, crcBytes_cons, swap, xorLinear_zeroByte, ih, List.length_cons,
      Function.iterate_succ_apply]

/-- The CRC of a concatenation: the CRC of the first part moved past the second part's length in zero bytes, xored
with the CRC of the second part from zero. -/
theorem crcBytes_append_combine (c : UInt64) (front back : List UInt8) :
    crcBytes poly c (front ++ back) =
      (zeroByte poly)^[back.length] (crcBytes poly c front) ^^^ crcBytes poly 0 back := by
  have moved := crcBytes_xor poly 0 (crcBytes poly c front) back
  rw [UInt64.zero_xor] at moved
  rw [crcBytes_append, moved, UInt64.xor_comm]

end Register

/-- The little-endian word of a string of bytes, as a load of up to eight bytes reads it. -/
def wordOfBytes : List UInt8 → UInt64
  | [] => 0
  | b :: bytes => b.toUInt64 ||| (wordOfBytes bytes <<< 8)

theorem wordOfBytes_high_clear (bytes : List UInt8) (i : Nat) (above : 8 * bytes.length ≤ i) :
    (wordOfBytes bytes).toBitVec.getLsbD i = false := by
  induction bytes generalizing i with
  | nil => simp [wordOfBytes]
  | cons b bytes ih =>
    simp only [List.length_cons] at above
    have byte : b.toUInt64.toBitVec.getLsbD i = false := by
      simp only [UInt8.toBitVec_toUInt64, BitVec.getLsbD_setWidth]
      simp [BitVec.getLsbD_of_ge b.toBitVec i (by omega)]
    rw [wordOfBytes, UInt64.toBitVec_or, BitVec.getLsbD_or, byte, uint64_getLsbD_shiftLeft _ 8 8 rfl (by decide),
      ih (i - 8) (by omega)]
    simp

/-- A byte and a word above it do not overlap: or is xor. -/
theorem wordOfBytes_cons_eq_xor (b : UInt8) (bytes : List UInt8) :
    wordOfBytes (b :: bytes) = b.toUInt64 ^^^ (wordOfBytes bytes <<< 8) := by
  apply uint64_eq_of_getLsbD
  intro i _
  rw [wordOfBytes, UInt64.toBitVec_or, UInt64.toBitVec_xor, BitVec.getLsbD_or, BitVec.getLsbD_xor,
    uint64_getLsbD_shiftLeft _ 8 8 rfl (by decide)]
  by_cases low : i < 8
  · simp [low]
  · simp [low, BitVec.getLsbD_of_ge b.toBitVec i (by omega)]

section Register

variable (poly : UInt64)

/-- A word shifted up a byte, whose top byte was clear, comes out of a zero byte as it was. -/
theorem zeroByte_xor_shiftLeft (y w : UInt64) (top : ∀ i, 56 ≤ i → w.toBitVec.getLsbD i = false) :
    zeroByte poly (y ^^^ (w <<< 8)) = zeroByte poly y ^^^ w := by
  have clear : ∀ i < 8, (w <<< 8).toBitVec.getLsbD i = false := by
    intro i below
    simp [below]
  have back : (w <<< 8) >>> 8 = w := by
    apply uint64_eq_of_getLsbD
    intro i below
    rw [uint64_getLsbD_shiftRight _ 8 8 rfl (by decide), uint64_getLsbD_shiftLeft _ 8 8 rfl (by decide)]
    by_cases inside : i < 56
    · rw [Nat.add_sub_cancel_left]
      simp only [decide_eq_true (show 8 + i < 64 by omega), decide_eq_false (show ¬ 8 + i < 8 by omega),
        Bool.true_and, Bool.not_false]
    · simp [top i (by omega)]
  rw [xorLinear_zeroByte, zeroByte_of_low_clear poly clear, back]

/-- Up to eight bytes go into the register at once, as their little-endian word. -/
theorem crcBytes_eq_word (c : UInt64) (bytes : List UInt8) (short : bytes.length ≤ 8) :
    crcBytes poly c bytes = (zeroByte poly)^[bytes.length] (c ^^^ wordOfBytes bytes) := by
  induction bytes generalizing c with
  | nil => simp [wordOfBytes]
  | cons b bytes ih =>
    simp only [List.length_cons] at short
    have top : ∀ i, 56 ≤ i → (wordOfBytes bytes).toBitVec.getLsbD i = false :=
      fun i above => wordOfBytes_high_clear bytes i (by omega)
    rw [crcBytes_cons, ih _ (by omega), List.length_cons, Function.iterate_succ_apply, wordOfBytes_cons_eq_xor,
      ← UInt64.xor_assoc, zeroByte_xor_shiftLeft poly _ _ top]

end Register

/-- The word with its bits in the opposite order. -/
def reverse64 (x : UInt64) : UInt64 := UInt64.ofBitVec x.toBitVec.reverse

theorem reverse64_getLsbD (x : UInt64) {i : Nat} (below : i < 64) :
    (reverse64 x).toBitVec.getLsbD i = x.toBitVec.getLsbD (63 - i) := by
  simp only [reverse64, UInt64.toBitVec_ofBitVec, BitVec.getLsbD_reverse, BitVec.getMsbD_eq_getLsbD]
  simp [below]

theorem reverse64_zero : reverse64 0 = 0 :=
  uint64_eq_of_getLsbD fun i below => by
    rw [reverse64_getLsbD _ below]
    simp

theorem reverse64_xor (x y : UInt64) : reverse64 (x ^^^ y) = reverse64 x ^^^ reverse64 y :=
  uint64_eq_of_getLsbD fun i below => by
    simp only [UInt64.toBitVec_xor, BitVec.getLsbD_xor, reverse64_getLsbD _ below]

theorem reverse64_shiftLeft_one (x : UInt64) : reverse64 (x <<< 1) = reverse64 x >>> 1 :=
  uint64_eq_of_getLsbD fun i below => by
    rw [reverse64_getLsbD _ below, uint64_getLsbD_shiftLeft _ 1 1 rfl (by decide),
      uint64_getLsbD_shiftRight _ 1 1 rfl (by decide)]
    by_cases top : i < 63
    · rw [reverse64_getLsbD _ (show 1 + i < 64 by omega), show 63 - i - 1 = 63 - (1 + i) by omega]
      simp only [decide_eq_true (show 63 - i < 64 by omega), decide_eq_false (show ¬ 63 - i < 1 by omega),
        Bool.true_and, Bool.not_false]
    · rw [BitVec.getLsbD_of_ge _ (1 + i) (by omega)]
      simp [show 63 - i < 1 by omega]

/-- One bit through a CRC register in the natural order: the register moves up a place, and the polynomial goes in
when the bit that falls out of the top differs from the message bit `d`. -/
def crcShiftMsb (poly x : UInt64) (d : Bool) : UInt64 :=
  (x <<< 1) ^^^ (if (x.toBitVec.getLsbD 63 ^^ d) then poly else 0)

/-- A register in the natural order read backwards is the reflected register, the message bit xored into its
bottom. -/
theorem reverse64_crcShiftMsb (poly x : UInt64) (d : Bool) :
    reverse64 (crcShiftMsb poly x d) = crcShift (reverse64 poly) (reverse64 x ^^^ (if d then 1 else 0)) := by
  have dropped : (if d then (1 : UInt64) else 0) >>> 1 = 0 := by cases d <;> decide
  have low : ((reverse64 x ^^^ (if d then 1 else 0)) &&& 1 = 0) ↔ (x.toBitVec.getLsbD 63 ^^ d) = false := by
    rw [uint64_and_one_eq_zero_iff, UInt64.toBitVec_xor, BitVec.getLsbD_xor, reverse64_getLsbD x (by decide)]
    cases d <;> simp
  have selected : reverse64 (if (x.toBitVec.getLsbD 63 ^^ d) then poly else 0) =
      (if (reverse64 x ^^^ (if d then 1 else 0)) &&& 1 = 0 then 0 else reverse64 poly) := by
    by_cases falls : (x.toBitVec.getLsbD 63 ^^ d) = false
    · rw [if_pos (low.mpr falls), falls, if_neg Bool.false_ne_true, reverse64_zero]
    · rw [if_neg (fun zero => falls (low.mp zero)), (Bool.not_eq_false _).mp falls, if_pos rfl]
  rw [crcShiftMsb, reverse64_xor, reverse64_shiftLeft_one, selected, crcShift, UInt64.shiftRight_xor, dropped,
    UInt64.xor_zero]

end Foundations
