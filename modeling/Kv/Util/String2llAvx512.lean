import Kv.Util.Conversions
import Kv.Foundations.Avx512

/-!
string2llAVX512 of util.c, the AVX-512 variant of the strict parser that
string2ll picks on a CPU with AVX-512. After the same checks of the length, the
sign and a leading zero as string2llScalar, the digits are loaded under a mask
into the top lanes of a 256-bit register, checked to be digits, and combined by
three multiply-adds into four 32-bit lanes of eight digits each, which the code
joins with the multipliers 10^8 and 10^16 in unsigned 64-bit arithmetic.
-/

namespace Kv.Util

open Foundations

def multiplier10e8 : UInt64 := 100000000

def multiplier10e16 : UInt64 := 10000000000000000

def mul_1_10 : BitVec 256 :=
  mm256_set_epi8 [1, 10, 1, 10, 1, 10, 1, 10, 1, 10, 1, 10, 1, 10, 1, 10, 1, 10, 1, 10, 1, 10, 1, 10, 1, 10, 1, 10,
    1, 10, 1, 10]

def mul_1_100 : BitVec 128 := mm_set_epi8 [1, 100, 1, 100, 1, 100, 1, 100, 1, 100, 1, 100, 1, 100, 1, 100]

def mul_1_10000 : BitVec 128 := mm_set_epi16 [1, 10000, 1, 10000, 1, 10000, 1, 10000]

def string2llAVX512Digits (s : List UInt8) (plen : Nat) (negative : Bool) : Option Int64 :=
  let mask : UInt32 := (0xFFFFFFFF : UInt32) <<< UInt32.ofNat (32 - s.length + plen)
  let ascii0 := mm256_set1_epi8 48
  let nine := mm256_set1_epi8 9
  let input := mm256_maskz_loadu_epi8 mask s ((s.length : Int) - 32)
  let asciiDigits := mm256_maskz_sub_epi8 mask input ascii0
  let nondigits := mm256_mask_cmpgt_epu8_mask mask asciiDigits nine
  if nondigits ≠ 0 then none
  else
    let multipliedBy10 := mm256_maddubs_epi16 asciiDigits mul_1_10
    let reducedTo16bit := mm256_cvtepi16_epi8 multipliedBy10
    let multipliedBy100 := mm_maddubs_epi16 reducedTo16bit mul_1_100
    let multipliedBy10000 := mm_madd_epi16 multipliedBy100 mul_1_10000
    let low := UInt64.ofInt (mm_extract_epi32 multipliedBy10000 3).toInt
    if mask &&& 0xFFFFFF = 0 then some (if negative then -low else low).toInt64
    else
      let middle := UInt64.ofInt (mm_extract_epi32 multipliedBy10000 2).toInt
      let middleLow := low + multiplier10e8 * middle
      if mask &&& 0xFFFF = 0 then some (if negative then -middleLow else middleLow).toInt64
      else
        let high := UInt64.ofInt (mm_extract_epi32 multipliedBy10000 1).toInt
        let result := middleLow + multiplier10e16 * high
        -- ULONG_MAX = 18446744073709551615
        if high > 1844 ∨ result < middleLow then none
        else if negative then (if result.toNat > llongMax + 1 then none else some (-result).toInt64)
        else if result.toNat > llongMax then none else some result.toInt64

/-- string2llAVX512: the long long the bytes strictly represent, or none where it returns 0. -/
def string2llAVX512 (s : List UInt8) : Option Int64 :=
  if s.length = 0 ∨ s.length ≥ longStrSize then none
  -- the first and only digit
  else if s.length = 1 ∧ IsDigitByte (s.headD 0) then some (Int64.ofNat ((s.headD 0).toNat - 48))
  else
    let negative : Bool := s.headD 0 == 45
    let plen := if negative then 1 else 0
    if negative ∧ plen = s.length then none
    -- if the first digit is 0, the string should just be 0
    else if s.getD plen 0 = 48 then none
    else string2llAVX512Digits s plen negative

/-- string2ll on a CPU with or without AVX-512: the choice the dispatch makes. -/
def string2llOn (avx512 : Bool) (s : List UInt8) : Option Int64 :=
  if avx512 then string2llAVX512 s else string2llScalar s

section Blocks

def digitBlock (ds : List UInt8) (m i : Nat) : List UInt8 := (ds.drop (m * i)).take m

variable {ds : List UInt8}

theorem readDigits_digitBlock_one {i : Nat} (inside : i < ds.length) :
    readDigits 0 (digitBlock ds 1 i) = (ds.getD i 48).toNat - 48 := by
  rw [digitBlock, Nat.one_mul, List.drop_eq_getElem_cons inside, List.take_succ_cons, List.take_zero,
    List.getD_eq_getElem _ _ inside]
  simp [readDigits]

theorem readDigits_digitBlock_double {m i : Nat} (full : m * (2 * i + 1) + m ≤ ds.length) :
    readDigits 0 (digitBlock ds (2 * m) i) =
      readDigits 0 (digitBlock ds m (2 * i)) * 10 ^ m + readDigits 0 (digitBlock ds m (2 * i + 1)) := by
  have start : 2 * m * i = m * (2 * i) := by ring
  have next : m * (2 * i) + m = m * (2 * i + 1) := by ring
  have halves : digitBlock ds (2 * m) i = digitBlock ds m (2 * i) ++ digitBlock ds m (2 * i + 1) := by
    rw [digitBlock, digitBlock, digitBlock, start, Nat.two_mul m, List.take_add, List.drop_drop, next]
  have length : (digitBlock ds m (2 * i + 1)).length = m := by
    rw [digitBlock, List.length_take, List.length_drop]
    omega
  rw [halves, readDigits_append_digits, length]

theorem isDigitByte_zeros_append {t : Nat} {p : List UInt8} (digits : ∀ d ∈ p, IsDigitByte d) :
    ∀ d ∈ List.replicate t 48 ++ p, IsDigitByte d := by
  intro d mem
  rcases List.mem_append.mp mem with zero | digit
  · rw [List.eq_of_mem_replicate zero]
    decide
  · exact digits d digit

theorem readDigits_digitBlock_lt (digits : ∀ d ∈ ds, IsDigitByte d) (m i : Nat) :
    readDigits 0 (digitBlock ds m i) < 10 ^ m := by
  have inBlock : ∀ d ∈ digitBlock ds m i, IsDigitByte d := fun d mem =>
    digits d (List.mem_of_mem_drop (List.mem_of_mem_take mem))
  have short : (digitBlock ds m i).length ≤ m := by
    rw [digitBlock, List.length_take]
    omega
  exact lt_of_lt_of_le (readDigits_lt inBlock) (Nat.pow_le_pow_right (by decide) short)

end Blocks

section Reduce

/-! Each multiply-add turns lanes of `m` digits into lanes of `2 * m`: the multiplier's even lane is `10 ^ m`. -/

variable {ds : List UInt8} {j : Nat}

theorem lane_mul_1_10 (inside : j < 16) :
    lane 8 mul_1_10.toNat (2 * j + 1) = 1 ∧ lane 8 mul_1_10.toNat (2 * j) = 10 := by
  rw [mul_1_10, mm256_set_epi8, lane_setEpi8 (by decide) _ (by omega), lane_setEpi8 (by decide) _ (by omega)]
  revert j
  decide

theorem lane_mul_1_100 (inside : j < 8) :
    lane 8 mul_1_100.toNat (2 * j + 1) = 1 ∧ lane 8 mul_1_100.toNat (2 * j) = 100 := by
  rw [mul_1_100, mm_set_epi8, lane_setEpi8 (by decide) _ (by omega), lane_setEpi8 (by decide) _ (by omega)]
  revert j
  decide

theorem lane_mul_1_10000 (inside : j < 4) :
    lane 16 mul_1_10000.toNat (2 * j + 1) = 1 ∧ lane 16 mul_1_10000.toNat (2 * j) = 10000 := by
  rw [mul_1_10000, lane_mm_set_epi16 _ (by omega), lane_mm_set_epi16 _ (by omega)]
  revert j
  decide

section Levels

variable (length : ds.length = 32) (digits : ∀ d ∈ ds, IsDigitByte d)
include length digits

theorem lane_multipliedBy10 {a : BitVec 256} (lanes : ∀ j < 32, lane 8 a.toNat j = readDigits 0 (digitBlock ds 1 j))
    (inside : j < 16) : lane 16 (mm256_maddubs_epi16 a mul_1_10).toNat j = readDigits 0 (digitBlock ds 2 j) := by
  obtain ⟨one, ten⟩ := lane_mul_1_10 inside
  have odd := readDigits_digitBlock_lt digits 1 (2 * j + 1)
  have even := readDigits_digitBlock_lt digits 1 (2 * j)
  have double : readDigits 0 (digitBlock ds 2 j) =
      readDigits 0 (digitBlock ds 1 (2 * j)) * 10 + readDigits 0 (digitBlock ds 1 (2 * j + 1)) :=
    readDigits_digitBlock_double (m := 1) (by omega)
  rw [Nat.pow_one] at odd even
  rw [mm256_maddubs_epi16, lane_maddubsEpi16 (by decide) _ _ inside (by omega) (by omega)
      (by rw [one, ten, lanes (2 * j + 1) (by omega), lanes (2 * j) (by omega)]; omega),
    one, ten, lanes (2 * j + 1) (by omega), lanes (2 * j) (by omega), double]
  ring

omit length in
theorem lane_reducedTo16bit {a : BitVec 256} (lanes : ∀ j < 16, lane 16 a.toNat j = readDigits 0 (digitBlock ds 2 j))
    (inside : j < 16) : lane 8 (mm256_cvtepi16_epi8 a).toNat j = readDigits 0 (digitBlock ds 2 j) := by
  have small := readDigits_digitBlock_lt digits 2 j
  rw [lane_mm256_cvtepi16_epi8 _ inside, lanes j inside, Nat.mod_eq_of_lt (by omega)]

theorem lane_multipliedBy100 {a : BitVec 128} (lanes : ∀ j < 16, lane 8 a.toNat j = readDigits 0 (digitBlock ds 2 j))
    (inside : j < 8) : lane 16 (mm_maddubs_epi16 a mul_1_100).toNat j = readDigits 0 (digitBlock ds 4 j) := by
  obtain ⟨one, hundred⟩ := lane_mul_1_100 inside
  have odd := readDigits_digitBlock_lt digits 2 (2 * j + 1)
  have even := readDigits_digitBlock_lt digits 2 (2 * j)
  have double : readDigits 0 (digitBlock ds 4 j) =
      readDigits 0 (digitBlock ds 2 (2 * j)) * 100 + readDigits 0 (digitBlock ds 2 (2 * j + 1)) :=
    readDigits_digitBlock_double (m := 2) (by omega)
  rw [mm_maddubs_epi16, lane_maddubsEpi16 (by decide) _ _ inside (by omega) (by omega)
      (by rw [one, hundred, lanes (2 * j + 1) (by omega), lanes (2 * j) (by omega)]; omega),
    one, hundred, lanes (2 * j + 1) (by omega), lanes (2 * j) (by omega), double]
  ring

theorem lane_multipliedBy10000 {a : BitVec 128} (lanes : ∀ j < 8, lane 16 a.toNat j = readDigits 0 (digitBlock ds 4 j))
    (inside : j < 4) : lane 32 (mm_madd_epi16 a mul_1_10000).toNat j = readDigits 0 (digitBlock ds 8 j) := by
  obtain ⟨one, tenThousand⟩ := lane_mul_1_10000 inside
  have odd := readDigits_digitBlock_lt digits 4 (2 * j + 1)
  have even := readDigits_digitBlock_lt digits 4 (2 * j)
  have double : readDigits 0 (digitBlock ds 8 j) =
      readDigits 0 (digitBlock ds 4 (2 * j)) * 10000 + readDigits 0 (digitBlock ds 4 (2 * j + 1)) :=
    readDigits_digitBlock_double (m := 4) (by omega)
  rw [lane_mm_madd_epi16 _ _ inside (by rw [lanes (2 * j + 1) (by omega)]; omega) (by omega)
      (by rw [lanes (2 * j) (by omega)]; omega) (by omega),
    one, tenThousand, lanes (2 * j + 1) (by omega), lanes (2 * j) (by omega), double]
  ring

theorem lane_reduce {a : BitVec 256} (lanes : ∀ j < 32, lane 8 a.toNat j = readDigits 0 (digitBlock ds 1 j))
    {i : Nat} (inside : i < 4) :
    lane 32 (mm_madd_epi16 (mm_maddubs_epi16 (mm256_cvtepi16_epi8 (mm256_maddubs_epi16 a mul_1_10)) mul_1_100)
      mul_1_10000).toNat i = readDigits 0 (digitBlock ds 8 i) :=
  have tens := fun j => lane_multipliedBy10 length digits lanes (j := j)
  have bytes := fun j => lane_reducedTo16bit digits tens (j := j)
  have hundreds := fun j => lane_multipliedBy100 length digits bytes (j := j)
  lane_multipliedBy10000 length digits hundreds inside

end Levels

end Reduce

section Load

theorem testBit_lengthMask {t j : Nat} (shift : t < 32) (inside : j < 32) :
    ((0xFFFFFFFF : UInt32) <<< UInt32.ofNat t).toNat.testBit j = decide (t ≤ j) := by
  rw [UInt32.toNat_shiftLeft, UInt32.toNat_ofNat', Nat.mod_eq_of_lt (show t < 2 ^ 32 by omega), Nat.mod_eq_of_lt shift,
    Nat.testBit_mod_two_pow, Nat.shiftLeft_eq, Nat.testBit_mul_two_pow,
    show (0xFFFFFFFF : UInt32).toNat = 2 ^ 32 - 1 from rfl, Nat.testBit_two_pow_sub_one]
  by_cases le : t ≤ j
  · simp [le, inside]
    omega
  · simp [le]

theorem lengthMask_and_low24 : ∀ t < 32, ((0xFFFFFFFF : UInt32) <<< UInt32.ofNat t &&& 0xFFFFFF = 0 ↔ 24 ≤ t) := by
  decide

theorem lengthMask_and_low16 : ∀ t < 32, ((0xFFFFFFFF : UInt32) <<< UInt32.ofNat t &&& 0xFFFF = 0 ↔ 16 ≤ t) := by
  decide

variable {s : List UInt8} {plen : Nat}

theorem getD_mem_drop {k : Nat} (low : plen ≤ k) (high : k < s.length) : s.getD k 0 ∈ s.drop plen := by
  rw [List.getD_eq_getElem _ _ high]
  exact List.mem_iff_getElem.mpr ⟨k - plen, by rw [List.length_drop]; omega, by rw [List.getElem_drop]; congr 1; omega⟩

variable {mask : UInt32} (bits : ∀ j < 32, mask.toNat.testBit j = decide (32 - s.length + plen ≤ j))
include bits

theorem lane_asciiDigits {j : Nat} (inside : j < 32) :
    lane 8 (mm256_maskz_sub_epi8 mask (mm256_maskz_loadu_epi8 mask s ((s.length : Int) - 32))
      (mm256_set1_epi8 48)).toNat j =
      if 32 - s.length + plen ≤ j then ((s.getD (j + s.length - 32) 0).toNat + 208) % 2 ^ 8 else 0 := by
  rw [lane_mm256_maskz_sub_epi8 _ _ _ inside, lane_mm256_maskz_loadu_epi8 _ _ _ inside, lane_mm256_set1_epi8 _ inside,
    bits j inside]
  by_cases top : 32 - s.length + plen ≤ j
  · have index : ((s.length : Int) - 32 + (j : Int)).toNat = j + s.length - 32 := by omega
    simp [top, index]
  · simp [top]

theorem nondigits_eq_zero_iff (short : s.length ≤ 32) (le : plen ≤ s.length) :
    mm256_mask_cmpgt_epu8_mask mask (mm256_maskz_sub_epi8 mask (mm256_maskz_loadu_epi8 mask s ((s.length : Int) - 32))
      (mm256_set1_epi8 48)) (mm256_set1_epi8 9) = 0 ↔ ∀ d ∈ s.drop plen, IsDigitByte d := by
  have nine : (9 : UInt8).toNat = 9 := rfl
  rw [mm256_mask_cmpgt_epu8_mask_eq_zero]
  constructor
  · intro below d mem
    obtain ⟨i, inDrop, rfl⟩ := List.getElem_of_mem mem
    rw [List.length_drop] at inDrop
    have lane := below (i + (32 - s.length + plen)) (by omega) (by rw [bits _ (by omega)]; simp)
    rw [lane_asciiDigits bits (by omega), if_pos (by omega), lane_mm256_set1_epi8 _ (by omega), nine,
      List.getD_eq_getElem _ _ (by omega)] at lane
    have same : s[i + (32 - s.length + plen) + s.length - 32] = (s.drop plen)[i] := by
      rw [List.getElem_drop]
      congr 1
      omega
    rw [same] at lane
    have byte := UInt8.toNat_lt (s.drop plen)[i]
    unfold IsDigitByte
    omega
  · intro digits j inside set
    have top : 32 - s.length + plen ≤ j := by
      rw [bits j inside] at set
      simpa using set
    have digit := digits _ (getD_mem_drop (k := j + s.length - 32) (by omega) (by omega))
    unfold IsDigitByte at digit
    rw [lane_asciiDigits bits inside, if_pos top, lane_mm256_set1_epi8 _ inside, nine]
    omega

theorem lane_asciiDigits_padded (short : s.length ≤ 32) (le : plen ≤ s.length)
    (digits : ∀ d ∈ s.drop plen, IsDigitByte d) {j : Nat} (inside : j < 32) :
    lane 8 (mm256_maskz_sub_epi8 mask (mm256_maskz_loadu_epi8 mask s ((s.length : Int) - 32))
      (mm256_set1_epi8 48)).toNat j =
      readDigits 0 (digitBlock (List.replicate (32 - s.length + plen) 48 ++ s.drop plen) 1 j) := by
  rw [readDigits_digitBlock_one (by simp; omega), lane_asciiDigits bits inside]
  by_cases top : 32 - s.length + plen ≤ j
  · -- a byte of the string
    have digit := digits _ (getD_mem_drop (k := j + s.length - 32) (by omega) (by omega))
    unfold IsDigitByte at digit
    have same : (List.replicate (32 - s.length + plen) 48 ++ s.drop plen).getD j 48 = s.getD (j + s.length - 32) 0 := by
      rw [List.getD_append_right _ _ _ _ (by simp; omega), List.length_replicate, List.getD_eq_getElem _ _ (by simp; omega),
        List.getD_eq_getElem _ _ (by omega), List.getElem_drop]
      congr 1
      omega
    rw [if_pos top, same]
    omega
  · -- a lane below the mask
    rw [if_neg top, List.getD_append _ _ _ _ (by simp; omega), List.getD_replicate]
    · rfl
    · omega

end Load

section Value

variable {ds : List UInt8}

theorem readDigits_eq_blocks (length : ds.length = 32) :
    readDigits 0 ds = ((readDigits 0 (digitBlock ds 8 0) * 10 ^ 8 + readDigits 0 (digitBlock ds 8 1)) * 10 ^ 8 +
      readDigits 0 (digitBlock ds 8 2)) * 10 ^ 8 + readDigits 0 (digitBlock ds 8 3) := by
  have whole : digitBlock ds 32 0 = ds := by
    rw [digitBlock, Nat.mul_zero, List.drop_zero, List.take_of_length_le (by omega)]
  have top : readDigits 0 (digitBlock ds 32 0) =
      readDigits 0 (digitBlock ds 16 0) * 10 ^ 16 + readDigits 0 (digitBlock ds 16 1) :=
    readDigits_digitBlock_double (m := 16) (by omega)
  have first : readDigits 0 (digitBlock ds 16 0) =
      readDigits 0 (digitBlock ds 8 0) * 10 ^ 8 + readDigits 0 (digitBlock ds 8 1) :=
    readDigits_digitBlock_double (m := 8) (by omega)
  have second : readDigits 0 (digitBlock ds 16 1) =
      readDigits 0 (digitBlock ds 8 2) * 10 ^ 8 + readDigits 0 (digitBlock ds 8 3) :=
    readDigits_digitBlock_double (m := 8) (by omega)
  calc readDigits 0 ds = readDigits 0 (digitBlock ds 32 0) := by rw [whole]
    _ = _ := by rw [top, first, second]; ring

theorem readDigits_digitBlock_zeros {t m i : Nat} (p : List UInt8) (within : m * i + m ≤ t) :
    readDigits 0 (digitBlock (List.replicate t 48 ++ p) m i) = 0 := by
  have zeros : digitBlock (List.replicate t 48 ++ p) m i = List.replicate m 48 := by
    rw [digitBlock, List.drop_append_of_le_length (by simp; omega), List.drop_replicate,
      List.take_append_of_le_length (by simp; omega), List.take_replicate, Nat.min_eq_left (by omega)]
  rw [zeros, ← List.append_nil (List.replicate m 48), readDigits_zeros]
  rfl

theorem ofInt_mm_extract_epi32 {a : BitVec 128} {i : Nat} (inside : i < 4) (small : lane 32 a.toNat i < 2 ^ 31) :
    UInt64.ofInt (mm_extract_epi32 a i).toInt = UInt64.ofNat (lane 32 a.toNat i) := by
  rw [toInt_mm_extract_epi32 _ _ (by rwa [Nat.mod_eq_of_lt inside]), Nat.mod_eq_of_lt inside, UInt64.ofInt]
  congr 1
  omega

theorem overflow_iff {high middleLow : Nat} (below : middleLow < 10 ^ 16) (small : high < 2 ^ 64) :
    (UInt64.ofNat high > 1844 ∨ UInt64.ofNat middleLow + multiplier10e16 * UInt64.ofNat high < UInt64.ofNat middleLow) ↔
      high * 10 ^ 16 + middleLow > ullongMax := by
  have ten16 : multiplier10e16.toNat = 10 ^ 16 := rfl
  have limit : (1844 : UInt64).toNat = 1844 := rfl
  simp only [GT.gt, UInt64.lt_iff_toNat_lt, UInt64.toNat_add, UInt64.toNat_mul, UInt64.toNat_ofNat', ten16, limit]
  unfold ullongMax
  omega

theorem toInt64_neg_ofNat (v : Nat) : (-UInt64.ofNat v).toInt64 = Int64.ofInt (-(v : Int)) := by
  rw [UInt64.toInt64_neg, UInt64.toInt64_ofNat', Int64.ofInt_neg, Int64.ofInt_eq_ofNat]

end Value

section Agreement

def signedResult (negative : Bool) (v : Nat) : Option Int64 :=
  if v > ullongMax then none
  else if negative then (if v > llongMax + 1 then none else some (Int64.ofInt (-(v : Int))))
  else if v > llongMax then none else some (Int64.ofNat v)

theorem signedResult_of_le {v : Nat} (small : v ≤ llongMax) (negative : Bool) :
    signedResult negative v = some (if negative then -UInt64.ofNat v else UInt64.ofNat v).toInt64 := by
  unfold llongMax at small
  rw [signedResult, if_neg (by unfold ullongMax; omega)]
  cases negative
  · rw [if_neg Bool.false_ne_true, if_neg (by unfold llongMax; omega), if_neg Bool.false_ne_true,
      UInt64.toInt64_ofNat']
  · rw [if_pos rfl, if_neg (by unfold llongMax; omega), if_pos rfl, toInt64_neg_ofNat]

theorem signedResult_of_le_ullongMax {v : Nat} (fits : v ≤ ullongMax) (negative : Bool) :
    signedResult negative v =
      if negative then (if v > llongMax + 1 then none else some (-UInt64.ofNat v).toInt64)
      else if v > llongMax then none else some (UInt64.ofNat v).toInt64 := by
  rw [signedResult, if_neg (by omega), toInt64_neg_ofNat, UInt64.toInt64_ofNat']

variable {s : List UInt8} {plen : Nat}

theorem lane_multipliedBy10000_digits (le : plen < s.length) (short : s.length ≤ 20)
    (digits : ∀ d ∈ s.drop plen, IsDigitByte d) {i : Nat} (inside : i < 4) :
    lane 32 (mm_madd_epi16 (mm_maddubs_epi16 (mm256_cvtepi16_epi8 (mm256_maddubs_epi16
      (mm256_maskz_sub_epi8 ((0xFFFFFFFF : UInt32) <<< UInt32.ofNat (32 - s.length + plen))
        (mm256_maskz_loadu_epi8 ((0xFFFFFFFF : UInt32) <<< UInt32.ofNat (32 - s.length + plen)) s ((s.length : Int) - 32))
        (mm256_set1_epi8 48)) mul_1_10)) mul_1_100) mul_1_10000).toNat i =
      readDigits 0 (digitBlock (List.replicate (32 - s.length + plen) 48 ++ s.drop plen) 8 i) := by
  have bits := fun j (inside : j < 32) => testBit_lengthMask (show 32 - s.length + plen < 32 by omega) inside
  have length : (List.replicate (32 - s.length + plen) 48 ++ s.drop plen).length = 32 := by
    simp only [List.length_append, List.length_replicate, List.length_drop]
    omega
  exact lane_reduce length (isDigitByte_zeros_append digits) (fun j inside => lane_asciiDigits_padded bits (by omega) le.le digits inside) inside

theorem readDigits_eq_lanes {t : Nat} {p : List UInt8} (eight : 8 ≤ t) (length : t + p.length = 32) :
    readDigits 0 p = readDigits 0 (digitBlock (List.replicate t 48 ++ p) 8 1) * 10 ^ 16 +
      (readDigits 0 (digitBlock (List.replicate t 48 ++ p) 8 2) * 10 ^ 8 +
        readDigits 0 (digitBlock (List.replicate t 48 ++ p) 8 3)) := by
  rw [← readDigits_zeros t p, readDigits_eq_blocks (by simp; omega),
    readDigits_digitBlock_zeros p (show 8 * 0 + 8 ≤ t by omega)]
  ring

theorem ofNat_add_mul_ofNat (low high : Nat) (k : UInt64) :
    UInt64.ofNat low + k * UInt64.ofNat high = UInt64.ofNat (high * k.toNat + low) := by
  rw [UInt64.ofNat_add, UInt64.ofNat_mul, UInt64.ofNat_toNat, UInt64.add_comm, UInt64.mul_comm]

theorem string2llAVX512Digits_of_digits (le : plen < s.length) (short : s.length ≤ 20) (negative : Bool)
    (digits : ∀ d ∈ s.drop plen, IsDigitByte d) :
    string2llAVX512Digits s plen negative = signedResult negative (readDigits 0 (s.drop plen)) := by
  -- the digits fill the lanes from `32 - s.length + plen` up, at least twelve lanes of zeros below them
  have shift : 32 - s.length + plen < 32 := by omega
  have bits := fun j (inside : j < 32) => testBit_lengthMask shift inside
  have reduce := fun i (inside : i < 4) => lane_multipliedBy10000_digits le short digits inside
  have value := readDigits_eq_lanes (t := 32 - s.length + plen) (p := s.drop plen) (by omega) (by simp; omega)
  have each := readDigits_digitBlock_lt (isDigitByte_zeros_append (t := 32 - s.length + plen) digits) 8
  have highZero : 16 ≤ 32 - s.length + plen →
      readDigits 0 (digitBlock (List.replicate (32 - s.length + plen) 48 ++ s.drop plen) 8 1) = 0 :=
    fun sixteen => readDigits_digitBlock_zeros _ (by omega)
  have middleZero : 24 ≤ 32 - s.length + plen →
      readDigits 0 (digitBlock (List.replicate (32 - s.length + plen) 48 ++ s.drop plen) 8 2) = 0 :=
    fun eight => readDigits_digitBlock_zeros _ (by omega)
  have g1 := each 1
  have g2 := each 2
  have g3 := each 3
  unfold string2llAVX512Digits
  dsimp only
  rw [if_neg (not_not.mpr ((nondigits_eq_zero_iff bits (by omega) le.le).mpr digits)),
    ofInt_mm_extract_epi32 (by decide) (by rw [reduce 3 (by decide)]; omega), reduce 3 (by decide),
    ofInt_mm_extract_epi32 (by decide) (by rw [reduce 2 (by decide)]; omega), reduce 2 (by decide),
    ofInt_mm_extract_epi32 (by decide) (by rw [reduce 1 (by decide)]; omega), reduce 1 (by decide), value]
  generalize readDigits 0 (digitBlock (List.replicate (32 - s.length + plen) 48 ++ s.drop plen) 8 1) = high
    at g1 highZero ⊢
  generalize readDigits 0 (digitBlock (List.replicate (32 - s.length + plen) 48 ++ s.drop plen) 8 2) = middle
    at g2 middleZero ⊢
  generalize readDigits 0 (digitBlock (List.replicate (32 - s.length + plen) 48 ++ s.drop plen) 8 3) = low at g3 ⊢
  by_cases eight : 24 ≤ 32 - s.length + plen
  · -- at most eight digits: the value is the low lane
    rw [if_pos ((lengthMask_and_low24 _ shift).mpr eight), highZero (by omega), middleZero eight,
      signedResult_of_le (by unfold llongMax; omega)]
    simp
  rw [if_neg (mt (lengthMask_and_low24 _ shift).mp eight), ofNat_add_mul_ofNat,
    show multiplier10e8.toNat = 10 ^ 8 from rfl]
  by_cases sixteen : 16 ≤ 32 - s.length + plen
  · -- at most sixteen digits: the value is the low two lanes
    rw [if_pos ((lengthMask_and_low16 _ shift).mpr sixteen), highZero sixteen, signedResult_of_le (by unfold llongMax; omega)]
    simp
  -- seventeen digits or more: the top lane joins them under the overflow check
  rw [if_neg (mt (lengthMask_and_low16 _ shift).mp sixteen)]
  by_cases beyond : high * 10 ^ 16 + (middle * 10 ^ 8 + low) > ullongMax
  · rw [if_pos ((overflow_iff (by omega) (by omega)).mpr beyond), signedResult, if_pos beyond]
  have checked := mt (overflow_iff (show middle * 10 ^ 8 + low < 10 ^ 16 by omega) (show high < 2 ^ 64 by omega)).mp beyond
  have fits : high * 10 ^ 16 + (middle * 10 ^ 8 + low) < 2 ^ 64 := by
    unfold ullongMax at beyond
    omega
  rw [if_neg checked, ofNat_add_mul_ofNat,
    show multiplier10e16.toNat = 10 ^ 16 from rfl, UInt64.toNat_ofNat', Nat.mod_eq_of_lt fits,
    signedResult_of_le_ullongMax (not_lt.mp beyond)]

theorem string2llAVX512Digits_of_nondigit (le : plen ≤ s.length) (short : s.length ≤ 32) (negative : Bool)
    (nondigit : ¬∀ d ∈ s.drop plen, IsDigitByte d) : string2llAVX512Digits s plen negative = none := by
  have inside : plen < s.length := by
    by_contra past
    exact nondigit fun d mem => by simp [List.drop_eq_nil_of_le (by omega : s.length ≤ plen)] at mem
  have bits := fun j (inside : j < 32) => testBit_lengthMask (show 32 - s.length + plen < 32 by omega) inside
  unfold string2llAVX512Digits
  dsimp only
  rw [if_pos fun zero => nondigit ((nondigits_eq_zero_iff bits short le).mp zero)]

theorem string2llAVX512_eq_string2llScalar (s : List UInt8) : string2llAVX512 s = string2llScalar s := by
  unfold string2llAVX512 string2llScalar
  by_cases sized : s.length = 0 ∨ s.length ≥ longStrSize
  · rw [if_pos sized, if_pos sized]
  rw [if_neg sized, if_neg sized]
  by_cases single : s.length = 1 ∧ IsDigitByte (s.headD 0)
  · rw [if_pos single, if_pos single]
  rw [if_neg single, if_neg single]
  unfold longStrSize at sized
  dsimp only
  -- the bytes after the sign: `p`, from `plen` on
  obtain ⟨plen, p, hplen, hp, drop⟩ : ∃ plen p, (if (s.headD 0 == 45) = true then 1 else 0) = plen ∧
      (if s.headD 0 = 45 then s.tail else s) = p ∧ s.drop plen = p := by
    refine ⟨_, _, rfl, rfl, ?_⟩
    by_cases neg : s.headD 0 = 45
    · rw [if_pos (beq_iff_eq.mpr neg), if_pos neg, List.drop_one]
    · rw [if_neg fun minus => neg (beq_iff_eq.mp minus), if_neg neg, List.drop_zero]
  have atMostOne : plen ≤ 1 := by
    rw [← hplen]
    split <;> omega
  have remaining : s.length - plen = p.length := by
    rw [← drop, List.length_drop]
  rw [hplen, hp]
  cases p with
  | nil =>
    -- only the sign
    rw [List.length_nil] at remaining
    have sign : (s.headD 0 == 45) = true := by
      by_contra plus
      rw [if_neg plus] at hplen
      omega
    rw [if_pos ⟨sign, by omega⟩]
    simp
  | cons c rest =>
    rw [List.length_cons] at remaining
    have inside : plen < s.length := by omega
    have first : s.getD plen 0 = c := by
      have head := congrArg List.head? drop
      rw [List.head?_drop, List.head?_cons] at head
      rw [List.getD_eq_getElem?_getD, head]
      rfl
    rw [if_neg (fun ⟨_, whole⟩ => by omega), first]
    simp only [reduceCtorEq, and_false, if_false]
    by_cases zero : c = 48
    · rw [if_pos zero, if_neg (by rw [zero]; decide)]
    rw [if_neg zero]
    have notZero : c.toNat ≠ 48 := fun byte => zero (UInt8.toNat_inj.mp byte)
    by_cases lead : 49 ≤ c.toNat ∧ c.toNat ≤ 57
    · rw [if_pos lead]
      by_cases digits : ∀ d ∈ rest, IsDigitByte d
      · -- all digits: both parsers come to the sign checks, or fail past ULLONG_MAX
        have all : ∀ d ∈ s.drop plen, IsDigitByte d := by
          rw [drop]
          intro d mem
          rcases List.mem_cons.mp mem with rfl | later
          · exact ⟨by omega, lead.2⟩
          · exact digits d later
        have reads : readDigits 0 (c :: rest) = readDigits (c.toNat - 48) rest := by
          simp [readDigits]
        rw [string2llAVX512Digits_of_digits inside (by omega) _ all, drop, reads,
          string2llLoop_digits digits (by unfold ullongMax; omega), signedResult]
        by_cases fits : readDigits (c.toNat - 48) rest ≤ ullongMax
        · rw [if_pos fits, if_neg (not_lt.mpr fits)]
          simp only [beq_iff_eq]
        · rw [if_neg fits, if_pos (not_le.mp fits)]
      · -- a later byte is no digit
        rw [string2llAVX512Digits_of_nondigit inside.le (by omega) _
          (by rw [drop]; exact fun all => digits fun d mem => all d (List.mem_cons_of_mem c mem))]
        cases loop : string2llLoop (c.toNat - 48) rest with
        | none => rfl
        | some r =>
          obtain ⟨v, left⟩ := r
          cases left with
          | nil => exact absurd (string2llLoop_spec loop).1 digits
          | cons => rfl
    · -- the first byte is no digit
      rw [if_neg lead, string2llAVX512Digits_of_nondigit inside.le (by omega) _
        (by rw [drop]; intro all; have := all c List.mem_cons_self; unfold IsDigitByte at this; omega)]

theorem string2llOn_eq (avx512 : Bool) (s : List UInt8) : string2llOn avx512 s = string2ll s := by
  cases avx512
  · rfl
  · exact string2llAVX512_eq_string2llScalar s

theorem string2ll_implementations_agree (s : List UInt8) :
    string2llAVX512 s = string2llScalar s ∧ ∀ avx512, string2llOn avx512 s = string2ll s :=
  ⟨string2llAVX512_eq_string2llScalar s, fun avx512 => string2llOn_eq avx512 s⟩

end Agreement

end Kv.Util
