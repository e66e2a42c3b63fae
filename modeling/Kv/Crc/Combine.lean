import Mathlib.Tactic.IntervalCases
import Kv.Foundations.ReflectedCrc

/-!
crccombine.c: the CRC of two blocks from the CRCs of each. Appending `len2`
zero bytes to the first block is a map linear over GF(2), and its matrix is a
product of the cached powers `2 ^ k` of the zero-byte operator for the set bits
of `len2`. The cache is built once, by squaring the matrix of one zero bit, and
lives in a static array that starts zeroed; the first combine fills it. Both
products CRC_MULTIPLY may name compute the GF(2) matrix-vector product
(`crcMultiply_eq_gf2Times`), the filled cache holds the powers
(`initCombineCache_ready`), and so crc64_combine moves the first CRC past
`len2` zero bytes and xors in the second (`crc64Combine_spec`).
-/

namespace Kv.Crc

open Foundations

/-- The switch of gf2_matrix_times_switch: the xor of the columns, among the four at `mat`, that the nibble
selects. -/
def gf2SwitchCase (nibble : UInt64) (mat : Nat → UInt64) : UInt64 :=
  match nibble.toNat with
  | 15 => mat 0 ^^^ mat 1 ^^^ mat 2 ^^^ mat 3
  | 14 => mat 1 ^^^ mat 2 ^^^ mat 3
  | 13 => mat 0 ^^^ mat 2 ^^^ mat 3
  | 12 => mat 2 ^^^ mat 3
  | 11 => mat 0 ^^^ mat 1 ^^^ mat 3
  | 10 => mat 1 ^^^ mat 3
  | 9 => mat 0 ^^^ mat 3
  | 8 => mat 3
  | 7 => mat 0 ^^^ mat 1 ^^^ mat 2
  | 6 => mat 1 ^^^ mat 2
  | 5 => mat 0 ^^^ mat 2
  | 4 => mat 2
  | 3 => mat 0 ^^^ mat 1
  | 2 => mat 1
  | 1 => mat 0
  | _ => 0

/-- The loop of gf2_matrix_times_switch, `while (vec)`: a nibble of the word and four columns at a time. -/
def gf2MatrixTimesSwitchLoop : Nat → (Nat → UInt64) → UInt64 → UInt64 → UInt64
  | 0, _, _, sum => sum
  | fuel + 1, mat, vec, sum =>
    if vec = 0 then sum
    else gf2MatrixTimesSwitchLoop fuel (fun i => mat (i + 4)) (vec >>> 4) (sum ^^^ gf2SwitchCase (vec &&& 15) mat)

def gf2MatrixTimesSwitch (mat : Nat → UInt64) (vec : UInt64) : UInt64 :=
  gf2MatrixTimesSwitchLoop 16 mat vec 0

/-- masks2 of gf2_matrix_times_vec2: the lanes kept for each value of two bits of the word. -/
def masks2 : List (UInt64 × UInt64) :=
  [(0, 0), (0xffffffffffffffff, 0), (0, 0xffffffffffffffff), (0xffffffffffffffff, 0xffffffffffffffff)]

/-- Half of DO_CHUNK4, `sum ^= (*mv2++) & masks2[vec & 3]`: the two lanes of `sum` take the next two columns. -/
def gf2Vec2Step (mat : Nat → UInt64) (vec : UInt64) (sum : UInt64 × UInt64) : UInt64 × UInt64 :=
  let mask := masks2.getD (vec &&& 3).toNat (0, 0)
  (sum.1 ^^^ (mat 0 &&& mask.1), sum.2 ^^^ (mat 1 &&& mask.2))

/-- The unrolled chunks of gf2_matrix_times_vec2, two bits of the word and two columns a step. -/
def gf2MatrixTimesVec2Loop : Nat → (Nat → UInt64) → UInt64 → UInt64 × UInt64 → UInt64 × UInt64
  | 0, _, _, sum => sum
  | n + 1, mat, vec, sum => gf2MatrixTimesVec2Loop n (fun i => mat (i + 2)) (vec >>> 2) (gf2Vec2Step mat vec sum)

/-- gf2_matrix_times_vec2: DO_CHUNK16 four times, 32 steps, then the two lanes xored. -/
def gf2MatrixTimesVec2 (mat : Nat → UInt64) (vec : UInt64) : UInt64 :=
  let sum := gf2MatrixTimesVec2Loop 32 mat vec (0, 0)
  sum.1 ^^^ sum.2

/-- The product CRC_MULTIPLY names: gf2_matrix_times_vec2 where the build defines __i386__ or __X86_64__,
gf2_matrix_times_switch elsewhere. -/
inductive CrcMultiply where
  | switch
  | vec2
  deriving DecidableEq, Repr

def crcMultiply : CrcMultiply → (Nat → UInt64) → UInt64 → UInt64
  | .switch => gf2MatrixTimesSwitch
  | .vec2 => gf2MatrixTimesVec2

/-- gf2_matrix_square: `square[n] = CRC_MULTIPLY(mat, mat[n])` for the first `dim` entries. -/
def gf2MatrixSquare (mul : CrcMultiply) (square mat : Nat → UInt64) (dim : Nat) : Nat → UInt64 :=
  fun n => if n < dim then crcMultiply mul mat (mat n) else square n

/-- combine_cache, 64 rows of 64 words; row `k` starts at `combine_cache[k]`. -/
abbrev CombineCache := Nat → Nat → UInt64

/-- The static combine_cache before anything writes it. -/
def combineCacheZero : CombineCache := fun _ _ => 0

/-- The row loop of init_combine_cache: `combine_cache[1][n] = row; row <<= 1` for `n` from 1 below `dim`. -/
def initCombineRow (dim : Nat) : Nat → Nat → UInt64 → (Nat → UInt64) → Nat → UInt64
  | 0, _, _, row1 => row1
  | fuel + 1, n, row, row1 =>
    if n < dim then initCombineRow dim fuel (n + 1) (row <<< 1) (Function.update row1 n row) else row1

/-- The do-while of init_combine_cache: row `cache_num` becomes the square of row `cache_num + prev`, `prev` being
1 on the first pass and -1 after it. -/
def initCombineSquares (mul : CrcMultiply) (dim : Nat) : Nat → Int → Nat → CombineCache → CombineCache
  | 0, _, _, cache => cache
  | fuel + 1, prev, cacheNum, cache =>
    let cache := Function.update cache cacheNum
      (gf2MatrixSquare mul (cache cacheNum) (cache ((cacheNum : Int) + prev).toNat) dim)
    if cacheNum + 1 < 64 then initCombineSquares mul dim fuel (-1) (cacheNum + 1) cache else cache

/-- init_combine_cache: row 1 is the operator of one zero bit, squared into row 0 and back into row 1, and the
do-while squares on from there. -/
def initCombineCache (mul : CrcMultiply) (poly : UInt64) (dim : Nat) (cache : CombineCache) : CombineCache :=
  let cache := Function.update cache 1 (initCombineRow dim dim 1 1 (Function.update (cache 1) 0 poly))
  let cache := Function.update cache 0 (gf2MatrixSquare mul (cache 0) (cache 1) dim)
  let cache := Function.update cache 1 (gf2MatrixSquare mul (cache 1) (cache 0) dim)
  initCombineSquares mul dim 64 1 0 cache

/-- The do-while of crc64_combine: the cached power of row `cache_num` applied to crc1 for each set bit of len2. -/
def crc64CombineLoop (mul : CrcMultiply) (cache : CombineCache) : Nat → UInt64 → UInt64 → Nat → UInt64
  | 0, crc1, _, _ => crc1
  | fuel + 1, crc1, len2, cacheNum =>
    let crc1 := if len2 &&& 1 ≠ 0 then crcMultiply mul (cache cacheNum) crc1 else crc1
    let len2 := len2 >>> 1
    let cacheNum := (cacheNum + 1) &&& 63
    if len2 ≠ 0 then crc64CombineLoop mul cache fuel crc1 len2 cacheNum else crc1

/-- crc64_combine, with the static cache it may fill. -/
def crc64Combine (mul : CrcMultiply) (cache : CombineCache) (crc1 crc2 len2 poly : UInt64) (dim : Nat) :
    UInt64 × CombineCache :=
  if len2 = 0 then (crc1, cache)
  else
    let cache := if cache 0 0 = 0 then initCombineCache mul poly dim cache else cache
    (crc64CombineLoop mul cache 64 crc1 len2 0 ^^^ crc2, cache)

/-! The two products. -/

/-- A case of the switch is the product with the low four bits of the word. -/
theorem gf2SwitchCase_eq (mat : Nat → UInt64) (vec : UInt64) : gf2SwitchCase (vec &&& 15) mat = gf2Times 4 mat vec := by
  have low : gf2Times 4 mat vec = gf2Times 4 mat (vec &&& 15) := by
    apply gf2Times_congr
    intro i below
    have nibble : ∀ t : Fin 4, (15 : UInt64).toBitVec.getLsbD t = true := by decide
    rw [UInt64.toBitVec_and, BitVec.getLsbD_and, nibble ⟨i, below⟩, Bool.and_true]
  have small : (vec &&& 15).toNat < 16 := by
    rw [UInt64.toNat_and]
    exact Nat.lt_succ_of_le Nat.and_le_right
  obtain ⟨k, bound, eq⟩ : ∃ k < 16, vec &&& 15 = UInt64.ofNat k :=
    ⟨(vec &&& 15).toNat, small, UInt64.ofNat_toNat.symm⟩
  rw [low, eq]
  interval_cases k <;> simp +decide [gf2SwitchCase, gf2Times, UInt64.xor_assoc]

theorem gf2MatrixTimesSwitchLoop_eq (fuel : Nat) (mat : Nat → UInt64) (vec sum : UInt64)
    (fits : (fun w : UInt64 => w >>> 1)^[4 * fuel] vec = 0) :
    gf2MatrixTimesSwitchLoop fuel mat vec sum = sum ^^^ gf2Times (4 * fuel) mat vec := by
  induction fuel generalizing mat vec sum with
  | zero => exact (UInt64.xor_zero).symm
  | succ fuel ih =>
    rw [gf2MatrixTimesSwitchLoop]
    by_cases zero : vec = 0
    · rw [if_pos zero, zero, gf2Times_zero, UInt64.xor_zero]
    · -- a nibble and four columns, then the rest of the word against the columns from the fourth on
      have four : (fun w : UInt64 => w >>> 1)^[4] vec = vec >>> 4 := iterate_shiftRight_eq 4 (by decide) vec
      rw [show 4 * (fuel + 1) = 4 * fuel + 4 by omega, Function.iterate_add_apply, four] at fits
      rw [if_neg zero, ih _ _ _ fits, show 4 * (fuel + 1) = 4 + 4 * fuel by omega, gf2Times_add, four,
        gf2SwitchCase_eq, UInt64.xor_assoc]

theorem gf2MatrixTimesSwitch_eq (mat : Nat → UInt64) (vec : UInt64) :
    gf2MatrixTimesSwitch mat vec = gf2Times 64 mat vec := by
  rw [gf2MatrixTimesSwitch, gf2MatrixTimesSwitchLoop_eq 16 mat vec 0 (iterate_shiftRight_sixtyFour vec),
    UInt64.zero_xor]

/-- A step of the vector product adds to its lanes the product with the low two bits of the word. -/
theorem gf2Vec2Step_lanes (mat : Nat → UInt64) (vec : UInt64) (sum : UInt64 × UInt64) :
    (gf2Vec2Step mat vec sum).1 ^^^ (gf2Vec2Step mat vec sum).2 = (sum.1 ^^^ sum.2) ^^^ gf2Times 2 mat vec := by
  have low : gf2Times 2 mat vec = gf2Times 2 mat (vec &&& 3) := by
    apply gf2Times_congr
    intro i below
    have pair : ∀ t : Fin 2, (3 : UInt64).toBitVec.getLsbD t = true := by decide
    rw [UInt64.toBitVec_and, BitVec.getLsbD_and, pair ⟨i, below⟩, Bool.and_true]
  have small : (vec &&& 3).toNat < 4 := by
    rw [UInt64.toNat_and]
    exact Nat.lt_succ_of_le Nat.and_le_right
  obtain ⟨k, bound, eq⟩ : ∃ k < 4, vec &&& 3 = UInt64.ofNat k :=
    ⟨(vec &&& 3).toNat, small, UInt64.ofNat_toNat.symm⟩
  rw [low, gf2Vec2Step, eq, uint64_xor_xor_xor_comm]
  interval_cases k <;> simp +decide [masks2, gf2Times, uint64_and_allOnes, UInt64.xor_assoc]

theorem gf2MatrixTimesVec2Loop_lanes (n : Nat) (mat : Nat → UInt64) (vec : UInt64) (sum : UInt64 × UInt64) :
    (gf2MatrixTimesVec2Loop n mat vec sum).1 ^^^ (gf2MatrixTimesVec2Loop n mat vec sum).2 =
      (sum.1 ^^^ sum.2) ^^^ gf2Times (2 * n) mat vec := by
  induction n generalizing mat vec sum with
  | zero => exact UInt64.xor_zero.symm
  | succ n ih =>
    have two : (fun w : UInt64 => w >>> 1)^[2] vec = vec >>> 2 := iterate_shiftRight_eq 2 (by decide) vec
    rw [gf2MatrixTimesVec2Loop, ih, gf2Vec2Step_lanes, show 2 * (n + 1) = 2 + 2 * n by omega, gf2Times_add, two,
      UInt64.xor_assoc]

theorem gf2MatrixTimesVec2_eq (mat : Nat → UInt64) (vec : UInt64) :
    gf2MatrixTimesVec2 mat vec = gf2Times 64 mat vec := by
  rw [gf2MatrixTimesVec2, gf2MatrixTimesVec2Loop_lanes]
  exact UInt64.zero_xor

/-- Either product CRC_MULTIPLY names is the GF(2) matrix-vector product. -/
theorem crcMultiply_eq_gf2Times (mul : CrcMultiply) (mat : Nat → UInt64) (vec : UInt64) :
    crcMultiply mul mat vec = gf2Times 64 mat vec := by
  cases mul with
  | switch => exact gf2MatrixTimesSwitch_eq mat vec
  | vec2 => exact gf2MatrixTimesVec2_eq mat vec

/-! The cache. -/

/-- Row `k` of the cache holds the matrix of `2 ^ k` zero bytes. -/
def CacheReady (poly : UInt64) (cache : CombineCache) : Prop :=
  ∀ k < 64, Represents (cache k) ((zeroByte poly)^[2 ^ k])

section Cache

variable (mul : CrcMultiply) (poly : UInt64)

theorem gf2MatrixSquare_represents (square : Nat → UInt64) {mat : Nat → UInt64} {f : UInt64 → UInt64}
    (rep : Represents mat f) (lin : XorLinear f) : Represents (gf2MatrixSquare mul square mat 64) (f ∘ f) :=
  rep.square lin fun i below => by rw [gf2MatrixSquare, if_pos below, crcMultiply_eq_gf2Times]

/-- The row loop writes the unit words one place down from its entries, from entry `n` on. -/
theorem initCombineRow_apply (fuel n : Nat) (row1 : Nat → UInt64) (start : 1 ≤ n) (enough : 64 ≤ n + fuel)
    (m : Nat) :
    initCombineRow 64 fuel n (unitWord (n - 1)) row1 m = if n ≤ m ∧ m < 64 then unitWord (m - 1) else row1 m := by
  induction fuel generalizing n row1 with
  | zero => simp only [initCombineRow]; rw [if_neg (by omega)]
  | succ fuel ih =>
    rw [initCombineRow]
    by_cases inside : n < 64
    · have next : unitWord (n - 1) <<< 1 = unitWord (n + 1 - 1) := by
        rw [← unitWord_succ, show n - 1 + 1 = n + 1 - 1 by omega]
      rw [if_pos inside, next, ih (n + 1) _ (by omega) (by omega)]
      by_cases at_n : m = n
      · rw [at_n, if_neg (by omega), Function.update_self, if_pos ⟨Nat.le_refl n, inside⟩]
      · rw [Function.update_of_ne at_n]
        exact if_congr (by omega) rfl rfl
    · rw [if_neg inside, if_neg (by omega)]

/-- Row 1 after the row loop is the matrix of one zero bit. -/
theorem initCombineRow_represents (row1 : Nat → UInt64) :
    Represents (initCombineRow 64 64 1 1 (Function.update row1 0 poly)) (crcShift poly) := by
  intro i below
  rw [show (1 : UInt64) = unitWord (1 - 1) from rfl, initCombineRow_apply 64 1 _ (Nat.le_refl 1) (by omega)]
  rcases i with _ | j
  · -- column 0 is the polynomial, which the lowest bit brings in
    rw [if_neg (by omega), Function.update_self]
    show poly = ((1 : UInt64) >>> 1) ^^^ (if (1 : UInt64) &&& 1 = 0 then 0 else poly)
    rw [if_neg (by decide), show (1 : UInt64) >>> 1 = 0 by decide, UInt64.zero_xor]
  · -- column `j + 1` is the unit word one place down
    rw [if_pos ⟨by omega, below⟩, Nat.add_sub_cancel, crcShift_of_even poly (by rw [unitWord_getLsbD below]; simp)]
    apply uint64_eq_of_getLsbD
    intro t small
    rw [uint64_getLsbD_shiftRight _ 1 1 rfl (by decide), unitWord_getLsbD (by omega), unitWord_getLsbD below]
    simp only [decide_eq_decide]
    omega

theorem zeroByte_iterate_double (k : Nat) :
    (zeroByte poly)^[2 ^ k] ∘ (zeroByte poly)^[2 ^ k] = (zeroByte poly)^[2 ^ (k + 1)] := by
  rw [← Function.iterate_add, Nat.pow_succ, Nat.mul_two]

/-- From row `cacheNum` on, the do-while squares each row from the one before it. -/
theorem initCombineSquares_ready (fuel cacheNum : Nat) (cache : CombineCache) (start : 1 ≤ cacheNum)
    (enough : 64 ≤ cacheNum + fuel) (done : ∀ k < cacheNum, Represents (cache k) ((zeroByte poly)^[2 ^ k])) :
    CacheReady poly (initCombineSquares mul 64 fuel (-1) cacheNum cache) := by
  induction fuel generalizing cacheNum cache with
  | zero =>
    intro k below
    exact done k (by omega)
  | succ fuel ih =>
    -- the new row squares the one before it, the last of the finished rows
    have row : Represents (gf2MatrixSquare mul (cache cacheNum) (cache (((cacheNum : Int) + -1).toNat)) 64)
        ((zeroByte poly)^[2 ^ cacheNum]) := by
      have before : (((cacheNum : Int) + -1).toNat) = (cacheNum - 1) := by omega
      rw [before]
      have squared := gf2MatrixSquare_represents mul (cache cacheNum) (done (cacheNum - 1) (by omega))
        ((xorLinear_zeroByte poly).iterate _)
      rwa [zeroByte_iterate_double, Nat.sub_add_cancel start] at squared
    have done' : ∀ k < cacheNum + 1, Represents (Function.update cache cacheNum
        (gf2MatrixSquare mul (cache cacheNum) (cache (((cacheNum : Int) + -1).toNat)) 64) k)
        ((zeroByte poly)^[2 ^ k]) := by
      intro k below
      by_cases at_new : k = cacheNum
      · subst at_new
        rw [Function.update_self]
        exact row
      · rw [Function.update_of_ne at_new]
        exact done k (by omega)
    rw [initCombineSquares]
    by_cases more : cacheNum + 1 < 64
    · rw [if_pos more]
      exact ih (cacheNum + 1) _ (by omega) (by omega) done'
    · rw [if_neg more]
      intro k below
      exact done' k (by omega)

/-- init_combine_cache leaves every row holding its power of the zero-byte operator, whatever the cache held. -/
theorem initCombineCache_ready (cache : CombineCache) : CacheReady poly (initCombineCache mul poly 64 cache) := by
  -- row 1 is one zero bit, squared into row 0 (two bits) and back into row 1 (four bits)
  let row1 := initCombineRow 64 64 1 1 (Function.update (cache 1) 0 poly)
  let c1 := Function.update cache 1 row1
  let c2 := Function.update c1 0 (gf2MatrixSquare mul (c1 0) (c1 1) 64)
  let c3 := Function.update c2 1 (gf2MatrixSquare mul (c2 1) (c2 0) 64)
  have bit : Represents (c1 1) (crcShift poly)^[1] := by
    show Represents (Function.update cache 1 row1 1) _
    rw [Function.update_self]
    exact initCombineRow_represents poly (cache 1)
  have two : Represents (c2 0) (crcShift poly)^[2] := by
    show Represents (Function.update c1 0 (gf2MatrixSquare mul (c1 0) (c1 1) 64) 0) _
    rw [Function.update_self]
    exact gf2MatrixSquare_represents mul (c1 0) bit ((xorLinear_crcShift poly).iterate 1)
  have four : Represents (c3 1) (crcShift poly)^[4] := by
    have oneAgain : Represents (c2 1) (crcShift poly)^[1] := by
      show Represents (Function.update c1 0 (gf2MatrixSquare mul (c1 0) (c1 1) 64) 1) _
      rw [Function.update_of_ne (show (1 : Nat) ≠ 0 by decide)]
      exact bit
    show Represents (Function.update c2 1 (gf2MatrixSquare mul (c2 1) (c2 0) 64) 1) _
    rw [Function.update_self]
    have squared := gf2MatrixSquare_represents mul (c2 1) two ((xorLinear_crcShift poly).iterate 2)
    rwa [← Function.iterate_add] at squared
  -- the first pass of the do-while squares row 1 into row 0: one zero byte
  have eight : Represents (gf2MatrixSquare mul (c3 0) (c3 1) 64) ((zeroByte poly)^[2 ^ 0]) := by
    have squared := gf2MatrixSquare_represents mul (c3 0) four ((xorLinear_crcShift poly).iterate 4)
    rwa [← Function.iterate_add] at squared
  have first : initCombineCache mul poly 64 cache =
      initCombineSquares mul 64 63 (-1) 1 (Function.update c3 0 (gf2MatrixSquare mul (c3 0) (c3 1) 64)) := by
    rw [initCombineCache, initCombineSquares, if_pos (by decide)]
    rfl
  rw [first]
  refine initCombineSquares_ready mul poly 63 1 _ (Nat.le_refl 1) (by omega) ?_
  intro k below
  rw [show k = 0 by omega, Function.update_self]
  exact eight

/-- The lowest bit of len2 applies the power in row `cacheNum`, or nothing. -/
theorem crcMultiply_lowBit {cache : CombineCache} (ready : CacheReady poly cache) {cacheNum : Nat}
    (below : cacheNum < 64) (crc1 len2 : UInt64) :
    (if len2 &&& 1 ≠ 0 then crcMultiply mul (cache cacheNum) crc1 else crc1) =
      (zeroByte poly)^[2 ^ cacheNum * (len2.toNat % 2)] crc1 := by
  have bit := uint64_and_one_toNat len2
  rcases Nat.mod_two_eq_zero_or_one len2.toNat with even | odd
  · have zero : len2 &&& 1 = 0 := UInt64.toNat_inj.mp (by rw [bit, even]; rfl)
    rw [if_neg (not_not.mpr zero), even, Nat.mul_zero, Function.iterate_zero, id_eq]
  · have one : len2 &&& 1 ≠ 0 := fun zero => by
      have := congrArg UInt64.toNat zero
      rw [bit, odd] at this
      exact absurd this (by decide)
    rw [if_pos one, odd, Nat.mul_one, crcMultiply_eq_gf2Times, (ready cacheNum below).gf2Times_eq
      ((xorLinear_zeroByte poly).iterate _)]

/-- The powers the do-while applies add up: the low bit at row `c`, the rest from row `c + 1`. -/
theorem two_pow_mul_halves (c n : Nat) : 2 ^ (c + 1) * (n / 2) + 2 ^ c * (n % 2) = 2 ^ c * n :=
  calc 2 ^ (c + 1) * (n / 2) + 2 ^ c * (n % 2)
      = 2 ^ c * (2 * (n / 2) + n % 2) := by rw [Nat.pow_succ, Nat.mul_assoc, Nat.mul_add]
    _ = 2 ^ c * n := by rw [Nat.div_add_mod]

/-- The do-while of crc64_combine, from row `cacheNum` on: `len2` moves crc1 past `2 ^ cacheNum * len2` zero
bytes. -/
theorem crc64CombineLoop_eq {cache : CombineCache} (ready : CacheReady poly cache) (fuel : Nat) (crc1 len2 : UInt64)
    (cacheNum : Nat) (fits : len2.toNat < 2 ^ fuel) (room : cacheNum + fuel ≤ 64) (started : 0 < fuel) :
    crc64CombineLoop mul cache fuel crc1 len2 cacheNum = (zeroByte poly)^[2 ^ cacheNum * len2.toNat] crc1 := by
  induction fuel generalizing crc1 len2 cacheNum with
  | zero => omega
  | succ fuel ih =>
    have half := uint64_shiftRight_one_toNat len2
    rw [crc64CombineLoop, crcMultiply_lowBit mul poly ready (by omega)]
    by_cases more : len2 >>> 1 ≠ 0
    · -- bits remain, so there is fuel and a row left for them
      have remaining : 0 < fuel := by
        refine Nat.pos_of_ne_zero fun none => more (UInt64.toNat_inj.mp ?_)
        rw [none] at fits
        rw [half, UInt64.toNat_zero]
        omega
      have next : (cacheNum + 1) &&& 63 = cacheNum + 1 := by
        rw [show (63 : Nat) = 2 ^ 6 - 1 from rfl, Nat.and_two_pow_sub_one_eq_mod, Nat.mod_eq_of_lt (by omega)]
      rw [if_pos more, next, ih _ _ _ (by rw [half, Nat.div_lt_iff_lt_mul (by decide), ← Nat.pow_succ]; exact fits)
        (by omega) remaining, half, ← Function.iterate_add_apply, two_pow_mul_halves]
    · -- the last bit was the lowest one left
      have last : len2.toNat < 2 := by
        have : (len2 >>> 1).toNat = 0 := by rw [not_not.mp more]; rfl
        rw [half] at this
        omega
      rw [if_neg more, Nat.mod_eq_of_lt last]

/-- The cache is either untouched or filled: a combine that finds row 0 zeroed fills it first. -/
def CacheOk (cache : CombineCache) : Prop := cache 0 0 = 0 ∨ CacheReady poly cache

theorem cacheOk_zero : CacheOk poly combineCacheZero := .inl rfl

/-- crc64_combine moves crc1 past `len2` zero bytes and xors in crc2, and leaves the cache untouched or filled. -/
theorem crc64Combine_spec {cache : CombineCache} (ok : CacheOk poly cache) (crc1 crc2 len2 : UInt64) :
    (crc64Combine mul cache crc1 crc2 len2 poly 64).1 =
        (if len2 = 0 then crc1 else (zeroByte poly)^[len2.toNat] crc1 ^^^ crc2) ∧
      CacheOk poly (crc64Combine mul cache crc1 crc2 len2 poly 64).2 := by
  by_cases empty : len2 = 0
  · rw [crc64Combine, if_pos empty, if_pos empty]
    exact ⟨rfl, ok⟩
  · -- the cache in use after the lazy fill is ready
    have ready : CacheReady poly (if cache 0 0 = 0 then initCombineCache mul poly 64 cache else cache) := by
      by_cases zeroed : cache 0 0 = 0
      · rw [if_pos zeroed]
        exact initCombineCache_ready mul poly cache
      · rw [if_neg zeroed]
        exact ok.resolve_left zeroed
    rw [crc64Combine, if_neg empty, if_neg empty]
    refine ⟨?_, .inr ready⟩
    show crc64CombineLoop mul _ 64 crc1 len2 0 ^^^ crc2 = _
    rw [crc64CombineLoop_eq mul poly ready 64 crc1 len2 0 len2.toNat_lt (by omega) (by omega), Nat.pow_zero,
      Nat.one_mul]

/-- Combining the CRC of a block with the CRC from zero of the block after it, over that block's length, gives the
CRC of both. -/
theorem crc64Combine_append {cache : CombineCache} (ok : CacheOk poly cache) (c : UInt64) (front back : List UInt8)
    (small : back.length < 2 ^ 64) :
    (crc64Combine mul cache (crcBytes poly c front) (crcBytes poly 0 back) back.length.toUInt64 poly 64).1 =
        crcBytes poly c (front ++ back) ∧
      CacheOk poly (crc64Combine mul cache (crcBytes poly c front) (crcBytes poly 0 back) back.length.toUInt64 poly 64).2 := by
  obtain ⟨value, ok'⟩ := crc64Combine_spec mul poly ok (crcBytes poly c front) (crcBytes poly 0 back)
    back.length.toUInt64
  refine ⟨?_, ok'⟩
  have length : back.length.toUInt64.toNat = back.length := by
    rw [Nat.toUInt64_eq, UInt64.toNat_ofNat', Nat.mod_eq_of_lt small]
  rw [value]
  by_cases empty : back.length.toUInt64 = 0
  · -- an empty block leaves the first CRC as it is
    have nil : back = [] := List.eq_nil_of_length_eq_zero (by rw [← length, empty]; rfl)
    rw [if_pos empty, nil, List.append_nil]
  · rw [if_neg empty, length, crcBytes_append_combine]

/-- Whatever the CRCs combined, a fold of combines leaves the cache untouched or filled. -/
theorem foldl_crc64Combine_cacheOk (len2 : UInt64) (lanes : List (UInt64 × Nat)) {acc : UInt64 × CombineCache}
    (ok : CacheOk poly acc.2) :
    CacheOk poly (lanes.foldl (fun (acc : UInt64 × CombineCache) lane =>
      crc64Combine mul acc.2 acc.1 lane.1 len2 poly 64) acc).2 := by
  induction lanes generalizing acc with
  | nil => exact ok
  | cons lane lanes ih => exact ih (crc64Combine_spec mul poly ok acc.1 lane.1 len2).2

end Cache

end Kv.Crc
