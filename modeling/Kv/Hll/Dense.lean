import Kv.Foundations.PackedFields
import Kv.Foundations.Run
import Kv.Foundations.Lanes
import Mathlib.Tactic.IntervalCases

/-!
The dense encoding of HyperLogLog in hyperloglog.c: 16384 registers of six bits packed into 12288
bytes after the 16-byte header, register `i` in bits `6 i` to `6 i + 5` counted from the least
significant bit of the first byte, as `Foundations.readField` numbers them. HLL_DENSE_GET_REGISTER
reads a register from the two bytes it touches and HLL_DENSE_SET_REGISTER writes one; the byte after
the last register is the terminator of the sds string, which reads as zero and which a write of a
value below 64 leaves zero, so the registers are modelled as the 12288 bytes with zeros past them.
-/

namespace Kv.Hll

open Foundations

def hllP : Nat := 14

def hllQ : Nat := 64 - hllP

def hllRegisters : Nat := 2 ^ hllP

def hllBits : Nat := 6

def hllRegisterMax : Nat := 2 ^ hllBits - 1

def hllHdrSize : Nat := 16

def hllDenseBytes : Nat := (hllRegisters * hllBits + 7) / 8

def hllDenseSize : Nat := hllHdrSize + hllDenseBytes

/-- HLL_DENSE_GET_REGISTER: the byte holding the register's first bit shifted down, the next one
shifted up, masked to six bits. -/
def hllDenseGetRegister (p : List UInt8) (regnum : Nat) : Nat :=
  let byte := regnum * hllBits / 8
  let fb := regnum * hllBits &&& 7
  let fb8 := 8 - fb
  let b0 := (p.getD byte 0).toNat
  let b1 := (p.getD (byte + 1) 0).toNat
  ((b0 >>> fb) ||| (b1 <<< fb8)) &&& hllRegisterMax

/-- HLL_DENSE_SET_REGISTER: in each of the two bytes the register's bits are cleared by the
complement of the int mask and the value's are or-ed in, every result truncated to a byte. -/
def hllDenseSetRegister (p : List UInt8) (regnum val : Nat) : List UInt8 :=
  let byte := regnum * hllBits / 8
  let fb := regnum * hllBits &&& 7
  let fb8 := 8 - fb
  let v := val
  (p.set byte (setBits (p.getD byte 0) (hllRegisterMax <<< fb) (v <<< fb))).set (byte + 1)
    (setBits (p.getD (byte + 1) 0) (hllRegisterMax >>> fb8) (v >>> fb8))

def hllDenseRegisters (p : List UInt8) : List Nat := (List.range hllRegisters).map (hllDenseGetRegister p)

/-- hllDenseSet: the register at `index` raised to `count` when that is larger, with 1 when it
changed and 0 when it did not. -/
def hllDenseSet (registers : List UInt8) (index : Nat) (count : UInt8) : Nat × List UInt8 :=
  let oldcount := hllDenseGetRegister registers index
  if count.toNat > oldcount then (1, hllDenseSetRegister registers index count.toNat) else (0, registers)

theorem hllRegisters_eq : hllRegisters = 16384 := rfl

theorem hllDenseBytes_eq : hllDenseBytes = 12288 := rfl

theorem hllDenseGetRegister_eq_readField (p : List UInt8) (i : Nat) :
    hllDenseGetRegister p i = readField p (i * 6) 6 := by
  have fb : i * 6 &&& 7 = i * 6 % 8 := Nat.and_two_pow_sub_one_eq_mod (i * 6) 3
  simp only [hllDenseGetRegister, hllBits, hllRegisterMax, fb, readField]

theorem hllDenseSetRegister_eq_writeField (p : List UInt8) (i v : Nat) :
    hllDenseSetRegister p i v = writeField p (i * 6) 6 v := by
  have fb : i * 6 &&& 7 = i * 6 % 8 := Nat.and_two_pow_sub_one_eq_mod (i * 6) 3
  simp only [hllDenseSetRegister, hllBits, hllRegisterMax, fb, writeField]

section Registers

variable {p : List UInt8} {i j v : Nat}

theorem hllDenseGetRegister_lt (p : List UInt8) (i : Nat) : hllDenseGetRegister p i < 64 := by
  rw [hllDenseGetRegister_eq_readField]
  exact readField_lt p _ 6

theorem length_hllDenseSetRegister (p : List UInt8) (i v : Nat) : (hllDenseSetRegister p i v).length = p.length := by
  rw [hllDenseSetRegister_eq_writeField, length_writeField]

theorem hllDenseGetRegister_setRegister (fits : v < 64) (room : i * 6 + 6 ≤ 8 * p.length) (j : Nat) :
    hllDenseGetRegister (hllDenseSetRegister p i v) j = if j = i then v else hllDenseGetRegister p j := by
  rw [hllDenseSetRegister_eq_writeField, hllDenseGetRegister_eq_readField, hllDenseGetRegister_eq_readField]
  by_cases same : j = i
  · subst same
    rw [if_pos rfl, readField_writeField_self (by decide) fits room]
  · rw [if_neg same, readField_writeField_of_disjoint (by decide) (by decide) fits room (by omega)]

theorem hllDenseRegisters_setRegister (size : p.length = hllDenseBytes) (inside : i < hllRegisters) (fits : v < 64) :
    hllDenseRegisters (hllDenseSetRegister p i v) = (hllDenseRegisters p).set i v := by
  have room : i * 6 + 6 ≤ 8 * p.length := by
    rw [size, hllDenseBytes_eq]
    rw [hllRegisters_eq] at inside
    omega
  apply List.ext_getElem
  · simp [hllDenseRegisters]
  · intro j jIn _
    simp only [hllDenseRegisters, List.getElem_map, List.getElem_range, List.getElem_set]
    rw [hllDenseGetRegister_setRegister fits room]
    by_cases same : j = i
    · rw [if_pos same, if_pos same.symm]
    · rw [if_neg same, if_neg (Ne.symm same)]

theorem length_hllDenseRegisters (p : List UInt8) : (hllDenseRegisters p).length = hllRegisters := by
  simp [hllDenseRegisters]

theorem getElem_hllDenseRegisters (p : List UInt8) {i : Nat} (inside : i < (hllDenseRegisters p).length) :
    (hllDenseRegisters p)[i] = hllDenseGetRegister p i := by
  simp [hllDenseRegisters]

theorem hllDenseSet_spec (size : p.length = hllDenseBytes) (inside : i < hllRegisters) {count : UInt8}
    (fits : count.toNat < 64) :
    (hllDenseSet p i count).2.length = p.length ∧
      hllDenseRegisters (hllDenseSet p i count).2 =
        (hllDenseRegisters p).set i (max (hllDenseGetRegister p i) count.toNat) ∧
      (hllDenseSet p i count).1 = if hllDenseGetRegister p i < count.toNat then 1 else 0 := by
  unfold hllDenseSet
  by_cases raise : count.toNat > hllDenseGetRegister p i
  · rw [if_pos raise, if_pos raise]
    refine ⟨length_hllDenseSetRegister p i _, ?_, rfl⟩
    rw [hllDenseRegisters_setRegister size inside fits, Nat.max_eq_right (Nat.le_of_lt raise)]
  · rw [if_neg raise, if_neg raise]
    refine ⟨rfl, ?_, rfl⟩
    have bound : i < (hllDenseRegisters p).length := by
      rw [length_hllDenseRegisters]
      exact inside
    have keep : max (hllDenseGetRegister p i) count.toNat = (hllDenseRegisters p)[i] := by
      rw [getElem_hllDenseRegisters, Nat.max_eq_left (by omega)]
    rw [keep, List.set_getElem_self]

end Registers

section Histogram

def hllDenseRegHistoBlock (p : List UInt8) (r : Nat) : List Nat :=
  let b := fun k => (p.getD (r + k) 0).toNat
  [b 0 &&& 63, (b 0 >>> 6 ||| b 1 <<< 2) &&& 63, (b 1 >>> 4 ||| b 2 <<< 4) &&& 63, (b 2 >>> 2) &&& 63,
    b 3 &&& 63, (b 3 >>> 6 ||| b 4 <<< 2) &&& 63, (b 4 >>> 4 ||| b 5 <<< 4) &&& 63, (b 5 >>> 2) &&& 63,
    b 6 &&& 63, (b 6 >>> 6 ||| b 7 <<< 2) &&& 63, (b 7 >>> 4 ||| b 8 <<< 4) &&& 63, (b 8 >>> 2) &&& 63,
    b 9 &&& 63, (b 9 >>> 6 ||| b 10 <<< 2) &&& 63, (b 10 >>> 4 ||| b 11 <<< 4) &&& 63, (b 11 >>> 2) &&& 63]

/-- hllDenseRegHisto: at 16384 registers of six bits, 1024 rounds of sixteen registers read from
twelve bytes; otherwise HLL_DENSE_GET_REGISTER on each register. Each register adds one to the
count of its value. -/
def hllDenseRegHisto (registers : List UInt8) (reghisto : Nat → Nat) : Nat → Nat :=
  if hllRegisters = 16384 ∧ hllBits = 6 then
    (List.range 1024).foldl (fun h j => (hllDenseRegHistoBlock registers (12 * j)).foldl tallyOne h) reghisto
  else
    (List.range hllRegisters).foldl (fun h j => tallyOne h (hllDenseGetRegister registers j)) reghisto

theorem hllDenseGetRegister_block (p : List UInt8) (j k : Nat) :
    hllDenseGetRegister p (16 * j + k) =
      (((p.getD (12 * j + 6 * k / 8) 0).toNat >>> (6 * k % 8)) |||
        ((p.getD (12 * j + 6 * k / 8 + 1) 0).toNat <<< (8 - 6 * k % 8))) &&& (2 ^ 6 - 1) := by
  have byte : (16 * j + k) * 6 / 8 = 12 * j + 6 * k / 8 := by omega
  have bit : (16 * j + k) * 6 % 8 = 6 * k % 8 := by omega
  rw [hllDenseGetRegister_eq_readField, readField, byte, bit]

theorem hllDenseRegHistoBlock_eq (p : List UInt8) (j : Nat) :
    hllDenseRegHistoBlock p (12 * j) = (List.range 16).map fun k => hllDenseGetRegister p (16 * j + k) := by
  apply List.ext_getElem
  · simp [hllDenseRegHistoBlock]
  · intro k inBlock _
    simp only [hllDenseRegHistoBlock, List.length_cons, List.length_nil] at inBlock
    rw [List.getElem_map, List.getElem_range, hllDenseGetRegister_block]
    interval_cases k <;> simp [hllDenseRegHistoBlock, Nat.add_assoc,
      or_shiftLeft_and_of_lt (show 63 < 2 ^ 8 by decide), or_shiftLeft_and_of_lt (show 63 < 2 ^ 6 by decide)]

theorem hllDenseRegHisto_eq (registers : List UInt8) (reghisto : Nat → Nat) :
    hllDenseRegHisto registers reghisto = (hllDenseRegisters registers).foldl tallyOne reghisto := by
  have generic : (List.range hllRegisters).foldl (fun h j => tallyOne h (hllDenseGetRegister registers j))
      reghisto = (hllDenseRegisters registers).foldl tallyOne reghisto := by
    rw [hllDenseRegisters, List.foldl_map]
  have unrolled : (List.range 1024).foldl
      (fun h j => (hllDenseRegHistoBlock registers (12 * j)).foldl tallyOne h) reghisto =
        (hllDenseRegisters registers).foldl tallyOne reghisto := by
    rw [← List.foldl_flatMap]
    simp only [hllDenseRegHistoBlock_eq]
    rw [map_range_mul (hllDenseGetRegister registers) 16 1024]
    rfl
  rw [hllDenseRegHisto]
  split
  · exact unrolled
  · exact generic

def hllRawRegisters (registers : List UInt8) : List Nat :=
  (List.range hllRegisters).map fun i => (registers.getD i 0).toNat

/-- hllRawRegHisto: the registers read as 2048 words of eight bytes; a word that is zero adds eight to
the count of zero, another adds one for each of its bytes. The word is the bytes' little-endian
value; its test against zero does not depend on the order. -/
def hllRawRegHisto (registers : List UInt8) (reghisto : Nat → Nat) : Nat → Nat :=
  (List.range (hllRegisters / 8)).foldl (fun h j =>
    let bytes := (List.range 8).map fun k => registers.getD (8 * j + k) 0
    if ofLanes 8 (bytes.map UInt8.toNat) = 0 then Function.update h 0 (h 0 + 8)
    else bytes.foldl (fun h b => tallyOne h b.toNat) h) reghisto

theorem hllRawRegHisto_round (registers : List UInt8) (h : Nat → Nat) (j : Nat) :
    (let bytes := (List.range 8).map fun k => registers.getD (8 * j + k) 0
     if ofLanes 8 (bytes.map UInt8.toNat) = 0 then Function.update h 0 (h 0 + 8)
     else bytes.foldl (fun h b => tallyOne h b.toNat) h) =
      ((List.range 8).map fun k => (registers.getD (8 * j + k) 0).toNat).foldl tallyOne h := by
  have values : ((List.range 8).map fun k => registers.getD (8 * j + k) 0).map UInt8.toNat =
      (List.range 8).map fun k => (registers.getD (8 * j + k) 0).toNat := by
    rw [List.map_map]
    rfl
  dsimp only
  rw [values]
  split
  · -- the zero word: eight zeros, each adding one to the count of zero
    rename_i zero
    have zeros : ((List.range 8).map fun k => (registers.getD (8 * j + k) 0).toNat) = List.replicate 8 0 :=
      List.eq_replicate_iff.mpr ⟨by simp, eq_zero_of_ofLanes_eq_zero zero⟩
    funext y
    rw [zeros, foldl_tallyOne, List.count_replicate, Function.update_apply]
    by_cases atZero : y = 0
    · subst atZero
      simp
    · simp [atZero, Ne.symm atZero]
  · rw [← List.foldl_map]
    rfl

theorem hllRawRegHisto_eq (registers : List UInt8) (reghisto : Nat → Nat) :
    hllRawRegHisto registers reghisto = (hllRawRegisters registers).foldl tallyOne reghisto := by
  rw [hllRawRegHisto]
  simp only [hllRawRegHisto_round]
  rw [← List.foldl_flatMap, map_range_mul (fun i => (registers.getD i 0).toNat) 8 (hllRegisters / 8)]
  rfl

/-- hllDenseRegHisto adds to the count of each value the number of registers that hold it. -/
theorem hllDenseRegHisto_count (registers : List UInt8) (reghisto : Nat → Nat) (v : Nat) :
    hllDenseRegHisto registers reghisto v = reghisto v + (hllDenseRegisters registers).count v := by
  rw [hllDenseRegHisto_eq, foldl_tallyOne]

theorem hllRawRegHisto_count (registers : List UInt8) (reghisto : Nat → Nat) (v : Nat) :
    hllRawRegHisto registers reghisto v = reghisto v + (hllRawRegisters registers).count v := by
  rw [hllRawRegHisto_eq, foldl_tallyOne]

end Histogram

section Raw

def hllRaiseRegister (raw : List UInt8) (i val : Nat) : List UInt8 :=
  if val > (raw.getD i 0).toNat then raw.set i (UInt8.ofNat val) else raw

/-- One round of the scalar merge: HLL_DENSE_GET_REGISTER into a byte, and the raw register raised to it. -/
def hllMergeRegister (reg_dense raw : List UInt8) (i : Nat) : List UInt8 :=
  let val := UInt8.ofNat (hllDenseGetRegister reg_dense i)
  hllRaiseRegister raw i val.toNat

/-- The loop of hllMergeDense that runs without SIMD. -/
def hllMergeDenseScalar (reg_raw reg_dense : List UInt8) : List UInt8 :=
  (List.range hllRegisters).foldl (hllMergeRegister reg_dense) reg_raw

/-- One round of the scalar compression: HLL_DENSE_SET_REGISTER of the raw register. -/
def hllCompressRegister (reg_raw d : List UInt8) (i : Nat) : List UInt8 :=
  hllDenseSetRegister d i (reg_raw.getD i 0).toNat

/-- The loop of hllDenseCompress that runs without SIMD. -/
def hllDenseCompressScalar (reg_dense reg_raw : List UInt8) : List UInt8 :=
  (List.range hllRegisters).foldl (hllCompressRegister reg_raw) reg_dense

theorem length_hllRawRegisters (registers : List UInt8) : (hllRawRegisters registers).length = hllRegisters := by
  simp [hllRawRegisters]

theorem getElem_hllRawRegisters (registers : List UInt8) {i : Nat} (inside : i < (hllRawRegisters registers).length) :
    (hllRawRegisters registers)[i] = (registers.getD i 0).toNat := by
  simp [hllRawRegisters]

theorem toNat_ofNat_hllDenseGetRegister (p : List UInt8) (i : Nat) :
    (UInt8.ofNat (hllDenseGetRegister p i)).toNat = hllDenseGetRegister p i :=
  UInt8.toNat_ofNat_of_lt' (Nat.lt_trans (hllDenseGetRegister_lt p i) (by decide))

section Raise

variable {raw : List UInt8} {i val : Nat}

theorem length_hllRaiseRegister : (hllRaiseRegister raw i val).length = raw.length := by
  unfold hllRaiseRegister
  split
  · rw [List.length_set]
  · rfl

theorem getD_hllRaiseRegister (fits : val < 256) (j : Nat) :
    ((hllRaiseRegister raw i val).getD j 0).toNat =
      if j = i ∧ i < raw.length then max (raw.getD j 0).toNat val else (raw.getD j 0).toNat := by
  unfold hllRaiseRegister
  split
  · rename_i larger
    rw [getD_set_eq]
    by_cases same : j = i ∧ i < raw.length
    · obtain ⟨rfl, inside⟩ := same
      rw [if_pos ⟨rfl, inside⟩, if_pos ⟨rfl, inside⟩, UInt8.toNat_ofNat_of_lt' fits]
      omega
    · rw [if_neg fun both => same ⟨both.1.symm, both.2⟩, if_neg same]
  · rename_i smaller
    by_cases same : j = i ∧ i < raw.length
    · rw [if_pos same, same.1]
      omega
    · rw [if_neg same]

end Raise

def MergedBelow (reg_raw reg_dense : List UInt8) (k : Nat) (raw : List UInt8) : Prop :=
  raw.length = reg_raw.length ∧ ∀ i, (raw.getD i 0).toNat =
    if i < k ∧ i < reg_raw.length then max (reg_raw.getD i 0).toNat (hllDenseGetRegister reg_dense i)
    else (reg_raw.getD i 0).toNat

theorem mergedBelow_round {reg_raw reg_dense raw : List UInt8} {k : Nat} (merged : MergedBelow reg_raw reg_dense k raw) :
    MergedBelow reg_raw reg_dense (k + 1) (hllMergeRegister reg_dense raw k) := by
  obtain ⟨size, values⟩ := merged
  have fits : hllDenseGetRegister reg_dense k < 256 := Nat.lt_trans (hllDenseGetRegister_lt _ k) (by decide)
  refine ⟨by rw [hllMergeRegister, length_hllRaiseRegister, size], fun i => ?_⟩
  rw [hllMergeRegister, toNat_ofNat_hllDenseGetRegister, getD_hllRaiseRegister fits, size, values i]
  by_cases same : i = k
  · subst same
    by_cases inside : i < reg_raw.length
    · rw [if_pos ⟨rfl, inside⟩, if_neg (by omega), if_pos ⟨by omega, inside⟩]
    · rw [if_neg (by omega), if_neg (by omega), if_neg (by omega)]
  · rw [if_neg fun both => same both.1]
    by_cases below : i < k ∧ i < reg_raw.length
    · rw [if_pos below, if_pos ⟨by omega, below.2⟩]
    · rw [if_neg below, if_neg (by omega)]

/-- Once all registers are merged, each raw register is the larger of it and the dense one. -/
theorem MergedBelow.registers {reg_raw reg_dense raw : List UInt8} (size : reg_raw.length = hllRegisters)
    (merged : MergedBelow reg_raw reg_dense hllRegisters raw) :
    hllRawRegisters raw = List.zipWith max (hllRawRegisters reg_raw) (hllDenseRegisters reg_dense) := by
  apply List.ext_getElem
  · simp [length_hllRawRegisters, length_hllDenseRegisters]
  · intro i inside _
    rw [length_hllRawRegisters] at inside
    rw [List.getElem_zipWith, getElem_hllRawRegisters, getElem_hllRawRegisters, getElem_hllDenseRegisters,
      merged.2 i, if_pos ⟨inside, by omega⟩]

theorem hllMergeDenseScalar_merged (reg_raw reg_dense : List UInt8) :
    MergedBelow reg_raw reg_dense hllRegisters (hllMergeDenseScalar reg_raw reg_dense) :=
  foldl_range_invariant (MergedBelow reg_raw reg_dense) ⟨rfl, fun i => by rw [if_neg (by omega)]⟩
    fun _ _ _ below => mergedBelow_round below

/-- The registers below `k` of a dense buffer hold the raw ones. -/
def CompressedTo (reg_raw : List UInt8) (k : Nat) (d : List UInt8) : Prop :=
  d.length = hllDenseBytes ∧ ∀ j < k, hllDenseGetRegister d j = (reg_raw.getD j 0).toNat

section Compress

variable {reg_dense reg_raw : List UInt8}

theorem compressedTo_round {k : Nat} (inside : k < hllRegisters) (fits : (reg_raw.getD k 0).toNat < 64)
    {d : List UInt8} (compressed : CompressedTo reg_raw k d) :
    CompressedTo reg_raw (k + 1) (hllCompressRegister reg_raw d k) := by
  obtain ⟨length, values⟩ := compressed
  have room : k * 6 + 6 ≤ 8 * d.length := by
    rw [length, hllDenseBytes_eq]
    rw [hllRegisters_eq] at inside
    omega
  refine ⟨by rw [hllCompressRegister, length_hllDenseSetRegister, length], fun j below => ?_⟩
  rw [hllCompressRegister, hllDenseGetRegister_setRegister fits room]
  by_cases same : j = k
  · rw [if_pos same, same]
  · rw [if_neg same, values j (by omega)]

/-- Once all registers are written, the dense registers are the raw ones. -/
theorem CompressedTo.registers {d : List UInt8} (compressed : CompressedTo reg_raw hllRegisters d) :
    hllDenseRegisters d = hllRawRegisters reg_raw := by
  rw [hllDenseRegisters, hllRawRegisters]
  apply List.map_congr_left
  intro j mem
  exact compressed.2 j (List.mem_range.mp mem)

theorem hllDenseCompressScalar_compressed (size : reg_dense.length = hllDenseBytes)
    (fits : ∀ v ∈ hllRawRegisters reg_raw, v < 64) :
    CompressedTo reg_raw hllRegisters (hllDenseCompressScalar reg_dense reg_raw) :=
  foldl_range_invariant (CompressedTo reg_raw) ⟨size, fun j below => absurd below (Nat.not_lt_zero j)⟩
    fun k _ inside below => compressedTo_round inside (fits _ (List.mem_map.mpr ⟨k, List.mem_range.mpr inside, rfl⟩))
      below

end Compress

end Raw

end Kv.Hll
