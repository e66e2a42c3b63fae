import Kv.Bitops.Bitpos
import Kv.Foundations.Lanes
import Mathlib.Algebra.Order.BigOperators.Group.Finset

/-!
popcountScalar of bitops.c: the number of set bits of `count` bytes, counted
with the bitsinbyte table up to an address aligned to 32 bits, then 28 bytes at
a time as seven 32-bit words by the SWAR steps, and the rest with the table
again. A word is read from its four bytes, the first the least significant, as
on the little-endian machines the code runs on. The long long sum is an Int64,
whose additions wrap as the machine's do. The SWAR steps are proved lane by lane
with the `Foundations.ofLanes` identities, each byte of a word reduced by a
table over its 256 values to its bitsinbyte entry.
-/

namespace Kv.Bitops

open Foundations Finset

def popcountBytes (bits : Int64) (s : List UInt8) : Int64 :=
  s.foldl (fun bits c => bits + Int64.ofNat (bitsinbyte c)) bits

def popcountAlign : Nat → List UInt8 → Int64 → Int64 × List UInt8
  | _, [], bits => (bits, [])
  | addr, c :: rest, bits =>
    if addr % 4 ≠ 0 then popcountAlign (addr + 1) rest (bits + Int64.ofNat (bitsinbyte c)) else (bits, c :: rest)

def load32 (s : List UInt8) (i : Nat) : UInt32 :=
  UInt32.ofNat (ofLanes 8 ((List.range 4).map fun t => (s.getD (i + t) 0).toNat))

def swarNibbles (aux : UInt32) : UInt32 :=
  let aux := aux - ((aux >>> 1) &&& (0x55555555 : UInt32))
  (aux &&& (0x33333333 : UInt32)) + ((aux >>> 2) &&& (0x33333333 : UInt32))

def swarBytes (aux : UInt32) : UInt32 := (aux + (aux >>> 4)) &&& (0x0F0F0F0F : UInt32)

def popcount28 (s : List UInt8) : UInt32 :=
  let aux1 := swarNibbles (load32 s 0)
  let aux2 := swarNibbles (load32 s 4)
  let aux3 := swarNibbles (load32 s 8)
  let aux4 := swarNibbles (load32 s 12)
  let aux5 := swarNibbles (load32 s 16)
  let aux6 := swarNibbles (load32 s 20)
  let aux7 := swarNibbles (load32 s 24)
  ((swarBytes aux1 + swarBytes aux2 + swarBytes aux3 + swarBytes aux4 + swarBytes aux5 + swarBytes aux6 +
    swarBytes aux7) * (0x01010101 : UInt32)) >>> 24

def popcountWords (s : List UInt8) (bits : Int64) : Int64 × List UInt8 :=
  if 28 ≤ s.length then popcountWords (s.drop 28) (bits + Int64.ofNat (popcount28 s).toNat) else (bits, s)
termination_by s.length

/-- popcountScalar(s, count) for the `count` bytes `p` at address `addr`. -/
def popcountScalar (addr : Nat) (p : List UInt8) : Int64 :=
  let (bits, rest) := popcountAlign addr p 0
  let (bits, rest) := popcountWords rest bits
  popcountBytes bits rest

theorem popcountAlign_nil (addr : Nat) (bits : Int64) : popcountAlign addr [] bits = (bits, []) := rfl

theorem popcountAlign_cons (addr : Nat) (c : UInt8) (rest : List UInt8) (bits : Int64) :
    popcountAlign addr (c :: rest) bits =
      if addr % 4 ≠ 0 then popcountAlign (addr + 1) rest (bits + Int64.ofNat (bitsinbyte c)) else (bits, c :: rest) :=
  rfl

theorem popcountScalar_def (addr : Nat) (p : List UInt8) :
    popcountScalar addr p = popcountBytes (popcountWords (popcountAlign addr p 0).2 (popcountAlign addr p 0).1).1
      (popcountWords (popcountAlign addr p 0).2 (popcountAlign addr p 0).1).2 := rfl

theorem popcountWords_eq (s : List UInt8) (bits : Int64) :
    popcountWords s bits =
      if 28 ≤ s.length then popcountWords (s.drop 28) (bits + Int64.ofNat (popcount28 s).toNat) else (bits, s) := by
  rw [popcountWords]

section Counting

theorem bitsinbyteSum_cons (c : UInt8) (s : List UInt8) : bitsinbyteSum (c :: s) = bitsinbyte c + bitsinbyteSum s := by
  simp [bitsinbyteSum]

theorem bitsinbyteSum_append (s t : List UInt8) : bitsinbyteSum (s ++ t) = bitsinbyteSum s + bitsinbyteSum t := by
  simp [bitsinbyteSum]

theorem bitsinbyteSum_eq_sum (p : List UInt8) :
    bitsinbyteSum p = ∑ t ∈ range p.length, bitsinbyte (p.getD t 0) := by
  induction p with
  | nil => rfl
  | cons c p ih =>
    rw [bitsinbyteSum_cons, ih, List.length_cons, Finset.sum_range_succ', Nat.add_comm]
    rfl

theorem bitsinbyteSum_drop (p : List UInt8) (i : Nat) :
    bitsinbyteSum (p.drop i) = ∑ t ∈ range (p.length - i), bitsinbyte (p.getD (i + t) 0) := by
  rw [bitsinbyteSum_eq_sum, List.length_drop]
  exact Finset.sum_congr rfl fun t _ => by
    rw [List.getD_eq_getElem?_getD, List.getElem?_drop, ← List.getD_eq_getElem?_getD]

theorem sum_range_add_bitsinbyteSum_drop (p : List UInt8) {i : Nat} (le : i ≤ p.length) :
    ∑ t ∈ range i, bitsinbyte (p.getD t 0) + bitsinbyteSum (p.drop i) = bitsinbyteSum p := by
  rw [bitsinbyteSum_drop, ← Finset.sum_range_add, Nat.add_sub_cancel' le, bitsinbyteSum_eq_sum]

theorem bitsinbyte_le (c : UInt8) : bitsinbyte c ≤ 8 := by
  have table : ∀ n < 256, bitsinbyteTable.getD n 0 ≤ 8 := by decide +kernel
  exact table c.toNat c.toNat_lt

theorem sum_bitsinbyte_le (f : Nat → UInt8) (n : Nat) : ∑ k ∈ range n, bitsinbyte (f k) ≤ 8 * n :=
  calc ∑ k ∈ range n, bitsinbyte (f k) ≤ ∑ k ∈ range n, 8 := Finset.sum_le_sum fun k _ => bitsinbyte_le (f k)
    _ = 8 * n := by simp [Nat.mul_comm]

theorem int64_ofNat_mod (n : Nat) : Int64.ofNat (n % 2 ^ 64) = Int64.ofNat n := by
  rw [← UInt64.toInt64_ofNat', ← UInt64.toInt64_ofNat']
  congr 1
  apply UInt64.toNat_inj.mp
  rw [UInt64.toNat_ofNat', UInt64.toNat_ofNat', Nat.mod_mod]

theorem popcountBytes_eq (bits : Int64) (s : List UInt8) :
    popcountBytes bits s = bits + Int64.ofNat (bitsinbyteSum s) := by
  induction s generalizing bits with
  | nil => simp [popcountBytes, bitsinbyteSum]
  | cons c s ih =>
    rw [popcountBytes, List.foldl_cons, ← popcountBytes, ih, bitsinbyteSum_cons, Int64.ofNat_add, Int64.add_assoc]

theorem popcountAlign_spec (addr : Nat) (p : List UInt8) (bits : Int64) :
    (popcountAlign addr p bits).1 + Int64.ofNat (bitsinbyteSum (popcountAlign addr p bits).2) =
      bits + Int64.ofNat (bitsinbyteSum p) := by
  induction p generalizing addr bits with
  | nil => rfl
  | cons c rest ih =>
    rw [popcountAlign_cons]
    split
    · rw [ih, bitsinbyteSum_cons, Int64.ofNat_add, Int64.add_assoc]
    · rfl

end Counting

section Swar

def pairCounts (b : Nat) : Nat := b - (b >>> 1 &&& 0x55)

def nibbleCounts (b : Nat) : Nat := (pairCounts b &&& 0x33) + (pairCounts b >>> 2 &&& 0x33)

def byteCount (b : Nat) : Nat := (nibbleCounts b + nibbleCounts b >>> 4) &&& 0x0F

theorem swar_byte_table : ∀ b < 256,
    (b >>> 1 &&& 0x55) ≤ b ∧ pairCounts b < 2 ^ 8 ∧ nibbleCounts b ≤ 0x44 ∧ nibbleCounts b % 2 ^ 4 ≤ 4 ∧
      nibbleCounts b + nibbleCounts b >>> 4 + 2 ^ (8 - 4) * 4 < 2 ^ 8 ∧ byteCount b = bitsinbyteTable.getD b 0 := by
  decide +kernel

section Word

variable {B : List Nat} (four : B.length = 4) (bytes : ∀ b ∈ B, b < 2 ^ 8)
include four bytes

theorem toNat_swarNibbles {x : UInt32} (hx : x.toNat = ofLanes 8 B) :
    (swarNibbles x).toNat = ofLanes 8 (B.map nibbleCounts) := by
  have table : ∀ b ∈ B, _ := fun b mem => swar_byte_table b (bytes b mem)
  -- first line: aux - ((aux >> 1) & 0x55555555), with no lane borrowing
  have halves : ((x >>> 1) &&& 0x55555555).toNat = ofLanes 8 (B.map fun b => b >>> 1 &&& 0x55) := by
    have masks : (0x55555555 : Nat) = ofLanes 8 (List.replicate B.length 0x55) := by rw [four]; rfl
    rw [UInt32.toNat_and, UInt32.toNat_shiftRight, hx, show (0x55555555 : UInt32).toNat = 0x55555555 from rfl, masks]
    exact ofLanes_shiftRight_and (by decide) (by decide) bytes
  have pairs := ofLanes_map_add_sub (w := 8) (f := fun b => b) (g := fun b => b >>> 1 &&& 0x55)
    fun b mem => (table b mem).1
  rw [List.map_id'] at pairs
  have first : (x - ((x >>> 1) &&& 0x55555555)).toNat = ofLanes 8 (B.map pairCounts) := by
    rw [UInt32.toNat_sub_of_le _ _ (UInt32.le_iff_toNat_le.mpr (by rw [halves, hx, ← pairs]; omega)), hx, halves,
      ← pairs, Nat.add_sub_cancel_left]
    rfl
  -- second line: the two masked halves of every nibble pair added
  have pairFit : ∀ y ∈ B.map pairCounts, y < 2 ^ 8 := by
    intro y mem
    obtain ⟨b, inB, rfl⟩ := List.mem_map.mp mem
    exact (table b inB).2.1
  have masks : (0x33333333 : Nat) = ofLanes 8 (List.replicate (B.map pairCounts).length 0x33) := by
    rw [List.length_map, four]; rfl
  have lowHalf := ofLanes_and_replicate (m := 0x33) (by decide) pairFit
  have highHalf := ofLanes_shiftRight_and (s := 2) (m := 0x33) (by decide) (by decide) pairFit
  rw [← masks, List.map_map] at lowHalf highHalf
  have nibbleFit : ∀ y ∈ B.map nibbleCounts, y < 2 ^ 8 := by
    intro y mem
    obtain ⟨b, inB, rfl⟩ := List.mem_map.mp mem
    have := (table b inB).2.2.1
    omega
  have small := ofLanes_lt nibbleFit
  rw [List.length_map, four] at small
  simp only [swarNibbles]
  rw [UInt32.toNat_add, UInt32.toNat_and, UInt32.toNat_and, UInt32.toNat_shiftRight, first,
    show (0x33333333 : UInt32).toNat = 0x33333333 from rfl, lowHalf, show (2 : UInt32).toNat % 32 = 2 from rfl,
    highHalf, ofLanes_map_add]
  exact Nat.mod_eq_of_lt small

theorem toNat_swarBytes {z : UInt32} (hz : z.toNat = ofLanes 8 (B.map nibbleCounts)) :
    (swarBytes z).toNat = ofLanes 8 (B.map fun b => bitsinbyteTable.getD b 0) := by
  have table : ∀ b ∈ B, _ := fun b mem => swar_byte_table b (bytes b mem)
  have carry : ∀ y ∈ B.map nibbleCounts, y % 2 ^ 4 ≤ 4 := by
    intro y mem
    obtain ⟨b, inB, rfl⟩ := List.mem_map.mp mem
    exact (table b inB).2.2.2.1
  have fit : ∀ y ∈ B.map nibbleCounts, y + y >>> 4 + 2 ^ (8 - 4) * 4 < 2 ^ 8 := by
    intro y mem
    obtain ⟨b, inB, rfl⟩ := List.mem_map.mp mem
    exact (table b inB).2.2.2.2.1
  -- the sum aux + (aux >> 4) does not wrap: every lane of aux is at most 0x44
  have below := ofLanes_map_le (w := 8) (f := fun _ => 0x44) (g := nibbleCounts) fun b mem => (table b mem).2.2.1
  have bound : ofLanes 8 (B.map fun _ => 0x44) = 0x44444444 := by
    rw [List.map_const', four]; rfl
  have noWrap : z.toNat + z.toNat >>> 4 < 2 ^ 32 := by
    rw [Nat.shiftRight_eq_div_pow, hz]
    omega
  have masks : (0x0F0F0F0F : Nat) = ofLanes 8 (List.replicate (B.map nibbleCounts).length 0x0F) := by
    rw [List.length_map, four]; rfl
  simp only [swarBytes]
  rw [UInt32.toNat_and, UInt32.toNat_add, UInt32.toNat_shiftRight, show (4 : UInt32).toNat % 32 = 4 from rfl,
    Nat.mod_eq_of_lt noWrap, hz, show (0x0F0F0F0F : UInt32).toNat = 0x0F0F0F0F from rfl, masks,
    ofLanes_add_shiftRight_and (by decide) (by decide) carry fit, List.map_map]
  congr 1
  exact List.map_congr_left fun b mem => (table b mem).2.2.2.2.2

end Word

theorem toNat_swarBytes_load32 (s : List UInt8) (i : Nat) :
    (swarBytes (swarNibbles (load32 s i))).toNat =
      ofLanes 8 ((List.range 4).map fun t => bitsinbyte (s.getD (i + t) 0)) := by
  have bytes : ∀ b ∈ (List.range 4).map (fun t => (s.getD (i + t) 0).toNat), b < 2 ^ 8 := by
    intro b mem
    obtain ⟨t, -, rfl⟩ := List.mem_map.mp mem
    exact UInt8.toNat_lt _
  have four : ((List.range 4).map fun t => (s.getD (i + t) 0).toNat).length = 4 := by simp
  have word : (load32 s i).toNat = ofLanes 8 ((List.range 4).map fun t => (s.getD (i + t) 0).toNat) := by
    have small := ofLanes_lt bytes
    rw [four] at small
    rw [load32, UInt32.toNat_ofNat', Nat.mod_eq_of_lt small]
  rw [toNat_swarBytes four bytes (toNat_swarNibbles four bytes word), List.map_map]
  rfl

theorem toNat_add_seven (W : Nat → UInt32) (small : ∑ k ∈ range 7, (W k).toNat < 2 ^ 32) :
    (W 0 + W 1 + W 2 + W 3 + W 4 + W 5 + W 6).toNat = ∑ k ∈ range 7, (W k).toNat := by
  simp only [Finset.sum_range_succ, Finset.sum_range_zero, UInt32.toNat_add] at small ⊢
  omega

theorem gather_bytes {y : UInt32} {e0 e1 e2 e3 : Nat} (hy : y.toNat = ofLanes 8 [e0, e1, e2, e3])
    (fits : e0 + e1 + e2 + e3 < 2 ^ 8) : ((y * (0x01010101 : UInt32)) >>> 24).toNat = e0 + e1 + e2 + e3 := by
  have low : e0 + 2 ^ 8 * (e0 + e1) + 2 ^ 16 * (e0 + e1 + e2) < 2 ^ 24 := by omega
  -- the product spread over the byte positions: the top byte of the low word holds the whole sum
  have spread : ofLanes 8 [e0, e1, e2, e3] * 0x01010101 =
      (e0 + 2 ^ 8 * (e0 + e1) + 2 ^ 16 * (e0 + e1 + e2) + 2 ^ 24 * (e0 + e1 + e2 + e3)) +
        2 ^ 32 * (e1 + e2 + e3 + 2 ^ 8 * (e2 + e3) + 2 ^ 16 * e3) := by
    simp only [ofLanes_cons, ofLanes_nil]
    ring
  rw [UInt32.toNat_shiftRight, UInt32.toNat_mul, hy, show (0x01010101 : UInt32).toNat = 0x01010101 from rfl,
    show (24 : UInt32).toNat % 32 = 24 from rfl, Nat.shiftRight_eq_div_pow, spread, Nat.add_mul_mod_self_left,
    Nat.mod_eq_of_lt (by omega), Nat.add_mul_div_left _ _ (by decide), Nat.div_eq_of_lt low, Nat.zero_add]

theorem toNat_popcount28 (s : List UInt8) :
    (popcount28 s).toNat = ∑ t ∈ range 28, bitsinbyte (s.getD t 0) := by
  let W : Nat → UInt32 := fun k => swarBytes (swarNibbles (load32 s (4 * k)))
  have lanes : ∑ k ∈ range 7, (W k).toNat =
      ofLanes 8 ((List.range 4).map fun t => ∑ k ∈ range 7, bitsinbyte (s.getD (4 * k + t) 0)) := by
    rw [← ofLanes_map_sum]
    exact Finset.sum_congr rfl fun k _ => toNat_swarBytes_load32 s (4 * k)
  have lane56 : ∀ t, ∑ k ∈ range 7, bitsinbyte (s.getD (4 * k + t) 0) ≤ 8 * 7 := fun t =>
    sum_bitsinbyte_le (fun k => s.getD (4 * k + t) 0) 7
  have l0 := lane56 0
  have l1 := lane56 1
  have l2 := lane56 2
  have l3 := lane56 3
  simp only [List.range_succ, List.range_zero, List.nil_append, List.cons_append, List.map_cons, List.map_nil] at lanes
  have small : ∑ k ∈ range 7, (W k).toNat < 2 ^ 32 := by
    rw [lanes]
    simp only [ofLanes_cons, ofLanes_nil]
    omega
  -- the words summed as the C sums them, the byte lanes gathered, and the 28 counts regrouped by word
  rw [show popcount28 s = ((W 0 + W 1 + W 2 + W 3 + W 4 + W 5 + W 6) * (0x01010101 : UInt32)) >>> 24 from rfl,
    gather_bytes (by rw [toNat_add_seven W small, lanes]) (by omega), ← sum_range_mul_add _ 7 4, Finset.sum_comm]
  simp [Finset.sum_range_succ, Nat.add_assoc]

end Swar

section Scalar

theorem popcountWords_spec (s : List UInt8) (bits : Int64) :
    (popcountWords s bits).1 + Int64.ofNat (bitsinbyteSum (popcountWords s bits).2) =
      bits + Int64.ofNat (bitsinbyteSum s) := by
  induction s, bits using popcountWords.induct with
  | case1 s bits long ih =>
    rw [popcountWords_eq, if_pos long, ih, Int64.add_assoc, ← Int64.ofNat_add, toNat_popcount28,
      ← sum_range_add_bitsinbyteSum_drop s long]
  | case2 s bits short => rw [popcountWords_eq, if_neg short]

theorem popcountScalar_eq (addr : Nat) (p : List UInt8) : popcountScalar addr p = Int64.ofNat (bitsinbyteSum p) := by
  have aligned := popcountAlign_spec addr p 0
  have words := popcountWords_spec (popcountAlign addr p 0).2 (popcountAlign addr p 0).1
  rw [Int64.zero_add] at aligned
  rw [popcountScalar_def, popcountBytes_eq, words, aligned]

end Scalar

end Kv.Bitops
