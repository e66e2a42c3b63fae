import Mathlib.Data.Nat.Bitwise
import Mathlib.Data.List.GetD
import Mathlib.Data.List.Count
import Mathlib.Algebra.Group.Nat.Defs

/-!
Fields of a few bits packed into a byte buffer, the least significant bit first: bit `k` of the
buffer is bit `k % 8` of byte `k / 8`, and past the end of the buffer every byte reads as zero, as
the terminator of an sds string does. A field of at most eight bits lies within two adjacent bytes.
It is read by shifting the first byte down and the second up and masking the result, and written
by clearing its bits in each of the two bytes and or-ing in the value's, the part in the second
byte shifted down. The lemmas say which bit of the buffer each bit of a read is, and which bits a
write changes, so that reads and writes of fields reduce to arithmetic on positions.
-/

namespace Foundations

theorem getD_set_eq {α : Type} (l : List α) (i t : Nat) (a d : α) :
    (l.set i a).getD t d = if i = t ∧ i < l.length then a else l.getD t d := by
  rw [List.getD_eq_getElem?_getD, List.getElem?_set, List.getD_eq_getElem?_getD]
  by_cases same : i = t
  · by_cases inside : i < l.length
    · rw [if_pos same, if_pos inside, if_pos ⟨same, inside⟩, Option.getD_some]
    · rw [if_pos same, if_neg inside, if_neg fun both => inside both.2, ← same,
        List.getElem?_eq_none (by omega)]
  · rw [if_neg same, if_neg fun both => same both.1]

theorem getD_append_replicate {α : Type} (pre : List α) (l j : Nat) (v d : α) :
    (pre ++ List.replicate l v).getD j d = if pre.length ≤ j ∧ j < pre.length + l then v else pre.getD j d := by
  by_cases inPre : j < pre.length
  · rw [List.getD_append _ _ _ _ inPre, if_neg (by omega)]
  · rw [List.getD_append_right _ _ _ _ (by omega), List.getD_eq_default pre d (by omega : pre.length ≤ j)]
    by_cases inRun : j < pre.length + l
    · rw [if_pos ⟨by omega, inRun⟩, List.getD_replicate _ (by omega)]
    · rw [if_neg (by omega), List.getD_eq_default _ _ (by rw [List.length_replicate]; omega)]

theorem set_replicate {α : Type} {n k : Nat} (inside : k < n) (a b : α) :
    (List.replicate n a).set k b = List.replicate k a ++ b :: List.replicate (n - k - 1) a := by
  induction k generalizing n with
  | zero =>
    obtain ⟨n, rfl⟩ : ∃ m, n = m + 1 := ⟨n - 1, by omega⟩
    rw [List.replicate_succ, List.set_cons_zero, List.replicate_zero, List.nil_append, Nat.sub_zero,
      Nat.add_sub_cancel]
  | succ k ih =>
    obtain ⟨n, rfl⟩ : ∃ m, n = m + 1 := ⟨n - 1, by omega⟩
    rw [List.replicate_succ, List.set_cons_succ, ih (by omega), List.replicate_succ, List.cons_append,
      show n + 1 - (k + 1) - 1 = n - k - 1 by omega]

def bufferBit (p : List UInt8) (k : Nat) : Bool := (p.getD (k / 8) 0).toNat.testBit (k % 8)

def readField (p : List UInt8) (o w : Nat) : Nat :=
  (((p.getD (o / 8) 0).toNat >>> (o % 8)) ||| ((p.getD (o / 8 + 1) 0).toNat <<< (8 - o % 8))) &&& (2 ^ w - 1)

def setBits (b : UInt8) (mask v : Nat) : UInt8 := b &&& ~~~(UInt8.ofNat mask) ||| UInt8.ofNat v

def writeField (p : List UInt8) (o w v : Nat) : List UInt8 :=
  let byte := o / 8
  let fb := o % 8
  (p.set byte (setBits (p.getD byte 0) ((2 ^ w - 1) <<< fb) (v <<< fb))).set (byte + 1)
    (setBits (p.getD (byte + 1) 0) ((2 ^ w - 1) >>> (8 - fb)) (v >>> (8 - fb)))

section Bytes

theorem testBit_byte_of_le {b : UInt8} {s : Nat} (high : 8 ≤ s) : b.toNat.testBit s = false :=
  Nat.testBit_lt_two_pow (Nat.lt_of_lt_of_le b.toNat_lt (Nat.pow_le_pow_right (by decide) high))

theorem testBit_setBits (b : UInt8) (mask v : Nat) {s : Nat} (inside : s < 8) :
    (setBits b mask v).toNat.testBit s = (b.toNat.testBit s && !mask.testBit s || v.testBit s) := by
  have complement : (~~~UInt8.ofNat mask).toNat = 2 ^ 8 - (mask % 2 ^ 8 + 1) := by
    rw [UInt8.toNat_not, UInt8.toNat_ofNat', Nat.sub_sub, Nat.add_comm 1]
    rfl
  rw [setBits, UInt8.toNat_or, UInt8.toNat_and, complement, Nat.testBit_or, Nat.testBit_and,
    Nat.testBit_two_pow_sub_succ (Nat.mod_lt _ (by decide)), UInt8.toNat_ofNat', Nat.testBit_mod_two_pow,
    Nat.testBit_mod_two_pow]
  simp [inside]

theorem testBit_setBits_low (b : UInt8) {w v fb s : Nat} (fits : v < 2 ^ w) (inside : s < 8) :
    (setBits b ((2 ^ w - 1) <<< fb) (v <<< fb)).toNat.testBit s =
      if fb ≤ s ∧ s < fb + w then v.testBit (s - fb) else b.toNat.testBit s := by
  rw [testBit_setBits b _ _ inside, Nat.testBit_shiftLeft, Nat.testBit_shiftLeft,
    Nat.testBit_two_pow_sub_one]
  by_cases field : fb ≤ s ∧ s < fb + w
  · simp [field, show s - fb < w by omega]
  · rw [if_neg field]
    by_cases above : fb ≤ s
    · have outside : v.testBit (s - fb) = false := Nat.testBit_lt_two_pow
        (Nat.lt_of_lt_of_le fits (Nat.pow_le_pow_right (by decide) (by omega)))
      simp [above, outside, show ¬ s - fb < w by omega]
    · simp [above]

theorem testBit_setBits_high (b : UInt8) {w v fb s : Nat} (fits : v < 2 ^ w) (inside : s < 8) :
    (setBits b ((2 ^ w - 1) >>> (8 - fb)) (v >>> (8 - fb))).toNat.testBit s =
      if 8 - fb + s < w then v.testBit (8 - fb + s) else b.toNat.testBit s := by
  rw [testBit_setBits b _ _ inside, Nat.testBit_shiftRight, Nat.testBit_shiftRight,
    Nat.testBit_two_pow_sub_one]
  by_cases field : 8 - fb + s < w
  · simp [field]
  · have outside : v.testBit (8 - fb + s) = false := Nat.testBit_lt_two_pow
      (Nat.lt_of_lt_of_le fits (Nat.pow_le_pow_right (by decide) (by omega)))
    simp [field, outside]

theorem or_shiftLeft_and_of_lt {x y s m : Nat} (small : m < 2 ^ s) : (x ||| y <<< s) &&& m = x &&& m := by
  apply Nat.eq_of_testBit_eq
  intro i
  rw [Nat.testBit_and, Nat.testBit_and, Nat.testBit_or, Nat.testBit_shiftLeft]
  by_cases low : i < s
  · have below : decide (s ≤ i) = false := decide_eq_false (by omega)
    rw [below, Bool.false_and, Bool.or_false]
  · have above : m.testBit i = false :=
      Nat.testBit_lt_two_pow (Nat.lt_of_lt_of_le small (Nat.pow_le_pow_right (by decide) (by omega)))
    simp [above]

theorem shiftRight_shiftLeft_or_and (n k : Nat) : n >>> k <<< k ||| n &&& (2 ^ k - 1) = n := by
  apply Nat.eq_of_testBit_eq
  intro i
  rw [Nat.testBit_or, Nat.testBit_shiftLeft, Nat.testBit_and, Nat.testBit_two_pow_sub_one]
  by_cases low : i < k
  · have above : decide (k ≤ i) = false := decide_eq_false (by omega)
    rw [above, decide_eq_true low, Bool.false_and, Bool.false_or, Bool.and_true]
  · have back : k + (i - k) = i := by omega
    rw [decide_eq_true (by omega : k ≤ i), decide_eq_false low, Nat.testBit_shiftRight, back, Bool.and_false,
      Bool.or_false, Bool.true_and]

end Bytes

section Fields

variable {p : List UInt8} {o w : Nat}

theorem readField_lt (p : List UInt8) (o w : Nat) : readField p o w < 2 ^ w := by
  rw [readField, Nat.and_two_pow_sub_one_eq_mod]
  exact Nat.mod_lt _ (Nat.two_pow_pos w)

theorem testBit_readField (narrow : w ≤ 8) (t : Nat) :
    (readField p o w).testBit t = (decide (t < w) && bufferBit p (o + t)) := by
  rw [readField, Nat.testBit_and, Nat.testBit_two_pow_sub_one, Nat.testBit_or, Nat.testBit_shiftRight,
    Nat.testBit_shiftLeft, Bool.and_comm]
  by_cases short : t < w
  · -- the bit lies in the byte of `o` or in the next one
    have fb := Nat.mod_lt o (show 0 < 8 by decide)
    have split : o = 8 * (o / 8) + o % 8 := (Nat.div_add_mod o 8).symm
    simp only [short, decide_true, Bool.true_and, bufferBit]
    by_cases first : o % 8 + t < 8
    · have byte : (o + t) / 8 = o / 8 := by omega
      have bit : (o + t) % 8 = o % 8 + t := by omega
      simp [byte, bit, show ¬ t ≥ 8 - o % 8 by omega]
    · have byte : (o + t) / 8 = o / 8 + 1 := by omega
      have bit : (o + t) % 8 = t - (8 - o % 8) := by omega
      simp [byte, bit, show t ≥ 8 - o % 8 by omega, testBit_byte_of_le (show 8 ≤ o % 8 + t by omega)]
  · simp [short]

theorem readField_congr {q : List UInt8} (narrow : w ≤ 8) (same : ∀ t < w, bufferBit q (o + t) = bufferBit p (o + t)) :
    readField q o w = readField p o w := by
  apply Nat.eq_of_testBit_eq
  intro t
  rw [testBit_readField narrow, testBit_readField narrow]
  by_cases short : t < w
  · rw [same t short]
  · simp [short]

theorem readField_of_within (within : o % 8 + w ≤ 8) :
    readField p o w = ((p.getD (o / 8) 0).toNat >>> (o % 8)) &&& (2 ^ w - 1) := by
  apply Nat.eq_of_testBit_eq
  intro t
  rw [testBit_readField (by omega), Nat.testBit_and, Nat.testBit_shiftRight, Nat.testBit_two_pow_sub_one,
    Bool.and_comm, bufferBit]
  by_cases short : t < w
  · have byte : (o + t) / 8 = o / 8 := by omega
    have bit : (o + t) % 8 = o % 8 + t := by omega
    simp [short, byte, bit]
  · simp [short]

theorem bufferBit_writeField (narrow : w ≤ 8) {v : Nat} (fits : v < 2 ^ w) (room : o + w ≤ 8 * p.length)
    (k : Nat) :
    bufferBit (writeField p o w v) k = if o ≤ k ∧ k < o + w then v.testBit (k - o) else bufferBit p k := by
  have fb := Nat.mod_lt o (show 0 < 8 by decide)
  have split : o = 8 * (o / 8) + o % 8 := (Nat.div_add_mod o 8).symm
  have kSplit : k = 8 * (k / 8) + k % 8 := (Nat.div_add_mod k 8).symm
  have kb := Nat.mod_lt k (show 0 < 8 by decide)
  simp only [writeField, bufferBit, getD_set_eq, List.length_set]
  by_cases second : o / 8 + 1 = k / 8 ∧ o / 8 + 1 < p.length
  · -- the byte after the one holding bit `o`
    rw [if_pos second, testBit_setBits_high _ fits kb]
    by_cases field : 8 - o % 8 + k % 8 < w
    · rw [if_pos field, if_pos ⟨by omega, by omega⟩, show k - o = 8 - o % 8 + k % 8 by omega]
    · rw [if_neg field, if_neg (by omega), ← second.1]
  · rw [if_neg second]
    by_cases first : o / 8 = k / 8 ∧ o / 8 < p.length
    · rw [if_pos first, testBit_setBits_low _ fits kb]
      by_cases field : o % 8 ≤ k % 8 ∧ k % 8 < o % 8 + w
      · rw [if_pos field, if_pos ⟨by omega, by omega⟩, show k - o = k % 8 - o % 8 by omega]
      · rw [if_neg field, if_neg (by omega), first.1]
    · -- neither byte of the field holds bit `k`, or the one that does lies past the end
      rw [if_neg first, if_neg (by omega)]

theorem length_writeField (p : List UInt8) (o w v : Nat) : (writeField p o w v).length = p.length := by
  simp [writeField]

theorem readField_writeField_self (narrow : w ≤ 8) {v : Nat} (fits : v < 2 ^ w) (room : o + w ≤ 8 * p.length) :
    readField (writeField p o w v) o w = v := by
  apply Nat.eq_of_testBit_eq
  intro t
  rw [testBit_readField narrow, bufferBit_writeField narrow fits room]
  by_cases short : t < w
  · simp [short]
  · simp only [short, decide_false, Bool.false_and]
    exact (Nat.testBit_lt_two_pow (Nat.lt_of_lt_of_le fits (Nat.pow_le_pow_right (by decide) (by omega)))).symm

theorem readField_writeField_of_disjoint {o' w' : Nat} (narrow : w ≤ 8) (narrow' : w' ≤ 8) {v : Nat}
    (fits : v < 2 ^ w) (room : o + w ≤ 8 * p.length) (apart : o + w ≤ o' ∨ o' + w' ≤ o) :
    readField (writeField p o w v) o' w' = readField p o' w' := by
  apply readField_congr narrow'
  intro t short
  rw [bufferBit_writeField narrow fits room, if_neg (by omega)]

end Fields

section Tally

variable {α : Type} [DecidableEq α]

def tallyOne (h : α → Nat) (x : α) : α → Nat := Function.update h x (h x + 1)

theorem foldl_tallyOne (xs : List α) (h : α → Nat) (y : α) :
    xs.foldl tallyOne h y = h y + xs.count y := by
  induction xs generalizing h with
  | nil => simp
  | cons x xs ih =>
    rw [List.foldl_cons, ih, List.count_cons, tallyOne]
    by_cases same : y = x
    · subst same
      rw [Function.update_self, beq_self_eq_true, if_pos rfl]
      omega
    · have differ : (x == y) = false := beq_eq_false_iff_ne.mpr (Ne.symm same)
      rw [Function.update_of_ne same, differ]
      simp

theorem map_range_mul {β : Type} (f : Nat → β) (m n : Nat) :
    (List.range n).flatMap (fun j => (List.range m).map fun k => f (m * j + k)) = (List.range (m * n)).map f := by
  induction n with
  | zero => rfl
  | succ n ih =>
    rw [List.range_succ, List.flatMap_append, ih, List.flatMap_singleton, Nat.mul_succ, List.range_add,
      List.map_append, List.map_map]
    rfl

end Tally

end Foundations
