import Mathlib.Algebra.Group.Nat.Defs
import Kv.Foundations.BitString

/-!
The bit scans of bitops.c under BITCOUNT and BITPOS: bitsinbyteSum, the number of set bits of a
run of bytes that serverPopcount returns, and serverBitpos, the position of the first bit equal to a given one. serverBitpos
steps byte by byte up to an address aligned to a word, skips whole words of the byte it is not
looking for, and scans the next word bit by bit, its bytes read from the most significant on and
zeros past the end, so that for a zero bit a string of ones answers the position just past it.
Addresses are natural numbers and a word is eight bytes. bitsinbyteSum is the count of the table
loop of popcountScalar; Kv.Bitops.Popcount and Kv.Bitops.PopcountSimd model popcountScalar with its
28-byte loop, popcountAVX2, popcountNEON and the dispatch serverPopcount, and prove that each returns
this count.
-/

namespace Kv.Bitops

open Foundations

def bitsinbyteTable : List Nat :=
  [0, 1, 1, 2, 1, 2, 2, 3, 1, 2, 2, 3, 2, 3, 3, 4, 1, 2, 2, 3, 2, 3, 3, 4, 2, 3, 3, 4, 3, 4, 4, 5,
   1, 2, 2, 3, 2, 3, 3, 4, 2, 3, 3, 4, 3, 4, 4, 5, 2, 3, 3, 4, 3, 4, 4, 5, 3, 4, 4, 5, 4, 5, 5, 6,
   1, 2, 2, 3, 2, 3, 3, 4, 2, 3, 3, 4, 3, 4, 4, 5, 2, 3, 3, 4, 3, 4, 4, 5, 3, 4, 4, 5, 4, 5, 5, 6,
   2, 3, 3, 4, 3, 4, 4, 5, 3, 4, 4, 5, 4, 5, 5, 6, 3, 4, 4, 5, 4, 5, 5, 6, 4, 5, 5, 6, 5, 6, 6, 7,
   1, 2, 2, 3, 2, 3, 3, 4, 2, 3, 3, 4, 3, 4, 4, 5, 2, 3, 3, 4, 3, 4, 4, 5, 3, 4, 4, 5, 4, 5, 5, 6,
   2, 3, 3, 4, 3, 4, 4, 5, 3, 4, 4, 5, 4, 5, 5, 6, 3, 4, 4, 5, 4, 5, 5, 6, 4, 5, 5, 6, 5, 6, 6, 7,
   2, 3, 3, 4, 3, 4, 4, 5, 3, 4, 4, 5, 4, 5, 5, 6, 3, 4, 4, 5, 4, 5, 5, 6, 4, 5, 5, 6, 5, 6, 6, 7,
   3, 4, 4, 5, 4, 5, 5, 6, 4, 5, 5, 6, 5, 6, 6, 7, 4, 5, 5, 6, 5, 6, 6, 7, 5, 6, 6, 7, 6, 7, 7, 8]

def bitsinbyte (b : UInt8) : Nat :=
  bitsinbyteTable.getD b.toNat 0

def bitsinbyteSum (p : List UInt8) : Nat :=
  (p.map bitsinbyte).sum

def skipval (bit : Bool) : UInt8 :=
  if bit then 0 else 255

def bitposAlign (skip : UInt8) : Nat → List UInt8 → Nat → Bool × List UInt8 × Nat
  | _, [], pos => (false, [], pos)
  | addr, c :: rest, pos =>
    if addr % 8 = 0 then (false, c :: rest, pos)
    else if c ≠ skip then (true, c :: rest, pos)
    else bitposAlign skip (addr + 1) rest (pos + 8)

def bitposSkipWords (skip : UInt8) : List UInt8 → Nat → List UInt8 × Nat
  | c0 :: c1 :: c2 :: c3 :: c4 :: c5 :: c6 :: c7 :: rest, pos =>
    if [c0, c1, c2, c3, c4, c5, c6, c7].all (· == skip) then bitposSkipWords skip rest (pos + 64)
    else (c0 :: c1 :: c2 :: c3 :: c4 :: c5 :: c6 :: c7 :: rest, pos)
  | s, pos => (s, pos)

def bitposLoadWord (s : List UInt8) : UInt64 :=
  (List.range 8).foldl (fun word j => (word <<< 8) ||| (s.getD j 0).toUInt64) 0

def bitposScan (word : UInt64) (bit : Bool) : Nat → UInt64 → Nat → Option Nat
  | 0, _, _ => none
  | fuel + 1, one, pos =>
    if ((one &&& word) != 0) == bit then some pos
    else bitposScan word bit fuel (one >>> 1) (pos + 1)

def bitposLastWord (s : List UInt8) (bit : Bool) (pos : Nat) : Option Int :=
  let word := bitposLoadWord s
  if bit ∧ word = 0 then some (-1)
  else (bitposScan word bit 64 (~~~((0xFFFFFFFFFFFFFFFF : UInt64) >>> 1)) pos).map Int.ofNat

/-- serverBitpos(s, count, bit) for s at address addr. -/
def serverBitpos (addr : Nat) (s : List UInt8) (bit : Bool) : Option Int :=
  let (found, s, pos) := bitposAlign (skipval bit) addr s 0
  let (s, pos) := if found then (s, pos) else bitposSkipWords (skipval bit) s pos
  bitposLastWord s bit pos

def firstBitIn (s : List UInt8) (bit : Bool) (lo n : Nat) : Option Nat :=
  (List.range' lo n).find? (fun i => bitOf s i == bit)

def onesIn (s : List UInt8) (lo n : Nat) : Nat :=
  (List.range' lo n).countP (bitOf s)

section Bits

theorem bitOf_append_left {a : List UInt8} (b : List UInt8) {i : Nat} (inside : i < 8 * a.length) :
    bitOf (a ++ b) i = bitOf a i := by
  simp only [bitOf_def]
  rw [List.getD_append _ _ _ _ (by omega)]

theorem bitOf_append_right (a b : List UInt8) (j : Nat) : bitOf (a ++ b) (8 * a.length + j) = bitOf b j := by
  simp only [bitOf_def]
  rw [List.getD_append_right _ _ _ _ (by omega), show (8 * a.length + j) / 8 - a.length = j / 8 by omega,
    show (8 * a.length + j) % 8 = j % 8 by omega]

theorem bitOf_of_le {s : List UInt8} {i : Nat} (past : 8 * s.length ≤ i) : bitOf s i = false := by
  simp only [bitOf_def]
  rw [List.getD_eq_default _ _ (by omega)]
  simp

theorem bitOf_skipped (bit : Bool) {a : List UInt8} (skipped : ∀ c ∈ a, c = skipval bit) {i : Nat}
    (inside : i < 8 * a.length) : bitOf a i = !bit := by
  have byte : a.getD (i / 8) 0 = skipval bit := by
    rw [List.getD_eq_getElem _ _ (by omega)]
    exact skipped _ (List.getElem_mem _)
  simp only [bitOf_def]
  rw [byte]
  cases bit
  · have ones := Nat.testBit_two_pow_sub_one 8 (7 - i % 8)
    simp only [skipval, Bool.false_eq_true, if_false, Bool.not_false] at ones ⊢
    rw [show (255 : UInt8).toNat = 2 ^ 8 - 1 from rfl, ones]
    simp only [decide_eq_true_eq]
    omega
  · simp [skipval]

theorem bitOf_byte (s : List UInt8) (k : Nat) {t : Nat} (low : t < 8) :
    bitOf s (8 * k + t) = (s.getD k 0).toNat.testBit (7 - t) := by
  simp only [bitOf_def]
  rw [show (8 * k + t) / 8 = k by omega, show (8 * k + t) % 8 = t by omega]

theorem exists_testBit_of_ne_skipval (bit : Bool) (c : UInt8) (other : c ≠ skipval bit) :
    ∃ t < 8, c.toNat.testBit (7 - t) = bit := by
  have table : ∀ n < 256, (n ≠ (skipval bit).toNat) → ∃ t < 8, n.testBit (7 - t) = bit := by
    cases bit <;> decide +kernel
  exact table c.toNat c.toNat_lt (fun same => other (UInt8.toNat_inj.mp same))

end Bits

section First

variable {s : List UInt8} {bit : Bool} {lo n i : Nat}

theorem firstBitIn_eq_some : firstBitIn s bit lo n = some i ↔
    lo ≤ i ∧ i < lo + n ∧ bitOf s i = bit ∧ ∀ k, lo ≤ k → k < i → bitOf s k ≠ bit := by
  unfold firstBitIn
  rw [List.find?_range'_eq_some, List.mem_range'_1]
  simp only [beq_iff_eq, Bool.not_eq_true', beq_eq_false_iff_ne, ne_eq]
  tauto

theorem firstBitIn_eq_none : firstBitIn s bit lo n = none ↔ ∀ k, lo ≤ k → k < lo + n → bitOf s k ≠ bit := by
  unfold firstBitIn
  rw [List.find?_eq_none]
  simp only [List.mem_range'_1, beq_iff_eq]
  constructor
  · intro never k low high
    exact never k ⟨low, high⟩
  · intro never k ⟨low, high⟩
    exact never k low high

theorem firstBitIn_add (s : List UInt8) (bit : Bool) (lo m n : Nat) :
    firstBitIn s bit lo (m + n) = (firstBitIn s bit lo m).or (firstBitIn s bit (lo + m) n) := by
  unfold firstBitIn
  rw [← List.range'_append, List.find?_append, Nat.one_mul]

theorem find?_congr {α : Type} {p q : α → Bool} : ∀ {l : List α}, (∀ x ∈ l, p x = q x) → l.find? p = l.find? q
  | [], _ => rfl
  | x :: l, same => by
    rw [List.find?_cons, List.find?_cons, same x List.mem_cons_self,
      find?_congr fun y mem => same y (List.mem_cons_of_mem x mem)]

theorem firstBitIn_eq_map (s : List UInt8) (bit : Bool) (lo n : Nat) :
    firstBitIn s bit lo n = ((List.range n).find? fun j => bitOf s (lo + j) == bit).map (lo + ·) := by
  unfold firstBitIn
  rw [List.range'_eq_map_range, List.find?_map]
  rfl

theorem firstBitIn_shift {p q : List UInt8} {lo n : Nat} (bit : Bool) (same : ∀ j < n, bitOf p (lo + j) = bitOf q j) :
    firstBitIn p bit lo n = (firstBitIn q bit 0 n).map (lo + ·) := by
  unfold firstBitIn
  rw [List.range'_eq_map_range, List.find?_map, List.range_eq_range']
  congr 1
  apply find?_congr
  intro j mem
  rw [List.mem_range'_1] at mem
  simp [same j (by omega)]

theorem firstBitIn_skipped (bit : Bool) {a : List UInt8} (skipped : ∀ c ∈ a, c = skipval bit) (b : List UInt8) :
    firstBitIn (a ++ b) bit 0 (8 * (a ++ b).length) = (firstBitIn b bit 0 (8 * b.length)).map (8 * a.length + ·) := by
  have before : firstBitIn (a ++ b) bit 0 (8 * a.length) = none := by
    refine firstBitIn_eq_none.mpr (fun k _ high => ?_)
    rw [bitOf_append_left _ (by omega), bitOf_skipped bit skipped (by omega)]
    cases bit <;> decide
  rw [List.length_append, Nat.mul_add, firstBitIn_add, before, Option.none_or, Nat.zero_add,
    firstBitIn_shift bit fun j _ => bitOf_append_right a b j]

end First

section Word

theorem toNat_shiftLeft_eight_or (w : UInt64) (b : UInt8) (small : w.toNat < 2 ^ 56) :
    ((w <<< 8) ||| b.toUInt64).toNat = w.toNat * 256 + b.toNat := by
  have shifted : (w <<< 8).toNat = w.toNat * 256 := by
    rw [UInt64.toNat_shiftLeft, show (8 : UInt64).toNat % 64 = 8 from rfl, Nat.shiftLeft_eq,
      Nat.mod_eq_of_lt (by omega)]
  rw [UInt64.toNat_or, shifted, UInt8.toNat_toUInt64, show w.toNat * 256 = w.toNat <<< 8 by rw [Nat.shiftLeft_eq],
    ← Nat.shiftLeft_add_eq_or_of_lt b.toNat_lt]

theorem readBits_byte (s : List UInt8) (k : Nat) : readBits (fun j => bitOf s (8 * k + j)) 8 = (s.getD k 0).toNat := by
  have bits : ∀ j < 8, bitOf s (8 * k + j) = (s.getD k 0).toNat.testBit (8 - 1 - j) :=
    fun j low => bitOf_byte s k low
  rw [readBits_congr bits, readBits_testBit, Nat.mod_eq_of_lt (UInt8.toNat_lt _)]

theorem toNat_loadTurns (s : List UInt8) : ∀ k ≤ 8,
    ((List.range k).foldl (fun (word : UInt64) j => (word <<< 8) ||| (s.getD j 0).toUInt64) 0).toNat =
      readBits (bitOf s) (8 * k)
  | 0, _ => rfl
  | k + 1, bound => by
    have before := toNat_loadTurns s k (by omega)
    have small : readBits (bitOf s) (8 * k) < 2 ^ 56 :=
      Nat.lt_of_lt_of_le (readBits_lt _ _) (Nat.pow_le_pow_right (by decide) (by omega))
    rw [List.range_succ, List.foldl_append, List.foldl_cons, List.foldl_nil, toNat_shiftLeft_eight_or _ _ (before ▸ small),
      before, show 8 * (k + 1) = 8 * k + 8 by omega, readBits_add, readBits_byte]
    rfl

theorem testBit_bitposLoadWord (s : List UInt8) {j : Nat} (low : j < 64) :
    (bitposLoadWord s).toNat.testBit (64 - 1 - j) = bitOf s j := by
  rw [bitposLoadWord, toNat_loadTurns s 8 (by decide), testBit_readBits]
  simp only [show 64 - 1 - j < 8 * 8 by omega, decide_true, Bool.true_and]
  congr 1
  omega

theorem bitposLoadWord_eq_zero (s : List UInt8) (zeros : ∀ j < 64, bitOf s j = false) : bitposLoadWord s = 0 := by
  apply UInt64.toNat_inj.mp
  apply Nat.eq_of_testBit_eq
  intro k
  rw [bitposLoadWord, toNat_loadTurns s 8 (by decide), testBit_readBits]
  by_cases low : k < 8 * 8
  · simp [low, zeros _ (show 8 * 8 - 1 - k < 64 by omega)]
  · simp [low]

theorem bitposScan_find (word : UInt64) (bit : Bool) : ∀ (fuel : Nat) (f : Nat → Bool) (one : UInt64) (pos : Nat),
    (∀ j < fuel, word.toNat.testBit (fuel - 1 - j) = f j) → one.toNat = 2 ^ fuel / 2 →
      bitposScan word bit fuel one pos = ((List.range fuel).find? (fun j => f j == bit)).map (pos + ·)
  | 0, _, _, _, _, _ => rfl
  | fuel + 1, f, one, pos, bits, top => by
    have selects : ((one &&& word) != 0) = f 0 := by
      have value : (one &&& word).toNat = 2 ^ fuel * (word.toNat.testBit fuel).toNat := by
        rw [UInt64.toNat_and, top, Nat.pow_succ, Nat.mul_div_cancel _ (by decide), Nat.two_pow_and]
      rw [← bits 0 (by omega), show fuel + 1 - 1 - 0 = fuel by omega]
      cases t : word.toNat.testBit fuel
      · rw [t, Bool.toNat_false, Nat.mul_zero] at value
        simp [← UInt64.toNat_inj, value]
      · rw [t, Bool.toNat_true, Nat.mul_one] at value
        simp [← UInt64.toNat_inj, value]
    have next : (one >>> 1).toNat = 2 ^ fuel / 2 := by
      rw [UInt64.toNat_shiftRight, top, show (1 : UInt64).toNat % 64 = 1 from rfl, Nat.shiftRight_eq_div_pow,
        Nat.pow_one, Nat.pow_succ, Nat.mul_div_cancel _ (by decide)]
    have rest := bitposScan_find word bit fuel (fun j => f (j + 1)) (one >>> 1) (pos + 1)
      (fun j low => by rw [← bits (j + 1) (by omega)]; congr 1; omega) next
    rw [bitposScan, selects, List.range_succ_eq_map, List.find?_cons]
    cases first : f 0 == bit
    · simp only [Bool.false_eq_true, if_false, rest, List.find?_map, Option.map_map]
      congr 1
      funext j
      simp only [Function.comp, Nat.succ_eq_add_one]
      omega
    · simp

end Word

section Skip

def Skipped (skip : UInt8) (s rest : List UInt8) (pos pos' : Nat) : Prop :=
  ∃ a, s = a ++ rest ∧ (∀ c ∈ a, c = skip) ∧ pos' = pos + 8 * a.length

def Stopped (skip : UInt8) (rest : List UInt8) : Prop :=
  rest.length < 8 ∨ ∃ k < 8, rest.getD k 0 ≠ skip

variable {skip : UInt8}

namespace Skipped

theorem refl (s : List UInt8) (pos : Nat) : Skipped skip s s pos pos :=
  ⟨[], rfl, by simp, by simp⟩

theorem append {a s rest : List UInt8} {pos pos' : Nat} (same : ∀ c ∈ a, c = skip)
    (after : Skipped skip s rest (pos + 8 * a.length) pos') : Skipped skip (a ++ s) rest pos pos' := by
  obtain ⟨b, rfl, sameB, rfl⟩ := after
  refine ⟨a ++ b, by simp, ?_, by simp; omega⟩
  intro c mem
  rcases List.mem_append.mp mem with inA | inB
  · exact same c inA
  · exact sameB c inB

theorem trans {s mid rest : List UInt8} {pos mid' pos' : Nat} (first : Skipped skip s mid pos mid')
    (second : Skipped skip mid rest mid' pos') : Skipped skip s rest pos pos' := by
  obtain ⟨a, rfl, same, rfl⟩ := first
  exact append same second

end Skipped

theorem bitposAlign_spec (skip : UInt8) : ∀ (addr : Nat) (s : List UInt8) (pos : Nat),
    Skipped skip s (bitposAlign skip addr s pos).2.1 pos (bitposAlign skip addr s pos).2.2 ∧
      ((bitposAlign skip addr s pos).1 = true → Stopped skip (bitposAlign skip addr s pos).2.1)
  | _, [], pos => ⟨Skipped.refl [] pos, fun found => absurd found (by simp [bitposAlign])⟩
  | addr, c :: rest, pos => by
    unfold bitposAlign
    split_ifs with aligned other
    · exact ⟨Skipped.refl _ pos, fun found => absurd found (by simp)⟩
    · exact ⟨Skipped.refl _ pos, fun _ => .inr ⟨0, by decide, by simpa using other⟩⟩
    · obtain ⟨skipped, stopped⟩ := bitposAlign_spec skip (addr + 1) rest (pos + 8)
      refine ⟨?_, stopped⟩
      have same : ∀ b ∈ [c], b = skip := by simpa using other
      exact Skipped.append same skipped

theorem bitposSkipWords_spec (skip : UInt8) (s : List UInt8) (pos : Nat) :
    Skipped skip s (bitposSkipWords skip s pos).1 pos (bitposSkipWords skip s pos).2 ∧
      Stopped skip (bitposSkipWords skip s pos).1 := by
  fun_induction bitposSkipWords skip s pos with
  | case1 c0 c1 c2 c3 c4 c5 c6 c7 rest pos whole ih =>
    -- a whole word skipped
    obtain ⟨skipped, stopped⟩ := ih
    have same : ∀ b ∈ [c0, c1, c2, c3, c4, c5, c6, c7], b = skip := by simpa using whole
    exact ⟨Skipped.append same skipped, stopped⟩
  | case2 c0 c1 c2 c3 c4 c5 c6 c7 rest pos other =>
    refine ⟨Skipped.refl _ pos, .inr ?_⟩
    simp only [List.all_cons, List.all_nil, beq_iff_eq, Bool.and_true, Bool.and_eq_true, not_and_or] at other
    rcases other with o | o | o | o | o | o | o | o
    · exact ⟨0, by decide, o⟩
    · exact ⟨1, by decide, o⟩
    · exact ⟨2, by decide, o⟩
    · exact ⟨3, by decide, o⟩
    · exact ⟨4, by decide, o⟩
    · exact ⟨5, by decide, o⟩
    · exact ⟨6, by decide, o⟩
    · exact ⟨7, by decide, o⟩
  | case3 s pos short =>
    -- less than a word left
    refine ⟨Skipped.refl s pos, .inl ?_⟩
    rcases s with _ | ⟨c0, _ | ⟨c1, _ | ⟨c2, _ | ⟨c3, _ | ⟨c4, _ | ⟨c5, _ | ⟨c6, _ | ⟨c7, rest⟩⟩⟩⟩⟩⟩⟩⟩
    all_goals simp
    exact absurd (short c0 c1 c2 c3 c4 c5 c6 c7 rest rfl) id

end Skip

section Spec

theorem firstBitIn_stopped (bit : Bool) {rest : List UInt8} (stopped : Stopped (skipval bit) rest) :
    (∃ j, firstBitIn rest bit 0 64 = some j ∧ firstBitIn rest bit 0 (8 * rest.length) = some j) ∨
    (bit = false ∧ firstBitIn rest bit 0 64 = some (8 * rest.length) ∧
      firstBitIn rest bit 0 (8 * rest.length) = none) ∨
    (bit = true ∧ firstBitIn rest bit 0 (8 * rest.length) = none ∧ ∀ j < 64, bitOf rest j = false) := by
  cases word : firstBitIn rest bit 0 64 with
  | some j =>
    obtain ⟨-, high, hit, before⟩ := firstBitIn_eq_some.mp word
    by_cases inside : j < 8 * rest.length
    · exact .inl ⟨j, rfl, firstBitIn_eq_some.mpr ⟨Nat.zero_le _, by omega, hit, before⟩⟩
    · -- past the rest the word is zero padding: its first bit is the answer
      have zero : bit = false := by rw [← hit, bitOf_of_le (by omega)]
      have edge : j = 8 * rest.length := by
        by_contra apart
        exact before (8 * rest.length) (Nat.zero_le _) (by omega) (by rw [bitOf_of_le le_rfl, zero])
      subst edge
      exact .inr (.inl ⟨zero, rfl, firstBitIn_eq_none.mpr fun k _ high => before k (Nat.zero_le _) (by omega)⟩)
  | none =>
    have never := firstBitIn_eq_none.mp word
    have short : rest.length < 8 := by
      rcases stopped with short | ⟨k, low, other⟩
      · exact short
      · obtain ⟨t, small, hitT⟩ := exists_testBit_of_ne_skipval bit _ other
        exact absurd (by rw [bitOf_byte rest k small, hitT]) (never (8 * k + t) (Nat.zero_le _) (by omega))
    have one : bit = true := by
      cases bit
      · exact absurd (bitOf_of_le le_rfl) (never (8 * rest.length) (Nat.zero_le _) (by omega))
      · rfl
    subst one
    refine .inr (.inr ⟨rfl, firstBitIn_eq_none.mpr fun k _ high => never k (Nat.zero_le _) (by omega), ?_⟩)
    intro j low
    simpa using never j (Nat.zero_le _) (by omega)

theorem bitposLastWord_spec (bit : Bool) {rest : List UInt8} (stopped : Stopped (skipval bit) rest) (pos : Nat) :
    bitposLastWord rest bit pos = some (match firstBitIn rest bit 0 (8 * rest.length) with
      | some j => ((pos + j : Nat) : Int)
      | none => if bit then -1 else ((pos + 8 * rest.length : Nat) : Int)) := by
  have scan : bitposScan (bitposLoadWord rest) bit 64 (~~~((0xFFFFFFFFFFFFFFFF : UInt64) >>> 1)) pos =
      (firstBitIn rest bit 0 64).map (pos + ·) := by
    rw [bitposScan_find _ bit 64 (bitOf rest) _ pos (fun j low => testBit_bitposLoadWord rest low) (by decide),
      firstBitIn, List.range_eq_range']
  rcases firstBitIn_stopped bit stopped with ⟨j, word, first⟩ | ⟨zero, word, first⟩ | ⟨one, first, zeros⟩
  · -- a bit of the rest
    have hit := (firstBitIn_eq_some.mp word).2.2.1
    have live : ¬(bit = true ∧ bitposLoadWord rest = 0) := by
      rintro ⟨one, zero⟩
      have set := testBit_bitposLoadWord rest (show j < 64 from (firstBitIn_eq_some.mp word).2.1)
      rw [zero, hit, one] at set
      simp at set
    simp [bitposLastWord, live, scan, word, first]
  · -- a zero bit just past the rest
    subst zero
    simp [bitposLastWord, scan, word, first]
  · -- no one bit at all
    subst one
    simp [bitposLastWord, bitposLoadWord_eq_zero rest zeros, first]

theorem serverBitpos_spec (addr : Nat) (s : List UInt8) (bit : Bool) :
    serverBitpos addr s bit = some (match firstBitIn s bit 0 (8 * s.length) with
      | some i => (i : Int)
      | none => if bit then -1 else ((8 * s.length : Nat) : Int)) := by
  have reached : ∃ rest pos, Skipped (skipval bit) s rest 0 pos ∧ Stopped (skipval bit) rest ∧
      serverBitpos addr s bit = bitposLastWord rest bit pos := by
    obtain ⟨aligned, stops⟩ := bitposAlign_spec (skipval bit) addr s 0
    unfold serverBitpos
    generalize bitposAlign (skipval bit) addr s 0 = r at aligned stops ⊢
    obtain ⟨found, rest, pos⟩ := r
    cases found
    · obtain ⟨words, stopped⟩ := bitposSkipWords_spec (skipval bit) rest pos
      exact ⟨_, _, aligned.trans words, stopped, rfl⟩
    · exact ⟨rest, pos, aligned, stops rfl, rfl⟩
  obtain ⟨rest, pos, ⟨a, rfl, same, rfl⟩, stopped, reads⟩ := reached
  rw [reads, bitposLastWord_spec bit stopped, firstBitIn_skipped bit same rest]
  cases firstBitIn rest bit 0 (8 * rest.length) with
  | some j => simp
  | none => simp [List.length_append, Nat.mul_add]

example : serverBitpos 3 [255, 255, 255, 255, 255, 255, 255, 255, 255, 255, 255, 240] false = some 92 := by
  decide

theorem onesIn_add (s : List UInt8) (lo m n : Nat) : onesIn s lo (m + n) = onesIn s lo m + onesIn s (lo + m) n := by
  unfold onesIn
  rw [← List.range'_append, List.countP_append, Nat.one_mul]

theorem onesIn_congr {p q : List UInt8} {lo lo' n : Nat} (same : ∀ j < n, bitOf p (lo + j) = bitOf q (lo' + j)) :
    onesIn p lo n = onesIn q lo' n := by
  unfold onesIn
  rw [List.range'_eq_map_range, List.range'_eq_map_range, List.countP_map, List.countP_map]
  apply List.countP_congr
  intro j mem
  rw [List.mem_range] at mem
  simp [same j mem]

theorem bitOf_slice (p : List UInt8) (s n : Nat) {j : Nat} (inside : j < 8 * n) :
    bitOf ((p.drop s).take n) j = bitOf p (8 * s + j) := by
  simp only [bitOf_def]
  rw [List.getD_eq_getElem?_getD, List.getElem?_take, if_pos (by omega), List.getElem?_drop,
    ← List.getD_eq_getElem?_getD, show (8 * s + j) / 8 = s + j / 8 by omega, show (8 * s + j) % 8 = j % 8 by omega]

theorem firstBitIn_slice (p : List UInt8) (bit : Bool) (s n : Nat) :
    firstBitIn p bit (8 * s) (8 * n) = (firstBitIn ((p.drop s).take n) bit 0 (8 * n)).map (8 * s + ·) :=
  firstBitIn_shift bit fun _ low => (bitOf_slice p s n low).symm

theorem bitsinbyte_eq (c : UInt8) : bitsinbyte c = onesIn [c] 0 8 := by
  have table : ∀ n < 256, bitsinbyteTable.getD n 0 = (List.range' 0 8).countP (fun t => n.testBit (7 - t)) := by
    decide +kernel
  have bits : ∀ t ∈ List.range' 0 8, bitOf [c] t = c.toNat.testBit (7 - t) := by
    intro t mem
    rw [List.mem_range'_1] at mem
    simpa using bitOf_byte [c] 0 (t := t) (by omega)
  rw [bitsinbyte, table c.toNat c.toNat_lt, onesIn]
  exact List.countP_congr fun t mem => by rw [bits t mem]

theorem bitsinbyteSum_eq (p : List UInt8) : bitsinbyteSum p = onesIn p 0 (8 * p.length) := by
  induction p with
  | nil => rfl
  | cons c p ih =>
    have split : onesIn (c :: p) 0 (8 * (p.length + 1)) = onesIn ([c] ++ p) 0 8 + onesIn ([c] ++ p) (8 * [c].length) (8 * p.length) := by
      rw [show 8 * (p.length + 1) = 8 + 8 * p.length by omega, onesIn_add]
      rfl
    have first : onesIn ([c] ++ p) 0 8 = onesIn [c] 0 8 := by
      unfold onesIn
      exact List.countP_congr fun t mem => by
        rw [List.mem_range'_1] at mem
        rw [bitOf_append_left _ (by simp; omega)]
    rw [bitsinbyteSum, List.map_cons, List.sum_cons, ← bitsinbyteSum, ih, List.length_cons, split, first,
      @onesIn_congr ([c] ++ p) p (8 * [c].length) 0 (8 * p.length) fun j _ => by
        rw [Nat.zero_add]; exact bitOf_append_right [c] p j,
      bitsinbyte_eq]

theorem bitsinbyteSum_slice (p : List UInt8) {s n : Nat} (fits : s + n ≤ p.length) :
    bitsinbyteSum ((p.drop s).take n) = onesIn p (8 * s) (8 * n) := by
  have size : ((p.drop s).take n).length = n := by simp; omega
  rw [bitsinbyteSum_eq, size, @onesIn_congr p _ (8 * s) 0 (8 * n) fun j low => by
    rw [Nat.zero_add]; exact (bitOf_slice p s n low).symm]

end Spec

end Kv.Bitops
