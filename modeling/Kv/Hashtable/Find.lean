import Kv.Hashtable.Resize
import Kv.Hashtable.Access

/-!
Lookup. What `findBucket` returns is a filled position whose entry matches
the key; and when the hash function is one of the key, `keyCompare` an
equivalence that the hash respects and no `validateEntry` callback hides
entries, it finds every entry whose key matches.
-/

set_option linter.dupNamespace false

namespace Kv.Hashtable

open Foundations

variable {α κ : Type} (T : HashtableType α κ)

def Matches (key : κ) (h2 : UInt8) (x : α × UInt8) : Prop :=
  x.2 = h2 ∧ checkCandidateInBucket T key x.1 = true

variable {T}

theorem findKeyInBucket_sound {b : Bucket α} {h2 : UInt8} {key : κ} {pos : Nat}
    (found : findKeyInBucket T b h2 key = some pos) :
    pos < numBucketPositions b ∧ isPositionFilled b pos = true ∧ Matches T key h2 (b.entries pos, b.hashes pos) := by
  have holds := List.find?_some found
  have inRange := List.mem_range.mp (List.mem_of_find?_eq_some found)
  simp only [Bool.and_eq_true, beq_iff_eq] at holds
  exact ⟨inRange, holds.1.1, holds.1.2, holds.2⟩

theorem findKeyInBucket_complete {b : Bucket α} {h2 : UInt8} {key : κ} {pos : Nat}
    (lt : pos < numBucketPositions b) (filled : isPositionFilled b pos = true)
    (hit : Matches T key h2 (b.entries pos, b.hashes pos)) :
    (findKeyInBucket T b h2 key).isSome := by
  cases found : findKeyInBucket T b h2 key with
  | some _ => rfl
  | none =>
    have missed := List.find?_eq_none.mp found pos (List.mem_range.mpr lt)
    have byte : b.hashes pos = h2 := hit.1
    have candidate : checkCandidateInBucket T key (b.entries pos) = true := hit.2
    simp [filled, byte, candidate] at missed

theorem findInChain_sound {h2 : UInt8} {key : κ} {ch : List (Bucket α)} {depth pos : Nat}
    (found : findInChain T h2 key ch = some (depth, pos)) :
    ∃ hd : depth < ch.length, pos < numBucketPositions ch[depth] ∧ isPositionFilled ch[depth] pos = true ∧
      Matches T key h2 (ch[depth].entries pos, ch[depth].hashes pos) := by
  induction ch generalizing depth with
  | nil => simp [findInChain] at found
  | cons b rest ih =>
    simp only [findInChain] at found
    split at found
    · -- a match in this bucket
      rename_i here
      cases found
      exact ⟨by simp, findKeyInBucket_sound here⟩
    · split at found
      · obtain ⟨⟨d, p⟩, deeper, same⟩ := Option.map_eq_some_iff.mp found
        cases same
        obtain ⟨hd, rest'⟩ := ih deeper
        exact ⟨by simp; omega, by simpa using rest'⟩
      · simp at found

theorem ChainWF.exists_position {ch : List (Bucket α)} (wf : ChainWF ch) {b : Bucket α} (inChain : b ∈ ch)
    {x : α × UInt8} (mem : x ∈ b.content) :
    ∃ q < numBucketPositions b, isPositionFilled b q = true ∧ (b.entries q, b.hashes q) = x := by
  obtain ⟨q, hq, slot⟩ := mem_slotContent.mp mem
  have filled : isPositionFilled b q = true := by
    by_contra empty
    simp [Bucket.slot, empty] at slot
  have entry : (b.entries q, b.hashes q) = x := by
    simpa [Bucket.slot, filled] using slot
  refine ⟨q, ?_, filled, entry⟩
  cases hc : b.chained
  · rw [numBucketPositions_unchained hc]
    exact hq
  · have lastFree := (wf.linked_of_chained inChain hc).2
    have notLast : q ≠ entriesPerBucket - 1 := fun h => by rw [h, lastFree] at filled; contradiction
    simp only [numBucketPositions_chained hc]
    simp only [entriesPerBucket] at hq notLast
    omega

theorem ChainWF.exists_depth {ch : List (Bucket α)} (wf : ChainWF ch) {x : α × UInt8} (mem : x ∈ chainContent ch) :
    ∃ depth, ∃ hd : depth < ch.length, ∃ q < numBucketPositions ch[depth],
      isPositionFilled ch[depth] q = true ∧ (ch[depth].entries q, ch[depth].hashes q) = x := by
  unfold chainContent at mem
  obtain ⟨b, inChain, inBucket⟩ := mem_sum_map.mp mem
  obtain ⟨depth, hd, rfl⟩ := List.getElem_of_mem inChain
  exact ⟨depth, hd, wf.exists_position inChain inBucket⟩

theorem findInChain_complete {h2 : UInt8} {key : κ} {ch : List (Bucket α)} (wf : ChainWF ch)
    {x : α × UInt8} (mem : x ∈ chainContent ch) (hit : Matches T key h2 x) :
    (findInChain T h2 key ch).isSome := by
  induction ch with
  | nil => simp at mem
  | cons b rest ih =>
    simp only [findInChain]
    split
    · rfl
    · rename_i missed
      rw [chainContent_cons, Multiset.mem_add] at mem
      rcases mem with here | later
      · -- an entry of this bucket that the scan of the bucket would have found
        obtain ⟨q, lt, filled, entry⟩ := wf.exists_position List.mem_cons_self here
        have := findKeyInBucket_complete lt filled (entry ▸ hit)
        rw [missed] at this
        contradiction
      · rcases wf.of_cons with ⟨rfl, -⟩ | ⟨linked, wfRest⟩
        · simp at later
        · simp [linked.1, ih wfRest later]

theorem mem_tableContent {t : Table α} {x : α × UInt8} :
    x ∈ tableContent t ↔ ∃ idx, x ∈ chainContent (t.chain idx) := by
  cases h : t.buckets with
  | none => simp [tableContent, Table.chain, h]
  | some bs =>
    simp only [tableContent, h, Option.getD_some, mem_sum_map]
    constructor
    · rintro ⟨ch, inBs, mem⟩
      obtain ⟨i, hi, rfl⟩ := List.getElem_of_mem inBs
      exact ⟨i, by rwa [chain_eq h hi]⟩
    · rintro ⟨idx, mem⟩
      rcases Nat.lt_or_ge idx bs.length with inside | outside
      · exact ⟨bs[idx], List.getElem_mem inside, by rwa [← chain_eq h inside]⟩
      · simp [Table.chain, h, List.getElem?_eq_none outside] at mem

variable (T) in
def Hit (ht : Hashtable α) (key : κ) (h2 : UInt8) (p : Position) : Prop :=
  ∃ b, ht.bucketAt p = some b ∧ p.pos < numBucketPositions b ∧ isPositionFilled b p.pos = true ∧
    Matches T key h2 (b.entries p.pos, b.hashes p.pos)

theorem Hit.mem {ht : Hashtable α} {key : κ} {h2 : UInt8} {p : Position} (hit : Hit T ht key h2 p) :
    ∃ b, ht.bucketAt p = some b ∧ (b.entries p.pos, b.hashes p.pos) ∈ tableContent (ht.tables p.table) ∧
      Matches T key h2 (b.entries p.pos, b.hashes p.pos) := by
  obtain ⟨b, at_p, lt, filled, hit⟩ := hit
  refine ⟨b, at_p, mem_tableContent.mpr ⟨p.index, ?_⟩, hit⟩
  obtain ⟨hd, rfl⟩ := List.getElem?_eq_some_iff.mp at_p
  have inBucket : (_ : α × UInt8) ∈ _ := Bucket.mem_content_of_filled _
    (List.mem_filter.mpr ⟨List.mem_range.mpr lt, filled⟩)
  unfold chainContent
  exact Multiset.mem_of_le (List.le_sum_of_mem (List.mem_map_of_mem (List.getElem_mem hd))) inBucket

theorem findInTable_sound {ht : Hashtable α} {hash : UInt64} {key : κ} {t : Fin 2} {p : Position}
    (found : findInTable T ht hash key t = some p) :
    p.table = t ∧ p.index = bucketIndex (ht.tables t) hash ∧ Hit T ht key (highBits hash) p := by
  simp only [findInTable] at found
  split at found
  · simp at found
  · split at found
    · simp at found
    · obtain ⟨⟨d, pos⟩, inChain, rfl⟩ := Option.map_eq_some_iff.mp found
      obtain ⟨hd, lt, filled, hit⟩ := findInChain_sound inChain
      exact ⟨rfl, rfl, _, List.getElem?_eq_getElem hd, lt, filled, hit⟩

theorem mem_htContent {ht : Hashtable α} {t : Fin 2} {x : α × UInt8} (mem : x ∈ tableContent (ht.tables t)) :
    x ∈ htContent ht := by
  match t with
  | 0 => exact Multiset.mem_add.mpr (.inl mem)
  | 1 => exact Multiset.mem_add.mpr (.inr mem)

theorem Valid.table {ht : Hashtable α} (valid : Valid T ht) (t : Fin 2) : TableValid T (ht.tables t) := by
  match t with
  | 0 => exact valid.table0
  | 1 => exact valid.table1

theorem findInTable_complete {ht : Hashtable α} (valid : Valid T ht) {t : Fin 2} {hash : UInt64} {key : κ}
    {x : α × UInt8} (mem : x ∈ tableContent (ht.tables t)) (hashed : hashOf T x.1 = hash)
    (candidate : checkCandidateInBucket T key x.1 = true) :
    (findInTable T ht hash key t).isSome := by
  have tv := valid.table t
  obtain ⟨idx, inChain⟩ := mem_tableContent.mp mem
  obtain ⟨index, byte⟩ := tv.placed idx x inChain
  obtain ⟨bs, alloc⟩ : ∃ bs, (ht.tables t).buckets = some bs := by
    cases h : (ht.tables t).buckets with
    | none => simp [Table.chain, h] at inChain
    | some bs => exact ⟨bs, rfl⟩
  have here : bucketIndex (ht.tables t) hash = idx := by
    rw [bucketIndex_eq (tv.allocated bs alloc).1, ← hashed, index]
  have counted : (ht.tables t).used ≠ 0 := by
    rw [tv.used]
    exact Multiset.card_pos_iff_exists_mem.mpr ⟨x, mem⟩ |>.ne'
  have notDone : ¬(t = 0 ∧ 0 ≤ ht.rehashIdx ∧ idx < ht.rehashIdx.toNat) := by
    rintro ⟨rfl, nonneg, below⟩
    obtain ⟨b, single, empty, -⟩ := (valid.rehashing (by omega)).done idx below
    rw [single, chainContent_cons, (Bucket.content_eq_zero_iff b).mpr empty] at inChain
    simp at inChain
  have wf : ChainWF ((ht.tables t).chain idx) := by
    have hidx : idx < bs.length := by
      rw [← here]
      exact tv.bucketIndex_lt alloc hash
    rw [chain_eq alloc hidx]
    exact tv.chains bs alloc _ (List.getElem_mem hidx)
  have found := findInChain_complete wf inChain ⟨by rw [byte, hashed], candidate⟩
  simp only [findInTable, here]
  rw [if_neg counted, if_neg notDone, Option.isSome_map]
  exact found

theorem htContent_eq_zero {ht : Hashtable α} (valid : Valid T ht) (empty : hashtableSize ht = 0) :
    htContent ht = 0 := by
  have used0 := valid.table0.used
  have used1 := valid.table1.used
  simp only [hashtableSize] at empty
  have empty0 : tableContent (ht.tables 0) = 0 := Multiset.card_eq_zero.mp (by omega)
  have empty1 : tableContent (ht.tables 1) = 0 := Multiset.card_eq_zero.mp (by omega)
  rw [htContent, empty0, empty1, add_zero]

section Lookup

variable [Inhabited α] (policy : ResizePolicy)

theorem findBucket_spec {ht : Hashtable α} (valid : Valid T ht) (hash : UInt64) (key : κ) :
    ∃ ht' res, findBucket T policy ht hash key = some (ht', res) ∧ Preserved T ht ht' ∧ (Ready ht → Ready ht') ∧
      (∀ p, res = some p → p.index = bucketIndex (ht'.tables p.table) hash ∧ Hit T ht' key (highBits hash) p) ∧
      (res = none → ∀ x ∈ htContent ht', hashOf T x.1 = hash → checkCandidateInBucket T key x.1 = false) := by
  unfold findBucket
  split
  · rename_i empty
    refine ⟨ht, none, rfl, Preserved.refl valid, id, by simp, fun _ x mem => ?_⟩
    rw [htContent_eq_zero valid empty] at mem
    simp at mem
  · obtain ⟨ht₁, step, preserved, ready⟩ := rehashStepOnReadIfNeeded_spec policy valid
    refine ⟨ht₁, _, by rw [step]; rfl, preserved, ready, ?_, ?_⟩
    · intro p found
      cases first : findInTable T ht₁ hash key 0 with
      | some p₀ =>
        rw [first] at found
        cases found
        obtain ⟨table, index, hit⟩ := findInTable_sound first
        exact ⟨table ▸ index, hit⟩
      | none =>
        rw [first] at found
        obtain ⟨table, index, hit⟩ := findInTable_sound (t := 1) found
        exact ⟨table ▸ index, hit⟩
    · intro none₀₁ x mem hashed
      by_contra candidate
      simp only [Bool.not_eq_false] at candidate
      -- the entry is in one of the tables, and the search of that table finds it
      rcases Multiset.mem_add.mp mem with in0 | in1
      · have := findInTable_complete preserved.valid in0 hashed candidate
        cases h : findInTable T ht₁ hash key 0 <;> simp_all
      · have := findInTable_complete preserved.valid in1 hashed candidate
        cases h : findInTable T ht₁ hash key 0 <;> simp_all

end Lookup

end Kv.Hashtable
