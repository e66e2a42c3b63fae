import Kv.Hashtable.Compact
import Kv.Hashtable.Table
import Mathlib.Algebra.Order.BigOperators.Group.List
import Mathlib.Algebra.Order.Group.Nat
import Mathlib.Data.Multiset.OrderedMonoid

/-!
The representation invariant of the hashtable: what each table holds, how its
counters and bucket placement relate to that, and the state of an incremental
rehash. `htContent` is the abstraction of a table state: the multiset of its
entries, each with its stored hash byte.
-/

set_option linter.dupNamespace false

namespace Kv.Hashtable

open Foundations

variable {α κ : Type}

section Access

@[simp] theorem setTable_tables_self (ht : Hashtable α) (i : Fin 2) (t : Table α) :
    (ht.setTable i t).tables i = t := by
  simp [Hashtable.setTable]

theorem setTable_tables_ne (ht : Hashtable α) {i j : Fin 2} (h : j ≠ i) (t : Table α) :
    (ht.setTable i t).tables j = ht.tables j := by
  simp [Hashtable.setTable, h]

@[simp] theorem setTable_rehashIdx (ht : Hashtable α) (i : Fin 2) (t : Table α) :
    (ht.setTable i t).rehashIdx = ht.rehashIdx := rfl

@[simp] theorem setTable_pauseRehash (ht : Hashtable α) (i : Fin 2) (t : Table α) :
    (ht.setTable i t).pauseRehash = ht.pauseRehash := rfl

@[simp] theorem setTable_pauseAutoShrink (ht : Hashtable α) (i : Fin 2) (t : Table α) :
    (ht.setTable i t).pauseAutoShrink = ht.pauseAutoShrink := rfl

@[simp] theorem setTable_isRehashing (ht : Hashtable α) (i : Fin 2) (t : Table α) :
    (ht.setTable i t).isRehashing = ht.isRehashing := rfl

@[simp] theorem setChain_exp (t : Table α) (idx : Nat) (c : List (Bucket α)) :
    (t.setChain idx c).exp = t.exp := rfl

@[simp] theorem setChain_used (t : Table α) (idx : Nat) (c : List (Bucket α)) :
    (t.setChain idx c).used = t.used := rfl

@[simp] theorem setChain_childBuckets (t : Table α) (idx : Nat) (c : List (Bucket α)) :
    (t.setChain idx c).childBuckets = t.childBuckets := rfl

theorem setChain_buckets {t : Table α} {bs : List (List (Bucket α))} (alloc : t.buckets = some bs)
    (idx : Nat) (c : List (Bucket α)) : (t.setChain idx c).buckets = some (bs.set idx c) := by
  simp [Table.setChain, alloc]

theorem chain_eq {t : Table α} {bs : List (List (Bucket α))} (alloc : t.buckets = some bs) {idx : Nat}
    (hidx : idx < bs.length) : t.chain idx = bs[idx] := by
  simp [Table.chain, alloc, List.getElem?_eq_getElem hidx]

theorem setChain_chain {t : Table α} {bs : List (List (Bucket α))} (alloc : t.buckets = some bs)
    {idx : Nat} (hidx : idx < bs.length) (c : List (Bucket α)) (j : Nat) :
    (t.setChain idx c).chain j = if j = idx then c else t.chain j := by
  simp only [Table.chain, setChain_buckets alloc, alloc, Option.getD_some]
  by_cases h : j = idx
  · subst h
    simp [hidx]
  · simp [h, Ne.symm h]

end Access

def tableContent (t : Table α) : Multiset (α × UInt8) :=
  ((t.buckets.getD []).map chainContent).sum

def htContent (ht : Hashtable α) : Multiset (α × UInt8) :=
  tableContent (ht.tables 0) + tableContent (ht.tables 1)

def childCount (t : Table α) : Nat :=
  ((t.buckets.getD []).map fun c => c.length - 1).sum

variable (T : HashtableType α κ)

def hashOf (entry : α) : UInt64 :=
  T.hashFunction (T.entryGetKey entry)

def Placed (exp : Int) (idx : Nat) (x : α × UInt8) : Prop :=
  (hashOf T x.1).toNat % 2 ^ exp.toNat = idx ∧ x.2 = highBits (hashOf T x.1)

structure TableValid (t : Table α) : Prop where
  unallocated : t.buckets = none → t.exp = -1
  allocated : ∀ bs, t.buckets = some bs → 0 ≤ t.exp ∧ t.exp ≤ 63 ∧ bs.length = 2 ^ t.exp.toNat
  chains : ∀ bs, t.buckets = some bs → ∀ c ∈ bs, ChainWF c
  used : t.used = Multiset.card (tableContent t)
  childBuckets : t.childBuckets = childCount t
  placed : ∀ idx, ∀ x ∈ chainContent (t.chain idx), Placed T t.exp idx x

structure RehashState (ht : Hashtable α) : Prop where
  idx_nonneg : 0 ≤ ht.rehashIdx
  idx_lt : ht.rehashIdx.toNat < numBuckets (ht.tables 0).exp
  alloc0 : (ht.tables 0).buckets.isSome
  alloc1 : (ht.tables 1).buckets.isSome
  done : ∀ i < ht.rehashIdx.toNat, ∃ b : Bucket α,
    (ht.tables 0).chain i = [b] ∧ b.presence = 0 ∧ b.chained = false

structure Valid (ht : Hashtable α) : Prop where
  table0 : TableValid T (ht.tables 0)
  table1 : TableValid T (ht.tables 1)
  idle : ht.rehashIdx = -1 → (ht.tables 1).buckets = none
  rehashing : ht.rehashIdx ≠ -1 → RehashState ht

section Replace

variable {T}

theorem tableContent_setChain {t : Table α} {bs : List (List (Bucket α))} (alloc : t.buckets = some bs)
    {idx : Nat} (hidx : idx < bs.length) (c : List (Bucket α)) :
    tableContent (t.setChain idx c) + chainContent bs[idx] = tableContent t + chainContent c := by
  simp only [tableContent, setChain_buckets alloc, alloc, Option.getD_some]
  exact sum_map_set chainContent bs hidx c

theorem childCount_setChain {t : Table α} {bs : List (List (Bucket α))} (alloc : t.buckets = some bs)
    {idx : Nat} (hidx : idx < bs.length) (c : List (Bucket α)) :
    childCount (t.setChain idx c) + (bs[idx].length - 1) = childCount t + (c.length - 1) := by
  simp only [childCount, setChain_buckets alloc, alloc, Option.getD_some]
  exact sum_map_set (fun c : List (Bucket α) => c.length - 1) bs hidx c

theorem TableValid.replaceChain {t : Table α} (valid : TableValid T t) {bs : List (List (Bucket α))}
    (alloc : t.buckets = some bs) {idx : Nat} (hidx : idx < bs.length) {c : List (Bucket α)}
    (wf : ChainWF c) (placed : ∀ x ∈ chainContent c, Placed T t.exp idx x) {t' : Table α}
    (buckets : t'.buckets = some (bs.set idx c)) (exp : t'.exp = t.exp)
    (used : t'.used + Multiset.card (chainContent bs[idx]) = t.used + Multiset.card (chainContent c))
    (child : t'.childBuckets + (bs[idx].length - 1) = t.childBuckets + (c.length - 1)) :
    TableValid T t' ∧ tableContent t' + chainContent bs[idx] = tableContent t + chainContent c := by
  have sameContent : tableContent t' = tableContent (t.setChain idx c) := by
    simp [tableContent, buckets, setChain_buckets alloc]
  have sameChild : childCount t' = childCount (t.setChain idx c) := by
    simp [childCount, buckets, setChain_buckets alloc]
  have content := tableContent_setChain alloc hidx c
  have children := childCount_setChain alloc hidx c
  have sameChain : ∀ j, t'.chain j = (t.setChain idx c).chain j := by
    intro j
    simp [Table.chain, buckets, setChain_buckets alloc]
  refine ⟨⟨by simp [buckets], ?_, ?_, ?_, ?_, ?_⟩, sameContent ▸ content⟩
  · intro bs' h
    rw [buckets] at h
    cases h
    obtain ⟨lo, hi, len⟩ := valid.allocated bs alloc
    exact ⟨exp ▸ lo, exp ▸ hi, by simp [len, exp]⟩
  · intro bs' h c' mem
    rw [buckets] at h
    cases h
    rcases List.mem_or_eq_of_mem_set mem with old | rfl
    · exact valid.chains bs alloc c' old
    · exact wf
  · have cardContent := congrArg Multiset.card content
    simp only [Multiset.card_add] at cardContent
    rw [sameContent, ← valid.used] at *
    omega
  · rw [sameChild]
    rw [valid.childBuckets] at child
    omega
  · intro j x mem
    rw [sameChain, setChain_chain alloc hidx] at mem
    rw [exp]
    split at mem
    · subst j
      exact placed x mem
    · exact valid.placed j x mem

theorem chainContent_le_tableContent {t : Table α} {bs : List (List (Bucket α))} (alloc : t.buckets = some bs)
    {idx : Nat} (hidx : idx < bs.length) : chainContent bs[idx] ≤ tableContent t := by
  simp only [tableContent, alloc, Option.getD_some]
  exact List.le_sum_of_mem (List.mem_map_of_mem (List.getElem_mem hidx))

theorem length_le_childCount {t : Table α} {bs : List (List (Bucket α))} (alloc : t.buckets = some bs)
    {idx : Nat} (hidx : idx < bs.length) : bs[idx].length - 1 ≤ childCount t := by
  simp only [childCount, alloc, Option.getD_some]
  exact List.le_sum_of_mem (List.mem_map_of_mem (f := fun c : List (Bucket α) => c.length - 1) (List.getElem_mem hidx))

theorem tableContent_eq_zero_of_empty {t : Table α} {bs : List (List (Bucket α))} (alloc : t.buckets = some bs)
    (empty : ∀ i < bs.length, ∃ b : Bucket α, t.chain i = [b] ∧ b.presence = 0) :
    tableContent t = 0 ∧ childCount t = 0 := by
  have each : ∀ c ∈ bs, ∃ b : Bucket α, c = [b] ∧ b.presence = 0 := by
    intro c mem
    obtain ⟨i, hi, rfl⟩ := List.getElem_of_mem mem
    obtain ⟨b, chain, zero⟩ := empty i hi
    exact ⟨b, by rw [← chain_eq alloc hi, chain], zero⟩
  constructor
  · simp only [tableContent, alloc, Option.getD_some]
    apply List.sum_eq_zero
    intro m mem
    obtain ⟨c, inBs, rfl⟩ := List.mem_map.mp mem
    obtain ⟨b, rfl, zero⟩ := each c inBs
    simp [(Bucket.content_eq_zero_iff b).mpr zero]
  · simp only [childCount, alloc, Option.getD_some]
    apply List.sum_eq_zero
    intro n mem
    obtain ⟨c, inBs, rfl⟩ := List.mem_map.mp mem
    obtain ⟨b, rfl, -⟩ := each c inBs
    rfl
end Replace

end Kv.Hashtable
