import Kv.Hashtable.Insert

/-!
Incremental rehashing. One `rehashStep` moves the entries of the chain at
`rehash_idx` from table 0 into table 1, empties that chain and moves
`rehash_idx` on; when table 0 is empty the tables are swapped. Every step keeps
`Valid` and the content of the hashtable, and makes progress, so
`rehashUntilDone` finishes within the number of buckets of table 0.
-/

set_option linter.dupNamespace false

namespace Kv.Hashtable

open Foundations

variable {α κ : Type}

section Moves

variable (T : HashtableType α κ)

structure Moved (ht ht' : Hashtable α) (m : Multiset (α × UInt8)) : Prop where
  rehashIdx : ht'.rehashIdx = ht.rehashIdx
  pauseRehash : ht'.pauseRehash = ht.pauseRehash
  pauseAutoShrink : ht'.pauseAutoShrink = ht.pauseAutoShrink
  table0 : ht'.tables 0 = { ht.tables 0 with used := (ht.tables 0).used - Multiset.card m }
  valid1 : TableValid T (ht'.tables 1)
  exp1 : (ht'.tables 1).exp = (ht.tables 1).exp
  alloc1 : (ht'.tables 1).buckets.isSome
  content1 : tableContent (ht'.tables 1) = m + tableContent (ht.tables 1)

variable {T}

theorem Moved.refl {ht : Hashtable α} (valid1 : TableValid T (ht.tables 1))
    (alloc1 : (ht.tables 1).buckets.isSome) : Moved T ht ht 0 :=
  ⟨rfl, rfl, rfl, by simp, valid1, rfl, alloc1, by simp⟩

theorem Moved.trans {ht ht₁ ht₂ : Hashtable α} {m₁ m₂ : Multiset (α × UInt8)}
    (first : Moved T ht ht₁ m₁) (second : Moved T ht₁ ht₂ m₂) : Moved T ht ht₂ (m₁ + m₂) := by
  refine ⟨second.rehashIdx.trans first.rehashIdx, second.pauseRehash.trans first.pauseRehash,
    second.pauseAutoShrink.trans first.pauseAutoShrink, ?_, second.valid1,
    second.exp1.trans first.exp1, second.alloc1, ?_⟩
  · rw [second.table0, first.table0, Multiset.card_add, Nat.sub_sub]
  · rw [second.content1, first.content1, add_comm m₁ m₂, add_assoc]

theorem Moved.isRehashing {ht ht' : Hashtable α} {m : Multiset (α × UInt8)} (moved : Moved T ht ht' m) :
    ht'.isRehashing = ht.isRehashing := by
  simp [Hashtable.isRehashing, moved.rehashIdx]

section Entry

variable [Inhabited α]

theorem rehashEntry_spec {ht : Hashtable α} (rehashing : ht.isRehashing = true)
    (valid1 : TableValid T (ht.tables 1)) (alloc1 : (ht.tables 1).buckets.isSome) (hash : UInt64)
    {e : α} {h2 : UInt8} (placed : Placed T (ht.tables 1).exp (bucketIndex (ht.tables 1) hash) (e, h2)) :
    ∃ ht', rehashEntry ht e hash h2 = some ht' ∧ Moved T ht ht' {(e, h2)} := by
  have table : (if ht.isRehashing then (1 : Fin 2) else 0) = 1 := by simp [rehashing]
  obtain ⟨ht₁, p, tb, find, -, filled, valid', used, exp, alloc, content⟩ :=
    findBucketForInsert_fill table valid1 alloc1 hash placed
  have ne : (0 : Fin 2) ≠ 1 := by decide
  refine ⟨((ht.setTable 1 tb).modifyTable 0 fun t => { t with used := t.used - 1 }).modifyTable 1
      fun t => { t with used := t.used + 1 }, by simp [rehashEntry, find, filled], rfl, rfl, rfl,
    ?_, ?_, ?_, ?_, ?_⟩
  · simp [Hashtable.modifyTable_tables, setTable_tables_ne _ ne]
  · simpa [Hashtable.modifyTable_tables] using valid'
  · simpa [Hashtable.modifyTable_tables] using exp
  · simpa [Hashtable.modifyTable_tables] using alloc
  · simpa [Hashtable.modifyTable_tables, tableContent] using content

theorem rehashEntries_spec (entries : List α) {ht : Hashtable α} (rehashing : ht.isRehashing = true)
    (valid1 : TableValid T (ht.tables 1)) (alloc1 : (ht.tables 1).buckets.isSome) :
    ∃ ht', rehashEntries T ht entries = some ht' ∧
      Moved T ht ht' (entries.map fun e => (e, highBits (hashOf T e)) : List _) := by
  induction entries generalizing ht with
  | nil => exact ⟨ht, rfl, by simpa using Moved.refl valid1 alloc1⟩
  | cons e rest ih =>
    -- the entry goes to the chain its own hash selects in table 1
    have placed : Placed T (ht.tables 1).exp (bucketIndex (ht.tables 1) (hashOf T e))
        (e, highBits (hashOf T e)) := by
      obtain ⟨bs, alloc⟩ := Option.isSome_iff_exists.mp alloc1
      exact ⟨(bucketIndex_eq (valid1.allocated bs alloc).1 _).symm, rfl⟩
    obtain ⟨ht₁, first, moved₁⟩ := rehashEntry_spec rehashing valid1 alloc1 (hashOf T e) placed
    obtain ⟨ht₂, others, moved₂⟩ := ih (moved₁.isRehashing ▸ rehashing) moved₁.valid1 moved₁.alloc1
    refine ⟨ht₂, ?_, by simpa using moved₁.trans moved₂⟩
    simp only [hashOf] at first
    simp only [rehashEntries] at others ⊢
    rw [List.foldlM_cons, first]
    exact others

end Entry

theorem Bucket.mem_content_of_filled (b : Bucket α) {p : Nat} (mem : p ∈ filledPositions b) :
    (b.entries p, b.hashes p) ∈ b.content := by
  simp only [filledPositions, List.mem_filter, List.mem_range] at mem
  have lt : p < entriesPerBucket := Nat.lt_of_lt_of_le mem.1 (numBucketPositions_le b)
  exact mem_slotContent.mpr ⟨p, lt, by simp [Bucket.slot, mem.2]⟩

theorem Bucket.content_eq_filled (b : Bucket α)
    (slot : b.chained = true → isPositionFilled b (entriesPerBucket - 1) = false) :
    b.content = ((filledPositions b).map fun p => (b.entries p, b.hashes p) : List (α × UInt8)) := by
  have positions : b.content = slotContent (numBucketPositions b) b.slot := by
    cases hc : b.chained
    · rw [numBucketPositions_unchained hc]
      rfl
    · -- a chained bucket keeps its last position free for the child pointer
      have lastFree : b.slot 6 = none := by
        simp [Bucket.slot, show isPositionFilled b 6 = false from slot hc]
      rw [Bucket.content, numBucketPositions_chained hc, show entriesPerBucket = 6 + 1 from rfl,
        slotContent_succ, lastFree]
      simp
  rw [positions]
  exact slotContent_ite _ _ _

def walkEntries : List (Bucket α) → List α
  | [] => []
  | b :: rest => (filledPositions b).map b.entries ++ if b.chained then walkEntries rest else []

theorem fetchEntriesForExpand_walk (count : Nat) (c : List (Bucket α)) :
    (fetchEntriesForExpand count c).1 ++ walkEntries (fetchEntriesForExpand count c).2 = walkEntries c := by
  induction count generalizing c with
  | zero => simp [fetchEntriesForExpand]
  | succ count ih =>
    cases c with
    | nil => simp [fetchEntriesForExpand, walkEntries]
    | cons b rest =>
      have next := ih (if b.chained then rest else [])
      simp only [fetchEntriesForExpand, List.append_assoc, next, walkEntries]
      cases b.chained <;> simp [walkEntries]

theorem walkEntries_content {c : List (Bucket α)} (wf : ChainWF c)
    (stored : ∀ x ∈ chainContent c, x.2 = highBits (hashOf T x.1)) :
    (((walkEntries c).map fun e => (e, highBits (hashOf T e)) : List (α × UInt8)) : Multiset _) =
      chainContent c := by
  induction c with
  | nil => rfl
  | cons b rest ih =>
    have slot : b.chained = true → isPositionFilled b (entriesPerBucket - 1) = false :=
      fun chained => (wf.linked_of_chained (by simp) chained).2
    have bucket : ((((filledPositions b).map b.entries).map fun e => (e, highBits (hashOf T e)) :
        List (α × UInt8)) : Multiset _) = b.content := by
      rw [Bucket.content_eq_filled b slot, List.map_map]
      congr 1
      apply List.map_congr_left
      intro p mem
      have inChain : (b.entries p, b.hashes p) ∈ chainContent (b :: rest) := by
        rw [chainContent_cons]
        exact Multiset.mem_add.mpr (.inl (Bucket.mem_content_of_filled b mem))
      have byte : b.hashes p = highBits (hashOf T (b.entries p)) := stored _ inChain
      simp [byte]
    rcases wf.of_cons with ⟨rfl, unchained⟩ | ⟨linked, wfRest⟩
    · simp [walkEntries, unchained, ← bucket]
    · have restStored : ∀ x ∈ chainContent rest, x.2 = highBits (hashOf T x.1) := by
        intro x mem
        apply stored x
        rw [chainContent_cons]
        exact Multiset.mem_add.mpr (.inr mem)
      rw [walkEntries, if_pos linked.1, List.map_append, ← Multiset.coe_add, bucket, ih wfRest restStored,
        chainContent_cons]

section Batches

variable [Inhabited α]

theorem rehashBatches_spec (c : List (Bucket α)) {ht : Hashtable α} (rehashing : ht.isRehashing = true)
    (valid1 : TableValid T (ht.tables 1)) (alloc1 : (ht.tables 1).buckets.isSome) :
    ∃ ht', rehashBatches T ht c = some ht' ∧
      Moved T ht ht' ((walkEntries c).map fun e => (e, highBits (hashOf T e)) : List _) := by
  fun_induction rehashBatches T ht c with
  | case1 ht => exact ⟨ht, by simp, by simpa [walkEntries] using Moved.refl valid1 alloc1⟩
  | case2 ht b rest ih =>
    -- one batch of at most four buckets, then the rest of the chain
    obtain ⟨ht₁, batch, moved₁⟩ :=
      rehashEntries_spec (fetchEntriesForExpand fetchBucketCountWhenExpand (b :: rest)).1 rehashing valid1 alloc1
    obtain ⟨ht₂, more, moved₂⟩ := ih ht₁ (moved₁.isRehashing ▸ rehashing) moved₁.valid1 moved₁.alloc1
    refine ⟨ht₂, by rw [batch, Option.bind_some, more], ?_⟩
    rw [← fetchEntriesForExpand_walk fetchBucketCountWhenExpand (b :: rest), List.map_append,
      ← Multiset.coe_add]
    exact moved₁.trans moved₂

end Batches

section Finalize

theorem TableValid.numBuckets_eq {t : Table α} (valid : TableValid T t) {bs : List (List (Bucket α))}
    (alloc : t.buckets = some bs) : numBuckets t.exp = bs.length := by
  obtain ⟨lo, -, len⟩ := valid.allocated bs alloc
  have ne : t.exp ≠ -1 := by omega
  simp [numBuckets, ne, len]

theorem resetTable_valid : TableValid T (resetTable : Table α) := by
  refine ⟨fun _ => rfl, ?_, ?_, rfl, rfl, ?_⟩
  · intro bs h
    simp [resetTable] at h
  · intro bs h
    simp [resetTable] at h
  · intro idx x mem
    simp [Table.chain, resetTable] at mem

theorem TableValid.clearChain {t : Table α} (valid : TableValid T t) {bs : List (List (Bucket α))}
    (alloc : t.buckets = some bs) {idx : Nat} (hidx : idx < bs.length) (b : Bucket α) {u : Table α}
    (buckets : u.buckets = some (bs.set idx [{ b with chained := false, presence := 0 }]))
    (exp : u.exp = t.exp) (used : u.used = t.used - Multiset.card (chainContent bs[idx]))
    (child : u.childBuckets = t.childBuckets - lastDepth bs[idx]) :
    TableValid T u ∧ tableContent u + chainContent bs[idx] = tableContent t := by
  have emptyTop : ({ b with chained := false, presence := 0 } : Bucket α).content = 0 :=
    (Bucket.content_eq_zero_iff _).mpr rfl
  have emptied : chainContent [({ b with chained := false, presence := 0 } : Bucket α)] = 0 := by
    rw [chainContent_cons, emptyTop, chainContent_nil, add_zero]
  have wf := valid.chains bs alloc bs[idx] (List.getElem_mem hidx)
  have counted : Multiset.card (chainContent bs[idx]) ≤ t.used := by
    rw [valid.used]
    exact Multiset.card_le_card (chainContent_le_tableContent alloc hidx)
  have children : lastDepth bs[idx] ≤ t.childBuckets := by
    rw [lastDepth_eq wf, valid.childBuckets]
    exact length_le_childCount alloc hidx
  have nonempty : bs[idx].length ≠ 0 := by simpa using wf.ne_nil
  obtain ⟨valid', sum⟩ := valid.replaceChain alloc hidx (chainWF_singleton rfl)
    (fun x mem => by rw [emptied] at mem; simp at mem) buckets exp (by rw [used, emptied]; simp only [Multiset.card_zero]; omega)
    (by rw [child, lastDepth_eq wf] at *; simp only [List.length_singleton]; omega)
  exact ⟨valid', by rw [sum, emptied, add_zero]⟩

end Finalize

variable (T) in
structure Preserved (ht ht' : Hashtable α) : Prop where
  valid : Valid T ht'
  content : htContent ht' = htContent ht
  pauseRehash : ht'.pauseRehash = ht.pauseRehash
  pauseAutoShrink : ht'.pauseAutoShrink = ht.pauseAutoShrink

theorem Preserved.refl {ht : Hashtable α} (valid : Valid T ht) : Preserved T ht ht :=
  ⟨valid, rfl, rfl, rfl⟩

theorem Preserved.trans {ht ht₁ ht₂ : Hashtable α} (first : Preserved T ht ht₁) (second : Preserved T ht₁ ht₂) :
    Preserved T ht ht₂ :=
  ⟨second.valid, second.content.trans first.content, second.pauseRehash.trans first.pauseRehash,
    second.pauseAutoShrink.trans first.pauseAutoShrink⟩

variable (T) in
structure Advanced (ht ht' : Hashtable α) : Prop where
  valid : Valid T ht'
  content : htContent ht' = htContent ht
  pauseRehash : ht'.pauseRehash = ht.pauseRehash
  pauseAutoShrink : ht'.pauseAutoShrink = ht.pauseAutoShrink
  progress : ht'.isRehashing = false ∧ (ht'.tables 0).buckets.isSome ∨
    (ht.rehashIdx < ht'.rehashIdx ∧ (ht'.tables 0).exp = (ht.tables 0).exp ∧
      (ht'.tables 1).exp = (ht.tables 1).exp)

theorem Advanced.preserved {ht ht' : Hashtable α} (advanced : Advanced T ht ht') : Preserved T ht ht' :=
  ⟨advanced.valid, advanced.content, advanced.pauseRehash, advanced.pauseAutoShrink⟩

theorem Advanced.trans {ht ht₁ ht₂ : Hashtable α} (first : Advanced T ht ht₁) (rehashing : ht₁.isRehashing = true)
    (second : Advanced T ht₁ ht₂) : Advanced T ht ht₂ := by
  refine ⟨second.valid, second.content.trans first.content, second.pauseRehash.trans first.pauseRehash,
    second.pauseAutoShrink.trans first.pauseAutoShrink, ?_⟩
  rcases first.progress with ⟨idle, -⟩ | ⟨lt₁, exp0₁, exp1₁⟩
  · rw [idle] at rehashing
    contradiction
  · rcases second.progress with done | ⟨lt₂, exp0₂, exp1₂⟩
    · exact .inl done
    · exact .inr ⟨lt₁.trans lt₂, exp0₂.trans exp0₁, exp1₂.trans exp1₁⟩

def finalized (ht : Hashtable α) (top : Bucket α) : Hashtable α :=
  { ht.modifyTable 0 (fun t =>
      { t.setChain ht.rehashIdx.toNat [{ top with chained := false, presence := 0 }] with
        childBuckets := t.childBuckets - lastDepth ((ht.tables 0).chain ht.rehashIdx.toNat) }) with
    rehashIdx := ht.rehashIdx + 1 }

theorem rehashStepFinalize_eq (ht : Hashtable α) {top : Bucket α}
    (head : ((ht.tables 0).chain ht.rehashIdx.toNat).head? = some top) :
    rehashStepFinalize ht =
      if ((finalized ht top).tables 0).used = 0 ∧ ((finalized ht top).tables 0).childBuckets = 0 then
        some (rehashingCompleted (finalized ht top))
      else if (finalized ht top).rehashIdx.toNat < numBuckets ((finalized ht top).tables 0).exp then
        some (finalized ht top)
      else none := by
  simp only [rehashStepFinalize, head]
  rfl

@[simp] theorem rehashingCompleted_tables_zero (ht : Hashtable α) :
    (rehashingCompleted ht).tables 0 = ht.tables 1 := by
  simp [rehashingCompleted, setTable_tables_ne _ (show (0 : Fin 2) ≠ 1 by decide)]

@[simp] theorem rehashingCompleted_tables_one (ht : Hashtable α) :
    (rehashingCompleted ht).tables 1 = resetTable := by
  simp [rehashingCompleted]

@[simp] theorem rehashingCompleted_rehashIdx (ht : Hashtable α) : (rehashingCompleted ht).rehashIdx = -1 := rfl

@[simp] theorem rehashingCompleted_pauseRehash (ht : Hashtable α) :
    (rehashingCompleted ht).pauseRehash = ht.pauseRehash := rfl

@[simp] theorem rehashingCompleted_pauseAutoShrink (ht : Hashtable α) :
    (rehashingCompleted ht).pauseAutoShrink = ht.pauseAutoShrink := rfl

theorem rehashingCompleted_valid {ht : Hashtable α} (valid1 : TableValid T (ht.tables 1)) :
    Valid T (rehashingCompleted ht) ∧ htContent (rehashingCompleted ht) = tableContent (ht.tables 1) := by
  refine ⟨⟨?_, ?_, fun _ => by simp [resetTable], fun h => absurd rfl h⟩, ?_⟩
  · simpa using valid1
  · simpa using resetTable_valid
  · simp [htContent, tableContent, resetTable]

theorem rehashStepFinalize_spec {ht₀ ht : Hashtable α} (valid : Valid T ht₀)
    (rehashing : ht₀.isRehashing = true)
    (moved : Moved T ht₀ ht (chainContent ((ht₀.tables 0).chain ht₀.rehashIdx.toNat))) :
    ∃ ht', rehashStepFinalize ht = some ht' ∧ Advanced T ht₀ ht' := by
  have rs := valid.rehashing (by simpa [Hashtable.isRehashing] using rehashing)
  obtain ⟨bs, alloc⟩ := Option.isSome_iff_exists.mp rs.alloc0
  have hidx : ht₀.rehashIdx.toNat < bs.length := valid.table0.numBuckets_eq alloc ▸ rs.idx_lt
  have chain0 := chain_eq alloc hidx
  obtain ⟨top, rest, split⟩ :=
    List.exists_cons_of_ne_nil (valid.table0.chains bs alloc _ (List.getElem_mem hidx)).ne_nil
  have table0 := moved.table0
  rw [chain0] at table0
  have chain : (ht.tables 0).chain ht.rehashIdx.toNat = bs[ht₀.rehashIdx.toNat] := by
    rw [moved.rehashIdx, table0, ← chain0]
    rfl
  rw [rehashStepFinalize_eq ht (by rw [chain, split]; rfl)]
  -- the facts about the finalized state that the three outcomes share
  have alloc₁ : ((finalized ht top).tables 0).buckets =
      some (bs.set ht₀.rehashIdx.toNat [{ top with chained := false, presence := 0 }]) := by
    simp [finalized, table0, Table.setChain, alloc, moved.rehashIdx]
  obtain ⟨valid0, content0⟩ := valid.table0.clearChain alloc hidx top alloc₁
    (by simp [finalized, table0]) (by simp [finalized, table0])
    (by simp only [finalized, Hashtable.modifyTable_tables_self, chain]; rw [table0])
  have content1 := moved.content1
  rw [chain0] at content1
  have tables1 : (finalized ht top).tables 1 = ht.tables 1 := by
    simp [finalized, Hashtable.modifyTable_tables]
  have idx₁ : (finalized ht top).rehashIdx = ht₀.rehashIdx + 1 := by
    simp [finalized, moved.rehashIdx]
  by_cases empty : ((finalized ht top).tables 0).used = 0 ∧ ((finalized ht top).tables 0).childBuckets = 0
  · -- table 0 is empty: the tables are swapped
    rw [if_pos empty]
    have gone : tableContent ((finalized ht top).tables 0) = 0 := by
      have counted := valid0.used
      rw [empty.1] at counted
      exact Multiset.card_eq_zero.mp counted.symm
    have valid1 : TableValid T ((finalized ht top).tables 1) := tables1 ▸ moved.valid1
    obtain ⟨valid', content'⟩ := rehashingCompleted_valid valid1
    refine ⟨_, rfl, valid', ?_, ?_, ?_, .inl ⟨rfl, by simpa [tables1] using moved.alloc1⟩⟩
    · rw [content', tables1, content1, htContent, ← content0, gone, zero_add]
    · simp [finalized, moved.pauseRehash]
    · simp [finalized, moved.pauseAutoShrink]
  · -- rehash_idx moves on to the next bucket of table 0
    have chains₁ : ∀ i, ((finalized ht top).tables 0).chain i =
        if i = ht₀.rehashIdx.toNat then [{ top with chained := false, presence := 0 }]
        else (ht₀.tables 0).chain i := by
      intro i
      simp only [Table.chain, alloc₁, alloc, Option.getD_some]
      by_cases h : i = ht₀.rehashIdx.toNat
      · subst h
        simp [hidx]
      · simp [h, Ne.symm h]
    have done : ∀ i < ht₀.rehashIdx.toNat + 1, ∃ b : Bucket α,
        ((finalized ht top).tables 0).chain i = [b] ∧ b.presence = 0 ∧ b.chained = false := by
      intro i hi
      rw [chains₁ i]
      by_cases h : i = ht₀.rehashIdx.toNat
      · exact ⟨_, if_pos h, rfl, rfl⟩
      · rw [if_neg h]
        exact rs.done i (by omega)
    have more : (finalized ht top).rehashIdx.toNat < numBuckets ((finalized ht top).tables 0).exp := by
      by_contra last
      -- the bucket was the last one, so table 0 is now empty
      apply empty
      have exp₁ : ((finalized ht top).tables 0).exp = (ht₀.tables 0).exp := by simp [finalized, table0]
      rw [idx₁, exp₁, valid.table0.numBuckets_eq alloc] at last
      have allEmpty : ∀ i < (bs.set ht₀.rehashIdx.toNat [{ top with chained := false, presence := 0 }]).length,
          ∃ b : Bucket α, ((finalized ht top).tables 0).chain i = [b] ∧ b.presence = 0 := by
        intro i hi
        rw [List.length_set] at hi
        obtain ⟨b, one, zero, -⟩ := done i (by omega)
        exact ⟨b, one, zero⟩
      obtain ⟨noEntries, noChildren⟩ := tableContent_eq_zero_of_empty alloc₁ allEmpty
      exact ⟨by rw [valid0.used, noEntries]; rfl, by rw [valid0.childBuckets, noChildren]⟩
    rw [if_neg empty, if_pos more]
    have nonneg := rs.idx_nonneg
    refine ⟨_, rfl, ⟨valid0, tables1 ▸ moved.valid1, fun h => by omega, fun _ => ?_⟩, ?_, ?_, ?_,
      .inr ⟨by omega, by simp [finalized, table0], by rw [tables1, moved.exp1]⟩⟩
    · refine ⟨by omega, more, by simp [alloc₁], tables1 ▸ moved.alloc1, ?_⟩
      intro i hi
      exact done i (by rw [idx₁] at hi; omega)
    · rw [htContent, tables1, content1, ← add_assoc, content0, htContent]
    · simp [finalized, moved.pauseRehash]
    · simp [finalized, moved.pauseAutoShrink]

theorem rehashStepFinalize_empty_spec {ht : Hashtable α} (valid : Valid T ht)
    (rehashing : ht.isRehashing = true) {b : Bucket α} {rest : List (Bucket α)}
    (chain : (ht.tables 0).chain ht.rehashIdx.toNat = b :: rest) (empty : b.presence = 0)
    (unchained : b.chained = false) :
    ∃ ht', rehashStepFinalize ht = some ht' ∧ Advanced T ht ht' := by
  have rs := valid.rehashing (by simpa [Hashtable.isRehashing] using rehashing)
  obtain ⟨bs, alloc⟩ := Option.isSome_iff_exists.mp rs.alloc0
  have hidx : ht.rehashIdx.toNat < bs.length := valid.table0.numBuckets_eq alloc ▸ rs.idx_lt
  have wf : ChainWF (b :: rest) := by
    rw [← chain, chain_eq alloc hidx]
    exact valid.table0.chains bs alloc _ (List.getElem_mem hidx)
  have single : rest = [] := by
    rcases wf.of_cons with ⟨single, -⟩ | ⟨linked, -⟩
    · exact single
    · rw [linked.1] at unchained
      contradiction
  have nothing : chainContent ((ht.tables 0).chain ht.rehashIdx.toNat) = 0 := by
    rw [chain, single, chainContent_cons, (Bucket.content_eq_zero_iff b).mpr empty, chainContent_nil, add_zero]
  exact rehashStepFinalize_spec valid rehashing (nothing ▸ Moved.refl valid.table1 rs.alloc1)

theorem bucketIndex_congr {t t' : Table α} (h : t.exp = t'.exp) (hash : UInt64) :
    bucketIndex t hash = bucketIndex t' hash := by
  simp [bucketIndex, h]

theorem Placed.shrink {exp0 : Int} {idx : Nat} {x : α × UInt8} (placed : Placed T exp0 idx x)
    {t1 : Table α} (lo : 0 ≤ t1.exp) (le : t1.exp ≤ exp0) (hidx : idx < UInt64.size) :
    Placed T t1.exp (bucketIndex t1 (UInt64.ofNat idx)) x := by
  refine ⟨?_, placed.2⟩
  have dvd : 2 ^ t1.exp.toNat ∣ 2 ^ exp0.toNat := Nat.pow_dvd_pow 2 (by omega)
  rw [bucketIndex_eq lo, UInt64.toNat_ofNat_of_lt' hidx, ← placed.1, Nat.mod_mod_of_dvd _ dvd]

section Step

variable [Inhabited α]

theorem rehashPositions_spec (b : Bucket α) (ps : List Nat) {ht : Hashtable α}
    (rehashing : ht.isRehashing = true) (valid1 : TableValid T (ht.tables 1))
    (alloc1 : (ht.tables 1).buckets.isSome)
    (placed : ∀ p ∈ ps, Placed T (ht.tables 1).exp
      (bucketIndex (ht.tables 1) (UInt64.ofNat ht.rehashIdx.toNat)) (b.entries p, b.hashes p)) :
    ∃ ht', ps.foldlM (fun ht pos =>
        rehashEntry ht (b.entries pos) (UInt64.ofNat ht.rehashIdx.toNat) (b.hashes pos)) ht = some ht' ∧
      Moved T ht ht' (ps.map fun p => (b.entries p, b.hashes p) : List (α × UInt8)) := by
  induction ps generalizing ht with
  | nil => exact ⟨ht, rfl, by simpa using Moved.refl valid1 alloc1⟩
  | cons p ps ih =>
    obtain ⟨ht₁, first, moved₁⟩ := rehashEntry_spec rehashing valid1 alloc1 _ (placed p (by simp))
    -- the later entries are still placed: rehash_idx and the size of table 1 do not change
    have placed₁ : ∀ q ∈ ps, Placed T (ht₁.tables 1).exp
        (bucketIndex (ht₁.tables 1) (UInt64.ofNat ht₁.rehashIdx.toNat)) (b.entries q, b.hashes q) := by
      intro q mem
      rw [moved₁.exp1, bucketIndex_congr moved₁.exp1, moved₁.rehashIdx]
      exact placed q (by simp [mem])
    obtain ⟨ht₂, others, moved₂⟩ := ih (moved₁.isRehashing ▸ rehashing) moved₁.valid1 moved₁.alloc1 placed₁
    refine ⟨ht₂, ?_, by simpa using moved₁.trans moved₂⟩
    rw [List.foldlM_cons, first]
    exact others

theorem rehashChainShrink_spec {c : List (Bucket α)} (wf : ChainWF c) {ht : Hashtable α}
    (rehashing : ht.isRehashing = true) (valid1 : TableValid T (ht.tables 1))
    (alloc1 : (ht.tables 1).buckets.isSome)
    (placed : ∀ x ∈ chainContent c, Placed T (ht.tables 1).exp
      (bucketIndex (ht.tables 1) (UInt64.ofNat ht.rehashIdx.toNat)) x) :
    ∃ ht', rehashChainShrink ht c = some ht' ∧ Moved T ht ht' (chainContent c) := by
  induction c generalizing ht with
  | nil => exact absurd rfl wf.ne_nil
  | cons b rest ih =>
    have slot : b.chained = true → isPositionFilled b (entriesPerBucket - 1) = false :=
      fun chained => (wf.linked_of_chained (by simp) chained).2
    have content := Bucket.content_eq_filled b slot
    have placedB : ∀ p ∈ filledPositions b, Placed T (ht.tables 1).exp
        (bucketIndex (ht.tables 1) (UInt64.ofNat ht.rehashIdx.toNat)) (b.entries p, b.hashes p) := by
      intro p mem
      apply placed
      rw [chainContent_cons]
      exact Multiset.mem_add.mpr (.inl (Bucket.mem_content_of_filled b mem))
    obtain ⟨ht₁, bucket, moved₁⟩ := rehashPositions_spec b (filledPositions b) rehashing valid1 alloc1 placedB
    rw [← content] at moved₁
    have shrunk : rehashBucketShrink ht b = some ht₁ := bucket
    rcases wf.of_cons with ⟨rfl, unchained⟩ | ⟨linked, wfRest⟩
    · refine ⟨ht₁, by simp [rehashChainShrink, shrunk, unchained], by simpa using moved₁⟩
    · have placed₁ : ∀ x ∈ chainContent rest, Placed T (ht₁.tables 1).exp
          (bucketIndex (ht₁.tables 1) (UInt64.ofNat ht₁.rehashIdx.toNat)) x := by
        intro x mem
        rw [moved₁.exp1, bucketIndex_congr moved₁.exp1, moved₁.rehashIdx]
        apply placed
        rw [chainContent_cons]
        exact Multiset.mem_add.mpr (.inr mem)
      obtain ⟨ht₂, others, moved₂⟩ :=
        ih wfRest (moved₁.isRehashing ▸ rehashing) moved₁.valid1 moved₁.alloc1 placed₁
      refine ⟨ht₂, by simp [rehashChainShrink, shrunk, linked.1, others], ?_⟩
      rw [chainContent_cons]
      exact moved₁.trans moved₂

theorem rehashStepExpand_spec {ht : Hashtable α} (valid : Valid T ht) (rehashing : ht.isRehashing = true) :
    ∃ ht', rehashStepExpand T ht = some ht' ∧ Advanced T ht ht' := by
  have rs := valid.rehashing (by simpa [Hashtable.isRehashing] using rehashing)
  obtain ⟨bs, alloc⟩ := Option.isSome_iff_exists.mp rs.alloc0
  have hidx : ht.rehashIdx.toNat < bs.length := valid.table0.numBuckets_eq alloc ▸ rs.idx_lt
  have wf : ChainWF ((ht.tables 0).chain ht.rehashIdx.toNat) := by
    rw [chain_eq alloc hidx]
    exact valid.table0.chains bs alloc _ (List.getElem_mem hidx)
  -- table 0 stores the top byte of each entry's hash, which is what is rehashed
  have stored : ∀ x ∈ chainContent ((ht.tables 0).chain ht.rehashIdx.toNat),
      x.2 = highBits (hashOf T x.1) :=
    fun x mem => (valid.table0.placed _ x mem).2
  obtain ⟨ht₁, batches, moved⟩ :=
    rehashBatches_spec ((ht.tables 0).chain ht.rehashIdx.toNat) rehashing valid.table1 rs.alloc1
  rw [walkEntries_content wf stored] at moved
  obtain ⟨ht₂, final, advanced⟩ := rehashStepFinalize_spec valid rehashing moved
  exact ⟨ht₂, by rw [rehashStepExpand, batches, Option.bind_some, final], advanced⟩

theorem rehashChainShrink_finalize_spec {ht : Hashtable α} (valid : Valid T ht)
    (rehashing : ht.isRehashing = true) (shrinking : (ht.tables 1).exp < (ht.tables 0).exp) :
    ∃ ht', (rehashChainShrink ht ((ht.tables 0).chain ht.rehashIdx.toNat)).bind rehashStepFinalize = some ht' ∧
      Advanced T ht ht' := by
  have rs := valid.rehashing (by simpa [Hashtable.isRehashing] using rehashing)
  obtain ⟨bs, alloc⟩ := Option.isSome_iff_exists.mp rs.alloc0
  obtain ⟨bs1, alloc1⟩ := Option.isSome_iff_exists.mp rs.alloc1
  obtain ⟨-, hi0, len0⟩ := valid.table0.allocated bs alloc
  obtain ⟨lo1, -, -⟩ := valid.table1.allocated bs1 alloc1
  have hidx : ht.rehashIdx.toNat < bs.length := valid.table0.numBuckets_eq alloc ▸ rs.idx_lt
  -- rehash_idx is below 2 ^ 63, so it is its own 64-bit hash
  have hidx64 : ht.rehashIdx.toNat < UInt64.size := by
    have small : 2 ^ (ht.tables 0).exp.toNat ≤ 2 ^ 63 := Nat.pow_le_pow_right (by norm_num) (by omega)
    have size : UInt64.size = 2 ^ 64 := rfl
    omega
  have wf : ChainWF ((ht.tables 0).chain ht.rehashIdx.toNat) := by
    rw [chain_eq alloc hidx]
    exact valid.table0.chains bs alloc _ (List.getElem_mem hidx)
  have placed : ∀ x ∈ chainContent ((ht.tables 0).chain ht.rehashIdx.toNat), Placed T (ht.tables 1).exp
      (bucketIndex (ht.tables 1) (UInt64.ofNat ht.rehashIdx.toNat)) x :=
    fun x mem => (valid.table0.placed _ x mem).shrink lo1 shrinking.le hidx64
  obtain ⟨ht₁, chain, moved⟩ := rehashChainShrink_spec wf rehashing valid.table1 rs.alloc1 placed
  obtain ⟨ht₂, final, advanced⟩ := rehashStepFinalize_spec valid rehashing moved
  exact ⟨ht₂, by rw [chain, Option.bind_some, final], advanced⟩

theorem rehashStepShrinkLoop_step (emptyVisits : Nat) {ht : Hashtable α} (valid : Valid T ht)
    (rehashing : ht.isRehashing = true) (shrinking : (ht.tables 1).exp < (ht.tables 0).exp) :
    ∃ ht₁, Advanced T ht ht₁ ∧ (rehashStepShrinkLoop (emptyVisits + 1) ht = some ht₁ ∨
      ht₁.isRehashing = true ∧ emptyVisits ≠ 0 ∧
        rehashStepShrinkLoop (emptyVisits + 1) ht = rehashStepShrinkLoop emptyVisits ht₁) := by
  have rs := valid.rehashing (by simpa [Hashtable.isRehashing] using rehashing)
  obtain ⟨bs, alloc⟩ := Option.isSome_iff_exists.mp rs.alloc0
  have hidx : ht.rehashIdx.toNat < bs.length := valid.table0.numBuckets_eq alloc ▸ rs.idx_lt
  obtain ⟨b, rest, chain⟩ := List.exists_cons_of_ne_nil
    ((chain_eq alloc hidx).symm ▸ valid.table0.chains bs alloc _ (List.getElem_mem hidx)).ne_nil
  by_cases busy : (b.presence != 0 || b.chained) = true
  · obtain ⟨ht', step, advanced⟩ := rehashChainShrink_finalize_spec valid rehashing shrinking
    refine ⟨ht', advanced, .inl ?_⟩
    rw [chain] at step
    simp only [rehashStepShrinkLoop, chain, busy, if_true]
    exact step
  · -- an empty bucket: reset it and, unless done, go on to the next one
    have empty : b.presence = 0 ∧ b.chained = false := by
      simpa using busy
    obtain ⟨ht₁, final, advanced⟩ := rehashStepFinalize_empty_spec valid rehashing chain empty.1 empty.2
    have skip : rehashStepShrinkLoop (emptyVisits + 1) ht =
        if !ht₁.isRehashing then some ht₁ else if emptyVisits = 0 then some ht₁
        else rehashStepShrinkLoop emptyVisits ht₁ := by
      simp only [rehashStepShrinkLoop, chain, busy, final, Bool.false_eq_true, if_false]
      rfl
    rw [skip]
    refine ⟨ht₁, advanced, ?_⟩
    cases h : ht₁.isRehashing
    · exact .inl rfl
    · by_cases last : emptyVisits = 0
      · exact .inl (by simp [last])
      · exact .inr ⟨rfl, last, by simp [last]⟩

theorem rehashStepShrinkLoop_spec (emptyVisits : Nat) {ht : Hashtable α} (valid : Valid T ht)
    (rehashing : ht.isRehashing = true) (shrinking : (ht.tables 1).exp < (ht.tables 0).exp) :
    ∃ ht', rehashStepShrinkLoop (emptyVisits + 1) ht = some ht' ∧ Advanced T ht ht' := by
  induction emptyVisits generalizing ht with
  | zero =>
    obtain ⟨ht₁, advanced, done | ⟨-, nonzero, -⟩⟩ := rehashStepShrinkLoop_step 0 valid rehashing shrinking
    · exact ⟨ht₁, done, advanced⟩
    · exact absurd rfl nonzero
  | succ n ih =>
    obtain ⟨ht₁, advanced, done | ⟨more, -, next⟩⟩ :=
      rehashStepShrinkLoop_step (n + 1) valid rehashing shrinking
    · exact ⟨ht₁, done, advanced⟩
    · -- the next bucket is in the same two tables
      have sizes : (ht₁.tables 1).exp < (ht₁.tables 0).exp := by
        rcases advanced.progress with ⟨idle, -⟩ | ⟨-, exp0, exp1⟩
        · rw [idle] at more
          contradiction
        · rw [exp0, exp1]
          exact shrinking
      obtain ⟨ht₂, loop, advanced₂⟩ := ih advanced.valid more sizes
      exact ⟨ht₂, next.trans loop, advanced.trans more advanced₂⟩

theorem rehashStep_spec {ht : Hashtable α} (valid : Valid T ht) (rehashing : ht.isRehashing = true) :
    ∃ ht', rehashStep T ht = some ht' ∧ Advanced T ht ht' := by
  by_cases shrinking : (ht.tables 1).exp < (ht.tables 0).exp
  · obtain ⟨ht', loop, advanced⟩ := rehashStepShrinkLoop_spec 9 valid rehashing shrinking
    exact ⟨ht', by simp [rehashStep, rehashing, shrinking, rehashStepShrink, loop], advanced⟩
  · obtain ⟨ht', step, advanced⟩ := rehashStepExpand_spec valid rehashing
    exact ⟨ht', by simp [rehashStep, rehashing, shrinking, step], advanced⟩

theorem rehashUntilDone_idle {ht : Hashtable α} (idle : ht.isRehashing = false) (fuel : Nat) :
    rehashUntilDone T fuel ht = some ht := by
  cases fuel <;> simp [rehashUntilDone, idle]

theorem rehashUntilDone_spec (fuel : Nat) {ht : Hashtable α} (valid : Valid T ht)
    (rehashing : ht.isRehashing = true) (enough : numBuckets (ht.tables 0).exp - ht.rehashIdx.toNat ≤ fuel) :
    ∃ ht', rehashUntilDone T fuel ht = some ht' ∧ Advanced T ht ht' ∧ ht'.isRehashing = false := by
  induction fuel generalizing ht with
  | zero =>
    have rs := valid.rehashing (by simpa [Hashtable.isRehashing] using rehashing)
    have lt := rs.idx_lt
    omega
  | succ fuel ih =>
    obtain ⟨ht₁, step, advanced⟩ := rehashStep_spec valid rehashing
    cases h₁ : ht₁.isRehashing
    · exact ⟨ht₁, by simp [rehashUntilDone, rehashing, step, rehashUntilDone_idle h₁], advanced, h₁⟩
    · -- the step moved rehash_idx on over the same table 0
      have rs := valid.rehashing (by simpa [Hashtable.isRehashing] using rehashing)
      have fewer : numBuckets (ht₁.tables 0).exp - ht₁.rehashIdx.toNat ≤ fuel := by
        rcases advanced.progress with ⟨idle, -⟩ | ⟨lt, exp0, -⟩
        · rw [idle] at h₁
          contradiction
        · have nonneg := rs.idx_nonneg
          rw [exp0]
          omega
      obtain ⟨ht₂, rest, advanced₂, done⟩ := ih advanced.valid h₁ fewer
      exact ⟨ht₂, by simp [rehashUntilDone, rehashing, step, rest], advanced.trans h₁ advanced₂, done⟩

end Step

end Moves

end Kv.Hashtable
