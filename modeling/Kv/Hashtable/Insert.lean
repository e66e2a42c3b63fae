import Kv.Hashtable.Invariant

/-!
Insertion into a valid table. `findBucketForInsert` extends the chain of the
hash when its last bucket is full and hands back a free position; storing an
entry there keeps the table valid with that entry added to its content.
-/

set_option linter.dupNamespace false

namespace Kv.Hashtable

open Foundations

variable {α κ : Type}

namespace Hashtable

theorem modifyTable_tables (ht : Hashtable α) (i j : Fin 2) (f : Table α → Table α) :
    (ht.modifyTable i f).tables j = if j = i then f (ht.tables i) else ht.tables j := by
  by_cases h : j = i
  · subst h
    simp [modifyTable]
  · simp [modifyTable, setTable_tables_ne _ h, h]

@[simp] theorem modifyTable_tables_self (ht : Hashtable α) (i : Fin 2) (f : Table α → Table α) :
    (ht.modifyTable i f).tables i = f (ht.tables i) := by
  simp [modifyTable]

@[simp] theorem modifyTable_rehashIdx (ht : Hashtable α) (i : Fin 2) (f : Table α → Table α) :
    (ht.modifyTable i f).rehashIdx = ht.rehashIdx := rfl

@[simp] theorem modifyTable_pauseRehash (ht : Hashtable α) (i : Fin 2) (f : Table α → Table α) :
    (ht.modifyTable i f).pauseRehash = ht.pauseRehash := rfl

@[simp] theorem modifyTable_pauseAutoShrink (ht : Hashtable α) (i : Fin 2) (f : Table α → Table α) :
    (ht.modifyTable i f).pauseAutoShrink = ht.pauseAutoShrink := rfl

@[simp] theorem modifyTable_isRehashing (ht : Hashtable α) (i : Fin 2) (f : Table α → Table α) :
    (ht.modifyTable i f).isRehashing = ht.isRehashing := rfl

theorem modifyTable_modifyTable (ht : Hashtable α) (i : Fin 2) (f g : Table α → Table α) :
    (ht.modifyTable i f).modifyTable i g = ht.modifyTable i fun t => g (f t) := by
  simp [modifyTable, setTable, Function.update_idem]

theorem modifyBucket_eq (ht : Hashtable α) (p : Position) (f : Bucket α → Bucket α) :
    ht.modifyBucket p f =
      ht.modifyTable p.table fun t => t.setChain p.index ((t.chain p.index).modify p.depth f) := rfl

end Hashtable

theorem Table.chain_setChain_modify (t : Table α) (i d : Nat) (f : Bucket α → Bucket α) :
    (t.setChain i ((t.chain i).modify d f)).chain i = (t.chain i).modify d f := by
  cases h : t.buckets with
  | none => simp [Table.chain, Table.setChain, h]
  | some bs =>
    by_cases hi : i < bs.length <;> simp [Table.chain, Table.setChain, h, hi]

theorem Table.setChain_setChain (t : Table α) (i : Nat) (ch d : List (Bucket α)) :
    (t.setChain i ch).setChain i d = t.setChain i d := by
  cases h : t.buckets <;> simp [Table.setChain, h]

namespace Hashtable

theorem bucketAt_modifyBucket (ht : Hashtable α) (p : Position) (f : Bucket α → Bucket α) :
    (ht.modifyBucket p f).bucketAt p = (ht.bucketAt p).map f := by
  simp [bucketAt, modifyBucket_eq, Table.chain_setChain_modify]

theorem modifyBucket_modifyBucket (ht : Hashtable α) (p : Position) (f g : Bucket α → Bucket α) :
    (ht.modifyBucket p f).modifyBucket p g = ht.modifyBucket p (g ∘ f) := by
  simp only [modifyBucket_eq, modifyTable_modifyTable, Table.chain_setChain_modify, Table.setChain_setChain,
    List.modify_modify_eq]

end Hashtable

theorem bucketIndex_eq {t : Table α} (h : 0 ≤ t.exp) (hash : UInt64) :
    bucketIndex t hash = hash.toNat % 2 ^ t.exp.toNat := by
  have ne : t.exp ≠ -1 := by omega
  simp [bucketIndex, expToMask, numBuckets, ne, Nat.and_two_pow_sub_one_eq_mod]

variable {T : HashtableType α κ}

theorem TableValid.bucketIndex_lt {t : Table α} (valid : TableValid T t) {bs : List (List (Bucket α))}
    (alloc : t.buckets = some bs) (hash : UInt64) : bucketIndex t hash < bs.length := by
  obtain ⟨lo, -, len⟩ := valid.allocated bs alloc
  rw [bucketIndex_eq lo, len]
  exact Nat.mod_lt _ (Nat.two_pow_pos _)

theorem TableValid.insertAt {tb : Table α} (valid : TableValid T tb) {bs : List (List (Bucket α))}
    (alloc : tb.buckets = some bs) {idx : Nat} (hidx : idx < bs.length) {ch : List (Bucket α)}
    (wf : ChainWF ch) (content : chainContent ch = chainContent bs[idx]) {added : Bool}
    (len : ch.length = bs[idx].length + if added then 1 else 0) {depth pos : Nat} (hd : depth < ch.length)
    (hpos : pos < numBucketPositions ch[depth]) (free : isPositionFilled ch[depth] pos = false)
    {e : α} {h2 : UInt8} (placed : Placed T tb.exp idx (e, h2)) {u : Table α}
    (buckets : u.buckets = some (bs.set idx (ch.set depth (ch[depth].fill pos e h2))))
    (exp : u.exp = tb.exp) (used : u.used = tb.used + 1)
    (child : u.childBuckets = tb.childBuckets + if added then 1 else 0) :
    TableValid T u ∧ tableContent u = (e, h2) ::ₘ tableContent tb := by
  have hpos7 : pos < entriesPerBucket := by
    have : numBucketPositions ch[depth] ≤ entriesPerBucket := by
      simp only [numBucketPositions]
      omega
    omega
  have wf' : ChainWF (ch.set depth (ch[depth].fill pos e h2)) := by
    refine wf.set hd _ rfl fun chained => ?_
    -- a chained bucket only has six positions, so the seventh stays free
    have six : pos < entriesPerBucket - 1 := by
      have sixPositions := numBucketPositions_chained (by simpa using chained : ch[depth].chained = true)
      rw [sixPositions] at hpos
      exact hpos
    have lastFree := (wf.linked_of_chained (List.getElem_mem hd) (by simpa using chained)).2
    rw [Bucket.isPositionFilled_fill _ hpos7, lastFree]
    simp only [Bool.or_false, decide_eq_false_iff_not]
    omega
  have grown : chainContent (ch.set depth (ch[depth].fill pos e h2)) = (e, h2) ::ₘ chainContent ch := by
    have h := chainContent_set ch hd (ch[depth].fill pos e h2)
    rw [Bucket.content_fill _ hpos7 free, ← Multiset.singleton_add, add_left_comm, ← add_assoc,
      Multiset.singleton_add] at h
    exact add_right_cancel h
  have placed' : ∀ x ∈ chainContent (ch.set depth (ch[depth].fill pos e h2)), Placed T tb.exp idx x := by
    intro x mem
    rw [grown, Multiset.mem_cons] at mem
    rcases mem with rfl | old
    · exact placed
    · rw [content, ← chain_eq alloc hidx] at old
      exact valid.placed idx x old
  have nonempty : bs[idx].length ≠ 0 := by
    have := (valid.chains bs alloc bs[idx] (List.getElem_mem hidx)).ne_nil
    simpa using this
  have cards : Multiset.card (chainContent (ch.set depth (ch[depth].fill pos e h2))) =
      Multiset.card (chainContent bs[idx]) + 1 := by
    rw [grown, Multiset.card_cons, content]
  obtain ⟨valid', sum⟩ := valid.replaceChain alloc hidx wf' placed' buckets exp
    (by rw [used, cards]; omega) (by rw [child, List.length_set, len]; split <;> omega)
  refine ⟨valid', add_right_cancel (b := chainContent bs[idx]) ?_⟩
  rw [sum, grown, content, Multiset.add_cons, Multiset.cons_add]

section Find

variable [Inhabited α]

theorem findBucketForInsert_spec {ht : Hashtable α} {t : Fin 2}
    (table : (if ht.isRehashing then (1 : Fin 2) else 0) = t) (valid : TableValid T (ht.tables t))
    {bs : List (List (Bucket α))} (alloc : (ht.tables t).buckets = some bs) (hash : UInt64) :
    ∃ ch depth pos, ∃ added : Bool, findBucketForInsert ht hash =
        some (ht.modifyTable t (fun tb => { tb.setChain (bucketIndex (ht.tables t) hash) ch with
            childBuckets := tb.childBuckets + if added then 1 else 0 }),
          ⟨t, bucketIndex (ht.tables t) hash, depth, pos⟩) ∧
      ChainWF ch ∧ chainContent ch = chainContent ((ht.tables t).chain (bucketIndex (ht.tables t) hash)) ∧
      ch.length = ((ht.tables t).chain (bucketIndex (ht.tables t) hash)).length + (if added then 1 else 0) ∧
      ∃ hd : depth < ch.length, pos < numBucketPositions ch[depth] ∧ isPositionFilled ch[depth] pos = false := by
  have hidx := valid.bucketIndex_lt alloc hash
  have wf := valid.chains bs alloc _ (List.getElem_mem hidx)
  obtain ⟨ch, depth, added, walk, wf', content, len, hd, notFull⟩ := insertWalk_spec wf
  have slot : ch[depth].chained = true → isPositionFilled ch[depth] (entriesPerBucket - 1) = false :=
    fun chained => (wf'.linked_of_chained (List.getElem_mem hd) chained).2
  obtain ⟨pos, first, hpos, free⟩ := firstFreePosition_spec notFull slot
  refine ⟨ch, depth, pos, added, ?_, wf', by rw [content, chain_eq alloc hidx],
    by rw [len, chain_eq alloc hidx], hd, hpos, free⟩
  subst table
  simp [findBucketForInsert, alloc, List.getElem?_eq_getElem hidx, walk, List.getElem?_eq_getElem hd, first]

theorem findBucketForInsert_fill {ht : Hashtable α} {t : Fin 2}
    (table : (if ht.isRehashing then (1 : Fin 2) else 0) = t) (valid : TableValid T (ht.tables t))
    (alloc : (ht.tables t).buckets.isSome) (hash : UInt64) {e : α} {h2 : UInt8}
    (placed : Placed T (ht.tables t).exp (bucketIndex (ht.tables t) hash) (e, h2)) :
    ∃ ht₁ p tb, findBucketForInsert ht hash = some (ht₁, p) ∧ p.table = t ∧
      ht₁.modifyBucket p (fun b => b.fill p.pos e h2) = ht.setTable t tb ∧
      TableValid T { tb with used := tb.used + 1 } ∧ tb.used = (ht.tables t).used ∧
      tb.exp = (ht.tables t).exp ∧ tb.buckets.isSome ∧
      tableContent tb = (e, h2) ::ₘ tableContent (ht.tables t) := by
  obtain ⟨bs, alloc⟩ := Option.isSome_iff_exists.mp alloc
  obtain ⟨ch, depth, pos, added, find, wf, content, len, hd, hpos, free⟩ :=
    findBucketForInsert_spec table valid alloc hash
  have hidx := valid.bucketIndex_lt alloc hash
  rw [chain_eq alloc hidx] at content len
  let tb : Table α := { (ht.tables t).setChain (bucketIndex (ht.tables t) hash)
      (ch.set depth (ch[depth].fill pos e h2)) with
    childBuckets := (ht.tables t).childBuckets + if added then 1 else 0 }
  obtain ⟨valid', grown⟩ := valid.insertAt alloc hidx wf content len hd hpos free placed
    (u := { tb with used := tb.used + 1 }) (by simp [tb, Table.setChain, alloc]) rfl rfl rfl
  refine ⟨_, _, tb, find, rfl, ?_, valid', rfl, rfl, by simp [tb, Table.setChain, alloc], grown⟩
  rw [Hashtable.modifyBucket_eq, Hashtable.modifyTable_modifyTable]
  simp [Hashtable.modifyTable, tb, Table.setChain, Table.chain, alloc, hidx, modify_eq_set_getElem _ hd]

end Find

end Kv.Hashtable
