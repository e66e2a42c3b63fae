import Kv.Hashtable.Find

/-!
The operations that add and remove entries: `insert` and `hashtableAdd`,
the two-phase insertion, `hashtablePop` and the two-phase pop. Each keeps the
state valid; insertion adds the entry with its hash byte to the content and
a pop removes the entry it returns.
-/

set_option linter.dupNamespace false

namespace Kv.Hashtable

open Foundations

variable {α κ : Type}

@[simp] theorem Hashtable.setTable_setTable (ht : Hashtable α) (i : Fin 2) (t u : Table α) :
    (ht.setTable i t).setTable i u = ht.setTable i u := by
  simp [Hashtable.setTable, Function.update_idem]

theorem Hashtable.modifyTable_setTable (ht : Hashtable α) (i : Fin 2) (t : Table α) (f : Table α → Table α) :
    (ht.setTable i t).modifyTable i f = ht.setTable i (f t) := by
  simp [Hashtable.modifyTable]

theorem htContent_setTable (ht : Hashtable α) (t : Fin 2) (u : Table α) :
    htContent (ht.setTable t u) + tableContent (ht.tables t) = htContent ht + tableContent u := by
  match t with
  | 0 =>
    simp only [htContent, setTable_tables_self, setTable_tables_ne _ (show (1 : Fin 2) ≠ 0 by decide)]
    abel
  | 1 =>
    simp only [htContent, setTable_tables_self, setTable_tables_ne _ (show (0 : Fin 2) ≠ 1 by decide)]
    abel

variable {T : HashtableType α κ}

theorem Valid.setTable {ht : Hashtable α} (valid : Valid T ht) {t : Fin 2} {u : Table α}
    (tv : TableValid T u) (alloc : u.buckets.isSome = (ht.tables t).buckets.isSome)
    (exp : u.exp = (ht.tables t).exp)
    (done : ht.rehashIdx ≠ -1 → t = 0 → ∀ i < ht.rehashIdx.toNat, u.chain i = (ht.tables 0).chain i) :
    Valid T (ht.setTable t u) := by
  match t with
  | 0 =>
    have other : (ht.setTable 0 u).tables 1 = ht.tables 1 := setTable_tables_ne _ (by decide) _
    refine ⟨by simpa using tv, by rw [other]; exact valid.table1, fun idle => ?_, fun rehashing => ?_⟩
    · rw [other]
      exact valid.idle idle
    · have rs := valid.rehashing rehashing
      refine ⟨rs.idx_nonneg, ?_, ?_, by rw [other]; exact rs.alloc1, ?_⟩
      · simpa [exp] using rs.idx_lt
      · simpa [alloc] using rs.alloc0
      · intro i below
        simpa [done rehashing rfl i below] using rs.done i below
  | 1 =>
    have other : (ht.setTable 1 u).tables 0 = ht.tables 0 := setTable_tables_ne _ (by decide) _
    refine ⟨by rw [other]; exact valid.table0, by simpa using tv, fun idle => ?_, fun rehashing => ?_⟩
    · have none1 := valid.idle idle
      simp only [setTable_tables_self]
      cases h : u.buckets
      · rfl
      · simp [h, none1] at alloc
    · have rs := valid.rehashing rehashing
      refine ⟨rs.idx_nonneg, by rw [other]; exact rs.idx_lt, by rw [other]; exact rs.alloc0, ?_, ?_⟩
      · simpa [alloc] using rs.alloc1
      · simpa [other] using rs.done

theorem Ready.table_alloc {ht : Hashtable α} (valid : Valid T ht) (ready : Ready ht) :
    (ht.tables (if ht.isRehashing then 1 else 0)).buckets.isSome := by
  by_cases rehashing : ht.isRehashing = true
  · simp only [rehashing, if_true]
    exact (valid.rehashing (by simpa [Hashtable.isRehashing] using rehashing)).alloc1
  · rcases ready with contra | alloc0
    · contradiction
    · simpa [rehashing] using alloc0

theorem Valid.replaceChain {ht : Hashtable α} (valid : Valid T ht) {t : Fin 2} {bs : List (List (Bucket α))}
    (alloc : (ht.tables t).buckets = some bs) {idx : Nat} (hidx : idx < bs.length) {ch : List (Bucket α)}
    (wf : ChainWF ch) (placed : ∀ x ∈ chainContent ch, Placed T (ht.tables t).exp idx x)
    (notDone : ht.rehashIdx ≠ -1 → t = 0 → ht.rehashIdx.toNat ≤ idx) {u : Table α}
    (buckets : u.buckets = some (bs.set idx ch)) (exp : u.exp = (ht.tables t).exp)
    (used : u.used + Multiset.card (chainContent bs[idx]) = (ht.tables t).used + Multiset.card (chainContent ch))
    (child : u.childBuckets + (bs[idx].length - 1) = (ht.tables t).childBuckets + (ch.length - 1)) :
    Valid T (ht.setTable t u) ∧
      htContent (ht.setTable t u) + chainContent bs[idx] = htContent ht + chainContent ch := by
  obtain ⟨tv, sum⟩ := (valid.table t).replaceChain alloc hidx wf placed buckets exp used child
  refine ⟨valid.setTable tv (by simp [buckets, alloc]) exp fun rehashing zero i below => ?_, ?_⟩
  · have ne : i ≠ idx := by
      have := notDone rehashing zero
      omega
    subst zero
    simp [Table.chain, buckets, alloc, Ne.symm ne]
  · have whole := htContent_setTable ht t u
    apply add_right_cancel (b := tableContent (ht.tables t))
    calc htContent (ht.setTable t u) + chainContent bs[idx] + tableContent (ht.tables t)
        = htContent (ht.setTable t u) + tableContent (ht.tables t) + chainContent bs[idx] := by abel
      _ = htContent ht + (tableContent u + chainContent bs[idx]) := by rw [whole]; abel
      _ = htContent ht + chainContent ch + tableContent (ht.tables t) := by rw [sum]; abel

theorem Valid.notDone {ht : Hashtable α} (valid : Valid T ht) {p : Position} {b : Bucket α}
    (at_p : ht.bucketAt p = some b) {q : Nat} (live : b.chained = true ∨ isPositionFilled b q = true) :
    ht.rehashIdx ≠ -1 → p.table = 0 → ht.rehashIdx.toNat ≤ p.index := by
  intro rehashing zero
  by_contra below
  obtain ⟨b', single, empty, unchained⟩ := (valid.rehashing rehashing).done p.index (by omega)
  simp only [Hashtable.bucketAt, zero, single, List.getElem?_singleton] at at_p
  obtain ⟨-, rfl⟩ : p.depth = 0 ∧ b' = b := by simpa using at_p
  rcases live with chained | filled
  · simp [unchained] at chained
  · simp [isPositionFilled, empty] at filled

theorem bucketAt_some {ht : Hashtable α} {p : Position} {b : Bucket α} (at_p : ht.bucketAt p = some b) :
    ∃ bs, (ht.tables p.table).buckets = some bs ∧ ∃ hidx : p.index < bs.length,
      ∃ hd : p.depth < bs[p.index].length, bs[p.index][p.depth] = b := by
  simp only [Hashtable.bucketAt, Table.chain] at at_p
  cases alloc : (ht.tables p.table).buckets with
  | none => simp [alloc] at at_p
  | some bs =>
    rw [alloc, Option.getD_some] at at_p
    by_cases hidx : p.index < bs.length
    · rw [List.getElem?_eq_getElem hidx, Option.getD_some] at at_p
      obtain ⟨hd, same⟩ := List.getElem?_eq_some_iff.mp at_p
      exact ⟨bs, rfl, hidx, hd, same⟩
    · simp [List.getElem?_eq_none (Nat.le_of_not_lt hidx)] at at_p

theorem Valid.clearAt {ht : Hashtable α} (valid : Valid T ht) {p : Position} {b : Bucket α}
    (at_p : ht.bucketAt p = some b) (hpos : p.pos < numBucketPositions b) (filled : isPositionFilled b p.pos = true) :
    Valid T ((ht.modifyBucket p (·.clear p.pos)).modifyTable p.table fun t => { t with used := t.used - 1 }) ∧
      htContent ht = (b.entries p.pos, b.hashes p.pos) ::ₘ
        htContent ((ht.modifyBucket p (·.clear p.pos)).modifyTable p.table fun t => { t with used := t.used - 1 }) := by
  obtain ⟨bs, alloc, hidx, hd, rfl⟩ := bucketAt_some at_p
  have tv := valid.table p.table
  have hpos7 : p.pos < entriesPerBucket := by
    simp only [numBucketPositions] at hpos
    omega
  have wf := tv.chains bs alloc _ (List.getElem_mem hidx)
  let ch := bs[p.index].set p.depth (bs[p.index][p.depth].clear p.pos)
  have wf' : ChainWF ch := by
    refine wf.set hd _ rfl fun chained => ?_
    have lastFree := (wf.linked_of_chained (List.getElem_mem hd) (by simpa using chained)).2
    rw [Bucket.isPositionFilled_clear _ hpos7, lastFree, Bool.and_false]
  have shrunk : chainContent bs[p.index] =
      (bs[p.index][p.depth].entries p.pos, bs[p.index][p.depth].hashes p.pos) ::ₘ chainContent ch := by
    have h := chainContent_set bs[p.index] hd (bs[p.index][p.depth].clear p.pos)
    rw [Bucket.content_clear _ hpos7 filled, Multiset.add_cons, ← Multiset.cons_add] at h
    exact (add_right_cancel h).symm
  have placed : ∀ x ∈ chainContent ch, Placed T (ht.tables p.table).exp p.index x := by
    intro x mem
    refine tv.placed p.index x ?_
    rw [chain_eq alloc hidx, shrunk]
    exact Multiset.mem_cons_of_mem mem
  have nonempty : 0 < (ht.tables p.table).used := by
    rw [tv.used]
    have mem : (bs[p.index][p.depth].entries p.pos, bs[p.index][p.depth].hashes p.pos) ∈
        chainContent bs[p.index] := by
      rw [shrunk]
      exact Multiset.mem_cons_self _ _
    exact Multiset.card_pos_iff_exists_mem.mpr ⟨_, Multiset.mem_of_le (chainContent_le_tableContent alloc hidx) mem⟩
  obtain ⟨valid', sum⟩ := valid.replaceChain alloc hidx wf' placed (valid.notDone at_p (.inr filled))
    (u := { (ht.tables p.table).setChain p.index ch with used := (ht.tables p.table).used - 1 })
    (setChain_buckets alloc _ _) rfl (by rw [shrunk, Multiset.card_cons]; simp; omega) (by simp [ch])
  have same : (ht.modifyBucket p (·.clear p.pos)).modifyTable p.table (fun t => { t with used := t.used - 1 }) =
      ht.setTable p.table { (ht.tables p.table).setChain p.index ch with used := (ht.tables p.table).used - 1 } := by
    rw [Hashtable.modifyBucket_eq, Hashtable.modifyTable_modifyTable]
    simp only [Hashtable.modifyTable]
    rw [chain_eq alloc hidx, modify_eq_set_getElem _ hd]
    rfl
  rw [same]
  refine ⟨valid', ?_⟩
  rw [shrunk, Multiset.add_cons, ← Multiset.cons_add] at sum
  exact (add_right_cancel sum).symm

theorem Hashtable.bucketAt_modifyTable (ht : Hashtable α) (i : Fin 2) (f : Table α → Table α)
    (keep : ∀ t, (f t).buckets = t.buckets) (p : Position) : (ht.modifyTable i f).bucketAt p = ht.bucketAt p := by
  simp only [bucketAt, modifyTable_tables]
  split
  · rename_i same
    rw [same]
    simp [Table.chain, keep]
  · rfl

theorem fillBucketHoleAt_spec {ht : Hashtable α} (valid : Valid T ht) {p : Position} {b : Bucket α}
    (at_p : ht.bucketAt p = some b) (chained : b.chained = true) (hpos : p.pos < numBucketPositions b)
    (hole : isPositionFilled b p.pos = false) :
    ∃ ht', fillBucketHoleAt ht p = some ht' ∧ Preserved T ht ht' := by
  obtain ⟨bs, alloc, hidx, hd, rfl⟩ := bucketAt_some at_p
  have tv := valid.table p.table
  have wf := tv.chains bs alloc _ (List.getElem_mem hidx)
  have hd' : p.depth + 1 < bs[p.index].length := (wf.getElem_chained hd).mp chained
  have hpos6 : p.pos < entriesPerBucket - 1 := by
    rw [numBucketPositions_chained chained] at hpos
    exact hpos
  obtain ⟨c', freed, fill, wf', content, len, kept⟩ := fillBucketHole_spec wf hd' hpos6 hole
  have placed : ∀ x ∈ chainContent c', Placed T (ht.tables p.table).exp p.index x := by
    intro x mem
    refine tv.placed p.index x ?_
    rw [chain_eq alloc hidx, ← content]
    exact mem
  -- the freed buckets were child buckets of this chain
  have children := length_le_childCount alloc hidx
  rw [← tv.childBuckets] at children
  obtain ⟨valid', sum⟩ := valid.replaceChain alloc hidx wf' placed (valid.notDone at_p (q := 0) (.inl chained))
    (u := { (ht.tables p.table).setChain p.index c' with
      childBuckets := (ht.tables p.table).childBuckets - freed })
    (setChain_buckets alloc _ _) rfl (by rw [content]; rfl)
    (by show (ht.tables p.table).childBuckets - freed + _ = _; omega)
  refine ⟨_, ?_, ⟨valid', ?_, rfl, rfl⟩⟩
  · simp [fillBucketHoleAt, chain_eq alloc hidx, fill, Hashtable.modifyTable]
  · rw [content] at sum
    exact add_right_cancel sum

theorem fillBucketHoleAt_cleared {ht : Hashtable α} (valid : Valid T ht) {p : Position} {b : Bucket α}
    (at_p : ht.bucketAt p = some b) (hpos : p.pos < numBucketPositions b) (hole : isPositionFilled b p.pos = false)
    (fill : Bool) (chained : fill = true → b.chained = true) :
    ∃ ht', (if fill then fillBucketHoleAt ht p else pure ht) = some ht' ∧ Preserved T ht ht' := by
  cases fill with
  | true => exact fillBucketHoleAt_spec valid at_p (chained rfl) hpos hole
  | false => exact ⟨ht, rfl, Preserved.refl valid⟩

theorem bucketAt_cleared {ht : Hashtable α} {p : Position} {b : Bucket α} (at_p : ht.bucketAt p = some b) :
    ((ht.modifyBucket p (·.clear p.pos)).modifyTable p.table fun t => { t with used := t.used - 1 }).bucketAt p =
      some (b.clear p.pos) := by
  rw [Hashtable.bucketAt_modifyTable _ _ (fun t => { t with used := t.used - 1 }) (fun _ => rfl),
    Hashtable.bucketAt_modifyBucket, at_p]
  rfl

theorem isPositionFilled_cleared {b : Bucket α} {pos : Nat} (hpos : pos < numBucketPositions b) :
    pos < numBucketPositions (b.clear pos) ∧ isPositionFilled (b.clear pos) pos = false := by
  have hpos7 : pos < entriesPerBucket := by
    simp only [numBucketPositions] at hpos
    omega
  refine ⟨hpos, ?_⟩
  rw [Bucket.isPositionFilled_clear _ hpos7]
  simp

theorem Valid.withPauses {ht : Hashtable α} (valid : Valid T ht) (pauseRehash pauseAutoShrink : Int) :
    Valid T { ht with pauseRehash := pauseRehash, pauseAutoShrink := pauseAutoShrink } := by
  refine ⟨valid.table0, valid.table1, valid.idle, fun rehashing => ?_⟩
  have rs := valid.rehashing rehashing
  exact ⟨rs.idx_nonneg, rs.idx_lt, rs.alloc0, rs.alloc1, rs.done⟩

section Insert

variable [Inhabited α] (policy : ResizePolicy)

theorem findBucketForInsert_store {ht : Hashtable α} (valid : Valid T ht) (ready : Ready ht) (entry : α) :
    ∃ ht₁ p tb, findBucketForInsert ht (hashOf T entry) = some (ht₁, p) ∧
      p.table = (if ht.isRehashing then 1 else 0) ∧
      ht₁.modifyBucket p (fun b => b.fill p.pos entry (highBits (hashOf T entry))) = ht.setTable p.table tb ∧
      tb.used = (ht.tables p.table).used ∧
      Valid T (ht.setTable p.table { tb with used := tb.used + 1 }) ∧
      htContent (ht.setTable p.table { tb with used := tb.used + 1 }) =
        (entry, highBits (hashOf T entry)) ::ₘ htContent ht := by
  have alloc := ready.table_alloc valid
  have tv := valid.table (if ht.isRehashing then 1 else 0)
  obtain ⟨bs, allocEq⟩ := Option.isSome_iff_exists.mp alloc
  have placed : Placed T (ht.tables (if ht.isRehashing then 1 else 0)).exp
      (bucketIndex (ht.tables (if ht.isRehashing then 1 else 0)) (hashOf T entry))
      (entry, highBits (hashOf T entry)) :=
    ⟨(bucketIndex_eq (tv.allocated bs allocEq).1 _).symm, rfl⟩
  obtain ⟨ht₁, p, tb, find, table, filled, valid', used, exp, allocTb, content⟩ :=
    findBucketForInsert_fill rfl tv alloc _ placed
  refine ⟨ht₁, p, tb, find, table, by rw [filled, table], by rw [used, table], ?_, ?_⟩
  · rw [table]
    refine valid.setTable valid' (by simp [allocTb, alloc]) exp fun rehashing zero => ?_
    -- while rehashing, insertions go to table 1
    have : ht.isRehashing = true := by simpa [Hashtable.isRehashing] using rehashing
    simp [this] at zero
  · have sum := htContent_setTable ht p.table { tb with used := tb.used + 1 }
    rw [table] at sum
    have grown : tableContent { tb with used := tb.used + 1 } = (entry, highBits (hashOf T entry)) ::ₘ
        tableContent (ht.tables (if ht.isRehashing then 1 else 0)) := content
    rw [grown, Multiset.add_cons, ← Multiset.cons_add] at sum
    rw [table]
    exact add_right_cancel sum

theorem insert_spec {ht : Hashtable α} (valid : Valid T ht) (entry : α) :
    ∃ ht', insert T policy ht (hashOf T entry) entry = some ht' ∧ Valid T ht' ∧
      htContent ht' = (entry, highBits (hashOf T entry)) ::ₘ htContent ht ∧
      ht'.pauseRehash = ht.pauseRehash ∧ ht'.pauseAutoShrink = ht.pauseAutoShrink := by
  obtain ⟨resized, ht₁, expanded, preserved₁, ready₁⟩ := hashtableExpandIfNeeded_spec policy valid
  obtain ⟨ht₂, written, preserved₂, ready₂⟩ := rehashStepOnWriteIfNeeded_spec policy preserved₁.valid
  have preserved := preserved₁.trans preserved₂
  obtain ⟨ht₃, p, tb, find, -, filled, -, valid', content⟩ :=
    findBucketForInsert_store preserved.valid (ready₂ ready₁) entry
  refine ⟨_, ?_, valid', by rw [content, preserved.content], by simp [preserved.pauseRehash],
    by simp [preserved.pauseAutoShrink]⟩
  simp [insert, expanded, written, find, filled, Hashtable.modifyTable_setTable]

theorem hashtableFind_spec {ht : Hashtable α} (valid : Valid T ht) (key : κ) :
    ∃ res ht', hashtableFind T policy ht key = some (res, ht') ∧ Preserved T ht ht' ∧
      (∀ e, res = some e → ∃ x ∈ htContent ht', x.1 = e ∧ checkCandidateInBucket T key e = true) ∧
      (res = none → ∀ x ∈ htContent ht', hashOf T x.1 = T.hashFunction key →
        checkCandidateInBucket T key x.1 = false) := by
  unfold hashtableFind
  split
  · rename_i empty
    refine ⟨none, ht, rfl, Preserved.refl valid, by simp, fun _ x mem => ?_⟩
    rw [htContent_eq_zero valid empty] at mem
    simp at mem
  · obtain ⟨ht₁, res, find, preserved, -, sound, complete⟩ :=
      findBucket_spec policy valid (T.hashFunction key) key
    cases res with
    | none => exact ⟨none, ht₁, by simp [find], preserved, by simp, fun _ => complete rfl⟩
    | some p =>
      obtain ⟨-, hit⟩ := sound p rfl
      obtain ⟨b, at_p, mem, -, candidate⟩ := hit.mem
      refine ⟨some (b.entries p.pos), ht₁, by simp [find, at_p], preserved, ?_, by simp⟩
      intro e same
      cases same
      exact ⟨_, mem_htContent mem, rfl, candidate⟩

theorem hashtableAddOrFind_spec {ht : Hashtable α} (valid : Valid T ht) (entry : α) :
    ∃ added existing ht', hashtableAddOrFind T policy ht entry = some (added, existing, ht') ∧
      Valid T ht' ∧ ht'.pauseRehash = ht.pauseRehash ∧ ht'.pauseAutoShrink = ht.pauseAutoShrink ∧
      (added = false → htContent ht' = htContent ht ∧ ∃ e, existing = some e ∧
        ∃ x ∈ htContent ht, x.1 = e ∧ checkCandidateInBucket T (T.entryGetKey entry) e = true) ∧
      (added = true → existing = none ∧
        htContent ht' = (entry, highBits (hashOf T entry)) ::ₘ htContent ht ∧
        ∀ x ∈ htContent ht, hashOf T x.1 = hashOf T entry →
          checkCandidateInBucket T (T.entryGetKey entry) x.1 = false) := by
  obtain ⟨ht₁, res, find, preserved, -, sound, complete⟩ :=
    findBucket_spec policy valid (T.hashFunction (T.entryGetKey entry)) (T.entryGetKey entry)
  cases res with
  | some p =>
    obtain ⟨-, hit⟩ := sound p rfl
    obtain ⟨b, at_p, mem, -, candidate⟩ := hit.mem
    refine ⟨false, some (b.entries p.pos), ht₁, by simp [hashtableAddOrFind, find, at_p], preserved.valid,
      preserved.pauseRehash, preserved.pauseAutoShrink, fun _ => ⟨preserved.content, _, rfl, ?_⟩, by simp⟩
    rw [← preserved.content]
    exact ⟨_, mem_htContent mem, rfl, candidate⟩
  | none =>
    obtain ⟨ht₂, inserted, valid₂, content, pauseRehash, pauseAutoShrink⟩ :=
      insert_spec policy preserved.valid entry
    have inserted' : insert T policy ht₁ (T.hashFunction (T.entryGetKey entry)) entry = some ht₂ := inserted
    refine ⟨true, none, ht₂, by simp [hashtableAddOrFind, find, inserted'], valid₂,
      pauseRehash.trans preserved.pauseRehash, pauseAutoShrink.trans preserved.pauseAutoShrink, by simp,
      fun _ => ⟨rfl, by rw [content, preserved.content], ?_⟩⟩
    rw [← preserved.content]
    exact complete rfl

theorem findBucketForInsert_free {ht : Hashtable α} (valid : Valid T ht) (ready : Ready ht) (hash : UInt64) :
    ∃ ht₁ p b, findBucketForInsert ht hash = some (ht₁, p) ∧ ht₁.bucketAt p = some b ∧
      isPositionFilled b p.pos = false := by
  obtain ⟨bs, alloc⟩ := Option.isSome_iff_exists.mp (ready.table_alloc valid)
  obtain ⟨ch, depth, pos, added, find, -, -, -, hd, -, free⟩ :=
    findBucketForInsert_spec rfl (valid.table _) alloc hash
  have hidx := (valid.table _).bucketIndex_lt alloc hash
  refine ⟨_, _, ch[depth], find, ?_, free⟩
  simp [Hashtable.bucketAt, Table.chain, Table.setChain, alloc, hidx, List.getElem?_eq_getElem hd]

theorem hashtableInsertAtPosition_after_find {ht : Hashtable α} (valid : Valid T ht) (entry : α) :
    ((hashtableFindPositionForInsert T policy ht (T.entryGetKey entry)).bind fun r =>
      match r.1 with
      | .existing e => some (false, some e, r.2)
      | .position p => (hashtableInsertAtPosition r.2 entry p).map fun ht => (true, none, ht)) =
    hashtableAddOrFind T policy ht entry := by
  obtain ⟨ht₁, res, find, preserved, -, -, -⟩ :=
    findBucket_spec policy valid (T.hashFunction (T.entryGetKey entry)) (T.entryGetKey entry)
  cases res with
  | some p =>
    cases at_p : ht₁.bucketAt p <;> simp [hashtableFindPositionForInsert, hashtableAddOrFind, find, at_p]
  | none =>
    obtain ⟨resized, ht₂, expanded, preserved₂, ready₂⟩ := hashtableExpandIfNeeded_spec policy preserved.valid
    obtain ⟨ht₃, written, preserved₃, ready₃⟩ := rehashStepOnWriteIfNeeded_spec policy preserved₂.valid
    obtain ⟨ht₄, p, b, slot, at_p, free⟩ :=
      findBucketForInsert_free (preserved₂.trans preserved₃).valid (ready₃ ready₂) (T.hashFunction (T.entryGetKey entry))
    simp [hashtableFindPositionForInsert, hashtableAddOrFind, insert, hashtableInsertAtPosition, find, expanded,
      written, slot, at_p, free, Hashtable.bucketAt_modifyBucket, Hashtable.modifyBucket_modifyBucket]
    -- storing the hash byte first and the entry and presence bit after is `fill`
    exact ⟨free, rfl⟩

theorem hashtablePop_spec {ht : Hashtable α} (valid : Valid T ht) (key : κ) :
    ∃ res ht', hashtablePop T policy ht key = some (res, ht') ∧ Valid T ht' ∧
      ht'.pauseRehash = ht.pauseRehash ∧ ht'.pauseAutoShrink = ht.pauseAutoShrink ∧
      (∀ e, res = some e → checkCandidateInBucket T key e = true ∧
        ∃ h2, htContent ht = (e, h2) ::ₘ htContent ht') ∧
      (res = none → htContent ht' = htContent ht ∧
        ∀ x ∈ htContent ht, hashOf T x.1 = T.hashFunction key → checkCandidateInBucket T key x.1 = false) := by
  unfold hashtablePop
  split
  · rename_i empty
    refine ⟨none, ht, rfl, valid, rfl, rfl, by simp, fun _ => ⟨rfl, fun x mem => ?_⟩⟩
    rw [htContent_eq_zero valid empty] at mem
    simp at mem
  · obtain ⟨ht₁, res, find, preserved, -, sound, complete⟩ :=
      findBucket_spec policy valid (T.hashFunction key) key
    cases res with
    | none =>
      refine ⟨none, ht₁, by simp [find], preserved.valid, preserved.pauseRehash, preserved.pauseAutoShrink,
        by simp, fun _ => ⟨preserved.content, ?_⟩⟩
      rw [← preserved.content]
      exact complete rfl
    | some p =>
      obtain ⟨-, b, at_p, hpos, filled, -, candidate⟩ := sound p rfl
      obtain ⟨valid₂, content₂⟩ := preserved.valid.clearAt at_p hpos filled
      have at_p₂ := bucketAt_cleared at_p
      generalize hht₂ : (ht₁.modifyBucket p (·.clear p.pos)).modifyTable p.table
        (fun t => { t with used := t.used - 1 }) = ht₂ at valid₂ content₂ at_p₂ ⊢
      have pauses₂ : ht₂.pauseRehash = ht₁.pauseRehash ∧ ht₂.pauseAutoShrink = ht₁.pauseAutoShrink := by
        rw [← hht₂]
        exact ⟨rfl, rfl⟩
      obtain ⟨hpos₂, hole⟩ := isPositionFilled_cleared hpos
      obtain ⟨ht₃, filledHole, preserved₃⟩ := fillBucketHoleAt_cleared valid₂ at_p₂ hpos₂ hole
        (b.chained && !ht₂.isRehashingPaused) (by simp_all)
      obtain ⟨shrunk, ht₄, shrink, preserved₄, -⟩ := hashtableShrinkIfNeeded_spec policy preserved₃.valid
      refine ⟨some (b.entries p.pos), ht₄, ?_, preserved₄.valid, ?_, ?_, ?_, by simp⟩
      · -- the code continues after the `if` in both of its branches
        cases chained : b.chained <;> cases paused : ht₂.isRehashingPaused <;>
          simp only [chained, paused, Bool.and_true, Bool.and_false, Bool.not_true, Bool.not_false, if_true,
            Bool.false_eq_true, if_false] at filledHole
        case true.false =>
          simp [find, at_p, hht₂, chained, paused, filledHole, shrink]
        -- otherwise the state is the cleared one
        all_goals
          obtain rfl : ht₂ = ht₃ := Option.some.inj filledHole
          simp [find, at_p, hht₂, chained, paused, shrink]
      · rw [preserved₄.pauseRehash, preserved₃.pauseRehash, pauses₂.1, preserved.pauseRehash]
      · rw [preserved₄.pauseAutoShrink, preserved₃.pauseAutoShrink, pauses₂.2, preserved.pauseAutoShrink]
      · rintro e ⟨⟩
        exact ⟨candidate, _, by rw [← preserved.content, content₂, preserved₄.content, preserved₃.content]⟩

theorem hashtableDelete_spec {ht : Hashtable α} (valid : Valid T ht) (key : κ) :
    ∃ deleted ht', hashtableDelete T policy ht key = some (deleted, ht') ∧ Valid T ht' ∧
      ht'.pauseRehash = ht.pauseRehash ∧ ht'.pauseAutoShrink = ht.pauseAutoShrink ∧
      (deleted = true → ∃ x, checkCandidateInBucket T key x.1 = true ∧ htContent ht = x ::ₘ htContent ht') ∧
      (deleted = false → htContent ht' = htContent ht ∧
        ∀ x ∈ htContent ht, hashOf T x.1 = T.hashFunction key → checkCandidateInBucket T key x.1 = false) := by
  obtain ⟨res, ht', pop, valid', pauseRehash, pauseAutoShrink, found, missed⟩ := hashtablePop_spec policy valid key
  refine ⟨res.isSome, ht', by simp [hashtableDelete, pop], valid', pauseRehash, pauseAutoShrink, ?_, ?_⟩
  · intro some
    obtain ⟨e, rfl⟩ := Option.isSome_iff_exists.mp some
    obtain ⟨candidate, h2, content⟩ := found e rfl
    exact ⟨(e, h2), candidate, content⟩
  · intro none
    exact missed (Option.not_isSome_iff_eq_none.mp (by simpa using none))

theorem hashtableResumeAutoShrink_spec {ht : Hashtable α} (valid : Valid T ht) :
    ∃ ht', hashtableResumeAutoShrink T policy ht = some ht' ∧
      Preserved T { ht with pauseAutoShrink := ht.pauseAutoShrink - 1 } ht' := by
  have valid' := valid.withPauses ht.pauseRehash (ht.pauseAutoShrink - 1)
  unfold hashtableResumeAutoShrink
  dsimp only
  split
  · obtain ⟨shrunk, ht', shrink, preserved, -⟩ := hashtableShrinkIfNeeded_spec policy valid'
    exact ⟨ht', by simp [shrink], preserved⟩
  · exact ⟨_, rfl, Preserved.refl valid'⟩

theorem hashtableResumeRehashing_spec {ht : Hashtable α} (valid : Valid T ht) (paused : 0 < ht.pauseRehash) :
    ∃ ht', hashtableResumeRehashing T policy ht = some ht' ∧
      Preserved T { ht with pauseRehash := ht.pauseRehash - 1, pauseAutoShrink := ht.pauseAutoShrink - 1 } ht' := by
  obtain ⟨ht', resume, preserved⟩ :=
    hashtableResumeAutoShrink_spec policy (valid.withPauses (ht.pauseRehash - 1) ht.pauseAutoShrink)
  refine ⟨ht', ?_, preserved⟩
  simp only [hashtableResumeRehashing]
  rw [if_neg (by omega)]
  exact resume

theorem hashtableTwoPhasePop_spec {ht : Hashtable α} (valid : Valid T ht) (rehashPauses : 0 ≤ ht.pauseRehash)
    (shrinkPauses : 0 ≤ ht.pauseAutoShrink) (key : κ) :
    ∃ res ht₁, hashtableTwoPhasePopFindRef T policy ht key = some (res, ht₁) ∧
      (res = none → Preserved T ht ht₁ ∧
        ∀ x ∈ htContent ht, hashOf T x.1 = T.hashFunction key → checkCandidateInBucket T key x.1 = false) ∧
      (∀ e p, res = some (e, p) → checkCandidateInBucket T key e = true ∧
        ∃ ht₂, hashtableTwoPhasePopDelete T policy ht₁ p = some ht₂ ∧ Valid T ht₂ ∧
          ht₂.pauseRehash = ht.pauseRehash ∧ ht₂.pauseAutoShrink = ht.pauseAutoShrink ∧
          ∃ h2, htContent ht = (e, h2) ::ₘ htContent ht₂) := by
  unfold hashtableTwoPhasePopFindRef
  split
  · rename_i empty
    refine ⟨none, ht, rfl, fun _ => ⟨Preserved.refl valid, fun x mem => ?_⟩, by simp⟩
    rw [htContent_eq_zero valid empty] at mem
    simp at mem
  obtain ⟨ht₁, res, find, preserved, -, sound, complete⟩ := findBucket_spec policy valid (T.hashFunction key) key
  cases res with
  | none =>
    refine ⟨none, ht₁, by simp [find], fun _ => ⟨preserved, ?_⟩, by simp⟩
    rw [← preserved.content]
    exact complete rfl
  | some p =>
    obtain ⟨-, b, at_p, hpos, filled, -, candidate⟩ := sound p rfl
    refine ⟨some (b.entries p.pos, p), hashtablePauseRehashing ht₁, by simp [find, at_p], by simp, ?_⟩
    rintro e p' ⟨⟩
    refine ⟨candidate, ?_⟩
    -- the paused state has the same tables as the one `findBucket` left
    have valid₁ : Valid T (hashtablePauseRehashing ht₁) := preserved.valid.withPauses _ _
    have at_p₁ : (hashtablePauseRehashing ht₁).bucketAt p = some b := at_p
    obtain ⟨valid₂, content₂⟩ := valid₁.clearAt at_p₁ hpos filled
    have at_p₂ := bucketAt_cleared at_p₁
    generalize hht₂ : ((hashtablePauseRehashing ht₁).modifyBucket p (·.clear p.pos)).modifyTable p.table
      (fun t => { t with used := t.used - 1 }) = ht₂ at valid₂ content₂ at_p₂
    have pauses₂ : ht₂.pauseRehash = ht.pauseRehash + 1 ∧ ht₂.pauseAutoShrink = ht.pauseAutoShrink + 1 := by
      rw [← hht₂, ← preserved.pauseRehash, ← preserved.pauseAutoShrink]
      exact ⟨rfl, rfl⟩
    -- Delete pauses shrinking once more, so resuming rehashing does not shrink
    have resume : hashtableResumeRehashing T policy (hashtablePauseAutoShrink ht₂) =
        some { ht₂ with pauseRehash := ht₂.pauseRehash - 1 } := by
      have notNeg : ¬ht₂.pauseRehash - 1 < 0 := by omega
      have notZero : ht₂.pauseAutoShrink ≠ 0 := by omega
      simp [hashtableResumeRehashing, hashtableResumeAutoShrink, hashtablePauseAutoShrink, notNeg, notZero]
    have valid₃ := valid₂.withPauses (ht₂.pauseRehash - 1) ht₂.pauseAutoShrink
    have at_p₃ : ({ ht₂ with pauseRehash := ht₂.pauseRehash - 1 } : Hashtable α).bucketAt p =
        some (b.clear p.pos) := at_p₂
    obtain ⟨hpos₂, hole⟩ := isPositionFilled_cleared hpos
    obtain ⟨ht₄, filledHole, preserved₄⟩ := fillBucketHoleAt_cleared valid₃ at_p₃ hpos₂ hole
      (b.chained && !decide (ht₂.pauseRehash - 1 > 0)) (by simp_all)
    obtain ⟨ht₅, resume₅, preserved₅⟩ := hashtableResumeAutoShrink_spec policy preserved₄.valid
    refine ⟨ht₅, ?_, preserved₅.valid, ?_, ?_, b.hashes p.pos, ?_⟩
    · -- the code continues after the `if` in both of its branches
      cases chained : b.chained
      · -- an unchained bucket has no hole to fill
        simp [chained] at filledHole
        subst filledHole
        simp [hashtableTwoPhasePopDelete, at_p₁, filled, hht₂, resume, at_p₃, chained, resume₅]
      by_cases paused : 1 < ht₂.pauseRehash
      · -- an outer pause is still held: the hole stays
        simp [chained, paused] at filledHole
        subst filledHole
        simp [hashtableTwoPhasePopDelete, at_p₁, filled, hht₂, resume, at_p₃, Hashtable.isRehashingPaused,
          chained, paused, resume₅]
      · simp [chained, paused] at filledHole
        simp [hashtableTwoPhasePopDelete, at_p₁, filled, hht₂, resume, at_p₃, Hashtable.isRehashingPaused,
          chained, paused, filledHole, resume₅]
    · rw [preserved₅.pauseRehash, preserved₄.pauseRehash]
      simp only
      omega
    · rw [preserved₅.pauseAutoShrink]
      simp only [preserved₄.pauseAutoShrink]
      omega
    · have paused₁ : htContent (hashtablePauseRehashing ht₁) = htContent ht₁ := rfl
      rw [← preserved.content, ← paused₁, content₂, preserved₅.content]
      change _ = _ ::ₘ htContent ht₄
      rw [preserved₄.content]
      rfl

theorem rehashMicrosecondsLoop_spec (elapsed : Nat → Bool) (fuel : Nat) {ht : Hashtable α} (valid : Valid T ht)
    (rehashes : Nat)
    (enough : ht.isRehashing = true → numBuckets (ht.tables 0).exp - ht.rehashIdx.toNat ≤ fuel) :
    ∃ n ht', rehashMicrosecondsLoop T elapsed fuel rehashes ht = some (n, ht') ∧ Preserved T ht ht' := by
  induction fuel generalizing ht rehashes with
  | zero =>
    cases rehashing : ht.isRehashing
    · exact ⟨rehashes, ht, by simp [rehashMicrosecondsLoop, rehashing], Preserved.refl valid⟩
    · have lt := (valid.rehashing (by simpa [Hashtable.isRehashing] using rehashing)).idx_lt
      have := enough rehashing
      omega
  | succ fuel ih =>
    cases rehashing : ht.isRehashing
    · exact ⟨rehashes, ht, by simp [rehashMicrosecondsLoop, rehashing], Preserved.refl valid⟩
    obtain ⟨ht₁, step, advanced⟩ := rehashStep_spec valid rehashing
    -- a step that leaves the rehash running moved rehash_idx on over the same table 0
    have fewer : ht₁.isRehashing = true → numBuckets (ht₁.tables 0).exp - ht₁.rehashIdx.toNat ≤ fuel := by
      intro still
      have rs := valid.rehashing (by simpa [Hashtable.isRehashing] using rehashing)
      have before := enough rehashing
      rcases advanced.progress with ⟨idle, -⟩ | ⟨lt, exp0, -⟩
      · rw [idle] at still
        contradiction
      · have nonneg := rs.idx_nonneg
        rw [exp0]
        omega
    by_cases timeUp : ((rehashes + 1) % 128 == 0 && elapsed (rehashes + 1)) = true
    · exact ⟨rehashes + 1, ht₁, by simp_all [rehashMicrosecondsLoop], advanced.preserved⟩
    · obtain ⟨n, ht₂, loop, preserved⟩ := ih advanced.valid (rehashes + 1) fewer
      refine ⟨n, ht₂, ?_, advanced.preserved.trans preserved⟩
      simp only [rehashMicrosecondsLoop, rehashing, Bool.not_true, step]
      simp only [Bool.false_eq_true, if_false, Option.bind_eq_bind, Option.bind_some]
      rw [if_neg timeUp]
      exact loop

theorem hashtableRehashMicroseconds_spec {ht : Hashtable α} (valid : Valid T ht) (elapsed : Nat → Bool) :
    ∃ n ht', hashtableRehashMicroseconds T policy ht elapsed = some (n, ht') ∧ Preserved T ht ht' := by
  unfold hashtableRehashMicroseconds
  split
  · exact ⟨0, ht, rfl, Preserved.refl valid⟩
  split
  · exact ⟨0, ht, rfl, Preserved.refl valid⟩
  exact rehashMicrosecondsLoop_spec elapsed _ valid 0 fun _ => Nat.sub_le _ _

end Insert

end Kv.Hashtable
