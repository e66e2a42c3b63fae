import Kv.Kvstore.Tree

/-!
The invariant of the key-count index: every counter of the kvstore is what
the sizes of its hashtables make it. The key count, the number of non-empty
hashtables and the binary indexed tree are over the hashtables that are not
being imported; the importing key count is over those that are.
-/

set_option linter.dupNamespace false

namespace Kv.Kvstore

open Foundations Kv.Hashtable

variable {α κ : Type}

def countedSize (kvs : Kvstore α) (didx : Nat) : Nat :=
  if didx ∈ kvs.importing then 0 else kvstoreHashtableSize kvs didx

theorem countedSize_def (kvs : Kvstore α) (didx : Nat) :
    countedSize kvs didx = if didx ∈ kvs.importing then 0 else kvstoreHashtableSize kvs didx :=
  rfl

def importedSize (kvs : Kvstore α) (didx : Nat) : Nat :=
  if didx ∈ kvs.importing then kvstoreHashtableSize kvs didx else 0

theorem importedSize_def (kvs : Kvstore α) (didx : Nat) :
    importedSize kvs didx = if didx ∈ kvs.importing then kvstoreHashtableSize kvs didx else 0 :=
  rfl

def keysUpTo (kvs : Kvstore α) (didx : Nat) : Nat :=
  ∑ j ∈ Finset.range (didx + 1), countedSize kvs j

def treeValues (counts : Nat → Nat) (i : Nat) : Int :=
  counts (i - 1)

theorem treeValues_def (counts : Nat → Nat) (i : Nat) : treeValues counts i = counts (i - 1) :=
  rfl

structure Counters (kvs : Kvstore α) (counts imported : Nat → Nat) : Prop where
  keyCount : kvs.keyCount = ∑ d ∈ Finset.range kvs.numHashtables, (counts d : Int)
  importingKeyCount : kvs.importingKeyCount = ∑ d ∈ Finset.range kvs.numHashtables, (imported d : Int)
  nonEmpty : kvs.nonEmptyHashtables = ((Finset.range kvs.numHashtables).filter fun d => counts d ≠ 0).card
  tree : TreeAgrees (treeValues counts) kvs.hashtableSizeIndex kvs.numHashtables

variable (T : HashtableType α κ)

structure Fit (ht : Hashtable α) : Prop where
  valid : Valid T ht
  pauseRehash : 0 ≤ ht.pauseRehash
  -- hashtablePauseRehashing pauses both, and nothing else here pauses auto shrink
  pauseAutoShrink : ht.pauseAutoShrink = ht.pauseRehash

structure Tables (kvs : Kvstore α) : Prop where
  bits_pos : 0 < kvs.numHashtablesBits
  bits_le : kvs.numHashtablesBits ≤ 16
  numHashtables : kvs.numHashtables = 2 ^ kvs.numHashtablesBits
  fit : ∀ didx ht, kvs.hashtables didx = some ht → Fit T ht
  allocated : kvs.allocatedHashtables =
    ((Finset.range kvs.numHashtables).filter fun d => (kvs.hashtables d).isSome).card

structure Good (kvs : Kvstore α) : Prop where
  tables : Tables T kvs
  counters : Counters kvs (countedSize kvs) (importedSize kvs)

variable {T}

section Sizes

variable (kvs : Kvstore α) (didx : Nat)

theorem kvstoreHashtableSize_def : kvstoreHashtableSize kvs didx = ((kvs.hashtables didx).map hashtableSize).getD 0 := by
  unfold kvstoreHashtableSize
  cases kvs.hashtables didx <;> rfl

theorem kvstoreHashtableSize_of_eq {ht : Hashtable α} (table : kvs.hashtables didx = some ht) :
    kvstoreHashtableSize kvs didx = hashtableSize ht := by
  rw [kvstoreHashtableSize_def, table]
  rfl

@[simp]
theorem kvstoreHashtableSize_setHashtable_self (t : Option (Hashtable α)) :
    kvstoreHashtableSize (kvs.setHashtable didx t) didx = (t.map hashtableSize).getD 0 := by
  rw [kvstoreHashtableSize_def, Kvstore.setHashtable_hashtables, Function.update_self]

@[simp]
theorem kvstoreHashtableSize_setHashtable_of_ne {j : Nat} (other : j ≠ didx) (t : Option (Hashtable α)) :
    kvstoreHashtableSize (kvs.setHashtable didx t) j = kvstoreHashtableSize kvs j := by
  rw [kvstoreHashtableSize_def, kvstoreHashtableSize_def, Kvstore.setHashtable_hashtables, Function.update_of_ne other]

@[simp]
theorem setHashtable_setHashtable (t u : Option (Hashtable α)) :
    (kvs.setHashtable didx t).setHashtable didx u = kvs.setHashtable didx u := by
  simp [Kvstore.setHashtable]

theorem countedSize_setHashtable (t : Option (Hashtable α)) :
    countedSize (kvs.setHashtable didx t) =
      Function.update (countedSize kvs) didx (if didx ∈ kvs.importing then 0 else (t.map hashtableSize).getD 0) := by
  funext j
  by_cases same : j = didx
  · subst same
    simp [countedSize_def]
  · simp [countedSize_def, Function.update_of_ne same, kvstoreHashtableSize_setHashtable_of_ne kvs didx same]

theorem importedSize_setHashtable (t : Option (Hashtable α)) :
    importedSize (kvs.setHashtable didx t) =
      Function.update (importedSize kvs) didx (if didx ∈ kvs.importing then (t.map hashtableSize).getD 0 else 0) := by
  funext j
  by_cases same : j = didx
  · subst same
    simp [importedSize_def]
  · simp [importedSize_def, Function.update_of_ne same, kvstoreHashtableSize_setHashtable_of_ne kvs didx same]

end Sizes

section CountersUpdate

variable {kvs : Kvstore α} {counts imported : Nat → Nat} {didx : Nat}

theorem nonEmpty_rule {old new : Nat} {delta : Int} (size : (new : Int) = old + delta)
    (nonEmpty : Int) :
    (if delta < 0 ∧ new = 0 then nonEmpty - 1 else if 0 < delta ∧ (new : Int) = delta then nonEmpty + 1 else nonEmpty) =
      nonEmpty + ((if new ≠ 0 then 1 else 0) - if old ≠ 0 then 1 else 0) := by
  split_ifs <;> omega

theorem treeValues_update (counts : Nat → Nat) (didx new : Nat) {delta : Int}
    (size : (new : Int) = counts didx + delta) (i : Nat) (positive : 0 < i) :
    treeValues (Function.update counts didx new) i =
      if i = didx + 1 then treeValues counts i + delta else treeValues counts i := by
  by_cases at_didx : i = didx + 1
  · subst at_didx
    simp [treeValues_def, size]
  · rw [if_neg at_didx, treeValues_def, treeValues_def, Function.update_of_ne (by omega)]

theorem treeValues_nonneg (counts : Nat → Nat) (i : Nat) : 0 ≤ treeValues counts i :=
  Int.natCast_nonneg _

theorem cumulativeKeyCountAdd_counted (counters : Counters kvs counts imported) (several : 1 < kvs.numHashtables)
    (lt : didx < kvs.numHashtables) (notImporting : didx ∉ kvs.importing) {ht : Hashtable α}
    (table : kvs.hashtables didx = some ht) {delta : Int}
    (size : (hashtableSize ht : Int) = counts didx + delta) :
    ∃ keyCount nonEmpty tree, cumulativeKeyCountAdd kvs didx delta =
        some { kvs with keyCount, nonEmptyHashtables := nonEmpty, hashtableSizeIndex := tree } ∧
      Counters { kvs with keyCount, nonEmptyHashtables := nonEmpty, hashtableSizeIndex := tree }
        (Function.update counts didx (hashtableSize ht)) imported := by
  have covers : Covers (didx + 1) (didx + 1) := covers_self (Nat.succ_pos didx)
  -- a node covering the hashtable holds at least its old size, all that a removal takes
  have enough : delta < 0 → ∀ i, didx + 1 ≤ i → i ≤ kvs.numHashtables → Covers i (didx + 1) →
      |delta| ≤ kvs.hashtableSizeIndex i := by
    intro negative i _ le coversI
    have node := le_fenwickNode (treeValues counts) (treeValues_nonneg counts) coversI
    rw [treeValues_def, Nat.add_sub_cancel] at node
    rw [counters.tree i (by omega) le, abs_of_neg negative]
    omega
  have loop := cumulativeKeyCountAddLoop_eq kvs.hashtableSizeIndex covers enough
  refine ⟨kvs.keyCount + delta,
    if delta < 0 ∧ hashtableSize ht = 0 then kvs.nonEmptyHashtables - 1
    else if 0 < delta ∧ (hashtableSize ht : Int) = delta then kvs.nonEmptyHashtables + 1
    else kvs.nonEmptyHashtables,
    fun i => if didx + 1 ≤ i ∧ i ≤ kvs.numHashtables ∧ Covers i (didx + 1) then kvs.hashtableSizeIndex i + delta
      else kvs.hashtableSizeIndex i, ?_, ?_⟩
  · simp only [cumulativeKeyCountAdd, kvstoreIsImporting, if_pos lt, notImporting, decide_false, table,
      Option.bind_some, Option.pure_def, bind, if_neg several.ne', loop]
    rfl
  · have update : ∀ j, j ≠ didx → Function.update counts didx (hashtableSize ht) j = counts j :=
      fun j other => Function.update_of_ne other _ _
    refine ⟨?_, counters.importingKeyCount, ?_, ?_⟩
    · show kvs.keyCount + delta = _
      rw [sum_eq_add_sub_of_eq_off (Finset.mem_range.mpr lt) fun j other => by rw [update j other],
        ← counters.keyCount, Function.update_self]
      omega
    · show (if delta < 0 ∧ hashtableSize ht = 0 then _ else _) = _
      rw [card_filter_eq_add_sub_of_eq_off (Finset.mem_range.mpr lt) fun j other => by rw [update j other],
        ← counters.nonEmpty, Function.update_self, nonEmpty_rule (by omega)]
    · intro i positive le
      have node := fenwickNode_add (treeValues counts) (didx + 1) delta i
      show (if didx + 1 ≤ i ∧ i ≤ kvs.numHashtables ∧ Covers i (didx + 1) then _ else _) = _
      rw [fenwickNode_congr _ (treeValues_update counts didx _ size) i, node, ← counters.tree i positive le]
      by_cases coversI : Covers i (didx + 1)
      · rw [if_pos ⟨coversI.2, le, coversI⟩, if_pos coversI]
      · rw [if_neg fun ⟨_, _, c⟩ => coversI c, if_neg coversI, add_zero]

theorem cumulativeKeyCountAdd_importing (lt : didx < kvs.numHashtables) (importing : didx ∈ kvs.importing)
    (delta : Int) :
    cumulativeKeyCountAdd kvs didx delta = some { kvs with importingKeyCount := kvs.importingKeyCount + delta } := by
  simp [cumulativeKeyCountAdd, kvstoreIsImporting, lt, importing]

theorem Counters.imported_update (counters : Counters kvs counts imported) (lt : didx < kvs.numHashtables)
    (new : Nat) {delta : Int} (size : (new : Int) = imported didx + delta) :
    Counters { kvs with importingKeyCount := kvs.importingKeyCount + delta } counts
      (Function.update imported didx new) := by
  refine ⟨counters.keyCount, ?_, counters.nonEmpty, counters.tree⟩
  show kvs.importingKeyCount + delta = _
  rw [sum_eq_add_sub_of_eq_off (Finset.mem_range.mpr lt) fun j other => by rw [Function.update_of_ne other],
    ← counters.importingKeyCount, Function.update_self]
  omega

end CountersUpdate

section Frame

variable {kvs kvs' : Kvstore α} {counts imported : Nat → Nat}

theorem Counters.of_eq (counters : Counters kvs counts imported) (numHashtables : kvs'.numHashtables = kvs.numHashtables)
    (keyCount : kvs'.keyCount = kvs.keyCount) (importingKeyCount : kvs'.importingKeyCount = kvs.importingKeyCount)
    (nonEmpty : kvs'.nonEmptyHashtables = kvs.nonEmptyHashtables)
    (tree : kvs'.hashtableSizeIndex = kvs.hashtableSizeIndex) : Counters kvs' counts imported := by
  obtain ⟨keyCount₀, importingKeyCount₀, nonEmpty₀, tree₀⟩ := counters
  exact ⟨by rw [keyCount, keyCount₀, numHashtables], by rw [importingKeyCount, importingKeyCount₀, numHashtables],
    by rw [nonEmpty, nonEmpty₀, numHashtables], by rw [tree, numHashtables]; exact tree₀⟩

theorem Tables.of_eq (tables : Tables T kvs) (numHashtablesBits : kvs'.numHashtablesBits = kvs.numHashtablesBits)
    (numHashtables : kvs'.numHashtables = kvs.numHashtables) (hashtables : kvs'.hashtables = kvs.hashtables)
    (allocated : kvs'.allocatedHashtables = kvs.allocatedHashtables) : Tables T kvs' := by
  obtain ⟨bits_pos, bits_le, numHashtables₀, fit, allocated₀⟩ := tables
  refine ⟨by rwa [numHashtablesBits], by rwa [numHashtablesBits], by rw [numHashtables, numHashtablesBits]; exact numHashtables₀,
    by rw [hashtables]; exact fit, ?_⟩
  rw [allocated, allocated₀, numHashtables, hashtables]

theorem Tables.several (tables : Tables T kvs) : 1 < kvs.numHashtables := by
  rw [tables.numHashtables]
  exact Nat.one_lt_two_pow (by have := tables.bits_pos; omega)

theorem Tables.set (tables : Tables T kvs) {didx : Nat} (lt : didx < kvs.numHashtables) (t : Option (Hashtable α))
    (fit : ∀ ht, t = some ht → Fit T ht) :
    Tables T { kvs.setHashtable didx t with
      allocatedHashtables := kvs.allocatedHashtables +
        ((if t.isSome then 1 else 0) - if (kvs.hashtables didx).isSome then 1 else 0) } := by
  refine ⟨tables.bits_pos, tables.bits_le, tables.numHashtables, ?_, ?_⟩
  · intro j ht at_j
    by_cases same : j = didx
    · subst same
      simp only [Kvstore.setHashtable_hashtables, Function.update_self] at at_j
      exact fit ht at_j
    · simp only [Kvstore.setHashtable_hashtables, Function.update_of_ne same] at at_j
      exact tables.fit j ht at_j
  · show kvs.allocatedHashtables + _ =
      (((Finset.range kvs.numHashtables).filter fun d => (Function.update kvs.hashtables didx t d).isSome).card : Int)
    rw [card_filter_eq_add_sub_of_eq_off (Finset.mem_range.mpr lt) (fun j other => by rw [Function.update_of_ne other]),
      ← tables.allocated]
    simp

end Frame

section Keep

variable {kvs : Kvstore α} {didx : Nat}

theorem countedSize_setHashtable_of_size (t : Option (Hashtable α))
    (size : (t.map hashtableSize).getD 0 = kvstoreHashtableSize kvs didx) :
    countedSize (kvs.setHashtable didx t) = countedSize kvs := by
  rw [countedSize_setHashtable, size]
  exact Function.update_eq_self didx (countedSize kvs)

theorem importedSize_setHashtable_of_size (t : Option (Hashtable α))
    (size : (t.map hashtableSize).getD 0 = kvstoreHashtableSize kvs didx) :
    importedSize (kvs.setHashtable didx t) = importedSize kvs := by
  rw [importedSize_setHashtable, size]
  exact Function.update_eq_self didx (importedSize kvs)

theorem Good.set (good : Good T kvs) (lt : didx < kvs.numHashtables) (t : Option (Hashtable α))
    (fit : ∀ ht, t = some ht → Fit T ht) (size : (t.map hashtableSize).getD 0 = kvstoreHashtableSize kvs didx) :
    Good T { kvs.setHashtable didx t with
      allocatedHashtables := kvs.allocatedHashtables +
        ((if t.isSome then 1 else 0) - if (kvs.hashtables didx).isSome then 1 else 0) } := by
  refine ⟨good.tables.set lt t fit, ?_⟩
  show Counters _ (countedSize (kvs.setHashtable didx t)) (importedSize (kvs.setHashtable didx t))
  rw [countedSize_setHashtable_of_size t size, importedSize_setHashtable_of_size t size]
  exact good.counters.of_eq rfl rfl rfl rfl rfl

theorem Good.replace (good : Good T kvs) (lt : didx < kvs.numHashtables) {ht ht' : Hashtable α}
    (table : kvs.hashtables didx = some ht) (fit : Fit T ht') (size : hashtableSize ht' = hashtableSize ht) :
    Good T (kvs.setHashtable didx (some ht')) := by
  have set := good.set lt (some ht') (fun _ same => Option.some_inj.mp same ▸ fit)
    (by rw [Option.map_some, Option.getD_some, size, kvstoreHashtableSize_of_eq kvs didx table])
  simpa [table, Kvstore.setHashtable] using set

theorem Good.createHashtableIfNeeded (good : Good T kvs) (lt : didx < kvs.numHashtables) :
    Good T (createHashtableIfNeeded kvs didx).2 ∧
      (createHashtableIfNeeded kvs didx).2.hashtables didx = some (createHashtableIfNeeded kvs didx).1 := by
  unfold Kv.Kvstore.createHashtableIfNeeded
  cases table : kvs.hashtables didx with
  | some ht => exact ⟨good, table⟩
  | none =>
    have created : Fit T (hashtableCreate : Hashtable α) := ⟨(initWorld_good T .allow).valid, le_rfl, rfl⟩
    have set := good.set lt (some hashtableCreate) (fun _ same => Option.some_inj.mp same ▸ created)
      (by simp [kvstoreHashtableSize_def, table, hashtableSize, hashtableCreate, resetTable])
    simp only [table, Option.isSome_some, Option.isSome_none] at set
    exact ⟨by simpa using set, by simp⟩

theorem freeHashtableIfNeeded_cases (kvs : Kvstore α) (didx : Nat) :
    freeHashtableIfNeeded kvs didx = kvs ∨
      ∃ ht, kvs.hashtables didx = some ht ∧ hashtableSize ht = 0 ∧ ht.pauseRehash ≤ 0 ∧
        freeHashtableIfNeeded kvs didx =
          { kvs.setHashtable didx none with allocatedHashtables := kvs.allocatedHashtables - 1 } := by
  unfold Kv.Kvstore.freeHashtableIfNeeded
  cases kvs.hashtables didx with
  | none => exact Or.inl rfl
  | some ht =>
    simp only
    split
    · exact Or.inl rfl
    · rename_i freed
      simp [Hashtable.isRehashingPaused] at freed
      exact Or.inr ⟨ht, rfl, freed.1.2, freed.2, rfl⟩

theorem freeHashtableIfNeeded_frame (kvs : Kvstore α) (didx : Nat) :
    ∃ hashtables allocated, freeHashtableIfNeeded kvs didx = { kvs with hashtables, allocatedHashtables := allocated } := by
  rcases freeHashtableIfNeeded_cases kvs didx with kept | ⟨_, _, _, _, freed⟩
  · exact ⟨_, _, kept⟩
  · exact ⟨_, _, freed⟩

variable (kvs didx) in
theorem kvstoreHashtableSize_freeHashtableIfNeeded (j : Nat) :
    kvstoreHashtableSize (freeHashtableIfNeeded kvs didx) j = kvstoreHashtableSize kvs j := by
  rcases freeHashtableIfNeeded_cases kvs didx with kept | ⟨ht, table, empty, -, freed⟩
  · rw [kept]
  · rw [freed]
    show kvstoreHashtableSize (kvs.setHashtable didx none) j = _
    by_cases same : j = didx
    · subst same
      simp [kvstoreHashtableSize_of_eq kvs j table, empty]
    · exact kvstoreHashtableSize_setHashtable_of_ne kvs didx same none

theorem Tables.freeHashtableIfNeeded (tables : Tables T kvs) (lt : didx < kvs.numHashtables) :
    Tables T (freeHashtableIfNeeded kvs didx) := by
  rcases freeHashtableIfNeeded_cases kvs didx with kept | ⟨ht, table, _, _, freed⟩
  · rwa [kept]
  · have set := tables.set lt none (fun _ absurd => nomatch absurd)
    simp only [table, Option.isSome_some, Option.isSome_none] at set
    rw [freed]
    simpa [← sub_eq_add_neg] using set

theorem Good.freeHashtableIfNeeded (good : Good T kvs) (lt : didx < kvs.numHashtables) :
    Good T (freeHashtableIfNeeded kvs didx) := by
  have tables := good.tables.freeHashtableIfNeeded lt
  have sizes := kvstoreHashtableSize_freeHashtableIfNeeded kvs didx
  obtain ⟨hashtables, allocated, freed⟩ := freeHashtableIfNeeded_frame kvs didx
  rw [freed] at tables sizes ⊢
  have counted : countedSize { kvs with hashtables, allocatedHashtables := allocated } = countedSize kvs :=
    funext fun j => by simp only [countedSize_def, sizes j]
  have imported : importedSize { kvs with hashtables, allocatedHashtables := allocated } = importedSize kvs :=
    funext fun j => by simp only [importedSize_def, sizes j]
  refine ⟨tables, ?_⟩
  rw [counted, imported]
  exact good.counters.of_eq rfl rfl rfl rfl rfl

end Keep

section Count

variable {kvs : Kvstore α} {didx : Nat} {ht ht' : Hashtable α}

theorem Good.replace_count (good : Good T kvs) (lt : didx < kvs.numHashtables) (table : kvs.hashtables didx = some ht)
    (fit : Fit T ht') {delta : Int} (size : (hashtableSize ht' : Int) = hashtableSize ht + delta) :
    ∃ kvs', cumulativeKeyCountAdd (kvs.setHashtable didx (some ht')) didx delta = some kvs' ∧ Good T kvs' ∧
      kvs'.numHashtables = kvs.numHashtables := by
  have replaced := good.tables.set lt (some ht') (fun _ same => Option.some_inj.mp same ▸ fit)
  simp only [table, Option.isSome_some, sub_self, add_zero] at replaced
  have tables : Tables T (kvs.setHashtable didx (some ht')) := replaced.of_eq rfl rfl rfl rfl
  have counters : Counters (kvs.setHashtable didx (some ht')) (countedSize kvs) (importedSize kvs) :=
    good.counters.of_eq rfl rfl rfl rfl rfl
  have old := kvstoreHashtableSize_of_eq kvs didx table
  by_cases importing : didx ∈ kvs.importing
  · -- the keys are counted apart
    have add := cumulativeKeyCountAdd_importing (show didx < (kvs.setHashtable didx (some ht')).numHashtables from lt)
      (show didx ∈ (kvs.setHashtable didx (some ht')).importing from importing) delta
    refine ⟨_, add, ⟨tables.of_eq rfl rfl rfl rfl, ?_⟩, rfl⟩
    show Counters _ (countedSize (kvs.setHashtable didx (some ht'))) (importedSize (kvs.setHashtable didx (some ht')))
    rw [countedSize_setHashtable, importedSize_setHashtable, if_pos importing, if_pos importing,
      show Function.update (countedSize kvs) didx 0 = countedSize kvs from
        Function.update_eq_self_iff.mpr (by simp [countedSize_def, importing]),
      Option.map_some, Option.getD_some]
    exact counters.imported_update lt (hashtableSize ht') (by simp [importedSize_def, importing, old, size])
  · obtain ⟨keyCount, nonEmpty, tree, add, counted⟩ := cumulativeKeyCountAdd_counted counters tables.several lt importing
      (show (kvs.setHashtable didx (some ht')).hashtables didx = some ht' by simp)
      (show (hashtableSize ht' : Int) = countedSize kvs didx + delta by simp [countedSize_def, importing, old, size])
    refine ⟨_, add, ⟨tables.of_eq rfl rfl rfl rfl, ?_⟩, rfl⟩
    show Counters _ (countedSize (kvs.setHashtable didx (some ht'))) (importedSize (kvs.setHashtable didx (some ht')))
    rw [countedSize_setHashtable, importedSize_setHashtable, if_neg importing, if_neg importing,
      show Function.update (importedSize kvs) didx 0 = importedSize kvs from
        Function.update_eq_self_iff.mpr (by simp [importedSize_def, importing]),
      Option.map_some, Option.getD_some]
    exact counted

theorem Good.added (good : Good T kvs) (lt : didx < kvs.numHashtables) (table : kvs.hashtables didx = some ht)
    (fit : Fit T ht') (added : Bool) (size : hashtableSize ht' = hashtableSize ht + if added then 1 else 0) :
    ∃ kvs', (if added then cumulativeKeyCountAdd (kvs.setHashtable didx (some ht')) didx 1
      else some (kvs.setHashtable didx (some ht'))) = some kvs' ∧ Good T kvs' := by
  cases added with
  | false => exact ⟨_, rfl, good.replace lt table fit (by simpa using size)⟩
  | true =>
    obtain ⟨kvs', add, good', -⟩ := good.replace_count lt table fit
      (show (hashtableSize ht' : Int) = hashtableSize ht + 1 by simp [size])
    exact ⟨kvs', add, good'⟩

theorem Good.removed (good : Good T kvs) (lt : didx < kvs.numHashtables) (table : kvs.hashtables didx = some ht)
    (fit : Fit T ht') (removed : Bool) (size : hashtableSize ht = hashtableSize ht' + if removed then 1 else 0) :
    ∃ kvs', (if removed then removedFromHashtable (kvs.setHashtable didx (some ht')) didx
      else some (kvs.setHashtable didx (some ht'))) = some kvs' ∧ Good T kvs' := by
  cases removed with
  | false => exact ⟨_, rfl, good.replace lt table fit (by simpa using size.symm)⟩
  | true =>
    obtain ⟨kvs', add, good', same⟩ := good.replace_count lt table fit
      (show (hashtableSize ht' : Int) = hashtableSize ht + -1 by simp [size])
    exact ⟨_, by simp [removedFromHashtable, add], good'.freeHashtableIfNeeded (show didx < kvs'.numHashtables by omega)⟩

end Count

/-! ### Pauses of rehashing

A scan of the kvstore pauses rehashing in the hashtable it scans until the scan call returns. The calls of the
kvstore in between keep every hashtable's pauses: they create only hashtables that were not allocated, and free
only those that are not paused. -/

section Pauses

def pausesOf : Option (Hashtable α) → Int
  | none => 0
  | some ht => ht.pauseRehash

/-- What every call of the kvstore keeps: the number of hashtables and each hashtable's pauses of rehashing. -/
structure Kept (kvs kvs' : Kvstore α) : Prop where
  numHashtables : kvs'.numHashtables = kvs.numHashtables
  pauses : ∀ didx, pausesOf (kvs'.hashtables didx) = pausesOf (kvs.hashtables didx)

variable {kvs kvs' kvs'' : Kvstore α} {didx : Nat}

theorem Kept.refl (kvs : Kvstore α) : Kept kvs kvs := ⟨rfl, fun _ => rfl⟩

theorem Kept.trans (first : Kept kvs kvs') (second : Kept kvs' kvs'') : Kept kvs kvs'' :=
  ⟨second.numHashtables.trans first.numHashtables, fun j => (second.pauses j).trans (first.pauses j)⟩

theorem Kept.of_eq (numHashtables : kvs'.numHashtables = kvs.numHashtables) (hashtables : kvs'.hashtables = kvs.hashtables) :
    Kept kvs kvs' :=
  ⟨numHashtables, fun j => by rw [hashtables]⟩

theorem Kept.replace {ht ht' : Hashtable α} (table : kvs.hashtables didx = some ht)
    (same : ht'.pauseRehash = ht.pauseRehash) : Kept kvs (kvs.setHashtable didx (some ht')) := by
  refine ⟨rfl, fun j => ?_⟩
  by_cases at_didx : j = didx
  · subst at_didx
    simp [pausesOf, table, same]
  · simp [Function.update_of_ne at_didx]

theorem Kept.createHashtableIfNeeded : Kept kvs (createHashtableIfNeeded kvs didx).2 := by
  unfold Kv.Kvstore.createHashtableIfNeeded
  cases table : kvs.hashtables didx with
  | some ht => exact Kept.refl kvs
  | none =>
    -- a new hashtable is not paused
    refine ⟨rfl, fun j => ?_⟩
    by_cases at_didx : j = didx
    · subst at_didx
      simp [pausesOf, table, hashtableCreate]
    · simp [Function.update_of_ne at_didx]

theorem Kept.foldl_createHashtableIfNeeded (indexes : List Nat) (kvs : Kvstore α) :
    Kept kvs (indexes.foldl (fun kvs didx => (Kv.Kvstore.createHashtableIfNeeded kvs didx).2) kvs) := by
  induction indexes generalizing kvs with
  | nil => exact Kept.refl kvs
  | cons d indexes ih => exact Kept.createHashtableIfNeeded.trans (ih _)

theorem Kept.freeHashtableIfNeeded (nonneg : ∀ ht, kvs.hashtables didx = some ht → 0 ≤ ht.pauseRehash) :
    Kept kvs (freeHashtableIfNeeded kvs didx) := by
  rcases freeHashtableIfNeeded_cases kvs didx with kept | ⟨ht, table, -, unpaused, freed⟩
  · rw [kept]
    exact Kept.refl kvs
  · -- only a hashtable whose rehashing is not paused is freed
    rw [freed]
    refine ⟨rfl, fun j => ?_⟩
    by_cases at_didx : j = didx
    · subst at_didx
      have := nonneg ht table
      simp [pausesOf, table]
      omega
    · simp [Function.update_of_ne at_didx]

theorem cumulativeKeyCountAdd_kept {delta : Int} (add : cumulativeKeyCountAdd kvs didx delta = some kvs') :
    kvs'.hashtables = kvs.hashtables ∧ kvs'.numHashtables = kvs.numHashtables := by
  unfold Kv.Kvstore.cumulativeKeyCountAdd at add
  cases importing : kvstoreIsImporting kvs didx with
  | none => simp [importing] at add
  | some b =>
    cases b with
    | true =>
      simp only [importing, Option.bind_some, if_true, Option.pure_def, bind, Option.some_inj] at add
      rw [← add]
      exact ⟨rfl, rfl⟩
    | false =>
      cases table : kvs.hashtables didx with
      | none => simp [importing, table] at add
      | some ht =>
        simp only [importing, table, Option.bind_some, Bool.false_eq_true, if_false, Option.pure_def, bind] at add
        split at add
        · rw [← Option.some_inj.mp add]
          exact ⟨rfl, rfl⟩
        · cases loop : cumulativeKeyCountAddLoop kvs.numHashtables delta kvs.hashtableSizeIndex (didx + 1) with
          | none => simp [loop] at add
          | some tree =>
            simp only [loop, Option.bind_some, Option.some_inj] at add
            rw [← add]
            exact ⟨rfl, rfl⟩

theorem Kept.of_cumulativeKeyCountAdd {delta : Int} (add : cumulativeKeyCountAdd kvs didx delta = some kvs') :
    Kept kvs kvs' :=
  Kept.of_eq (cumulativeKeyCountAdd_kept add).2 (cumulativeKeyCountAdd_kept add).1

end Pauses

end Kv.Kvstore
