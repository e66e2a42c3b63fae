import Kv.Kvstore.Index

/-!
Every call of the kvstore keeps the invariant of the key-count index and
fails no assertion, except marking a non-empty hashtable as importing, which
the code asserts against. Each call first has its hashtable answer, through
the specifications of `Kv.Hashtable`, and then counts what changed with
`Good.added` or `Good.removed`.
-/

set_option linter.dupNamespace false

namespace Kv.Kvstore

open Foundations Kv.Hashtable

variable {α κ : Type} {T : HashtableType α κ}

section Hashtables

variable {ht : Hashtable α}

theorem card_of_inserts {entry : α} {c c' : Multiset (α × UInt8)} {added : Bool} {existing : Option α}
    (inserts : Inserts T entry c c' added existing) : Multiset.card c' = Multiset.card c + if added then 1 else 0 := by
  cases added with
  | false =>
    obtain ⟨same, -⟩ := inserts
    simp [same]
  | true =>
    obtain ⟨-, -, grown⟩ := inserts
    simp [grown]

theorem card_of_removes {key : κ} {c c' : Multiset (α × UInt8)} {res : Option α} (removes : Removes T key c c' res) :
    Multiset.card c = Multiset.card c' + if res.isSome then 1 else 0 := by
  cases res with
  | none =>
    obtain ⟨same, -⟩ := removes
    simp [same]
  | some e =>
    obtain ⟨-, h2, shrunk⟩ := removes
    simp [shrunk]

/-- A table with the pauses of a fitting one fits. -/
theorem Fit.keep (fit : Fit T ht) {ht' : Hashtable α} (valid : Valid T ht') (pauseRehash : ht'.pauseRehash = ht.pauseRehash)
    (pauseAutoShrink : ht'.pauseAutoShrink = ht.pauseAutoShrink) : Fit T ht' :=
  ⟨valid, pauseRehash ▸ fit.pauseRehash, by rw [pauseAutoShrink, pauseRehash]; exact fit.pauseAutoShrink⟩

variable [Inhabited α] (policy : ResizePolicy)

theorem hashtableAddOrFind_fit (fit : Fit T ht) (entry : α) :
    ∃ added existing ht', hashtableAddOrFind T policy ht entry = some (added, existing, ht') ∧ Fit T ht' ∧
      ht'.pauseRehash = ht.pauseRehash ∧ hashtableSize ht' = hashtableSize ht + if added then 1 else 0 := by
  obtain ⟨added, existing, ht', run, valid', pauseRehash, pauseAutoShrink, inserts⟩ :=
    hashtableAddOrFind_inserts policy fit.valid entry
  refine ⟨added, existing, ht', run, fit.keep valid' pauseRehash pauseAutoShrink, pauseRehash, ?_⟩
  rw [hashtableSize_eq_card valid', hashtableSize_eq_card fit.valid, card_of_inserts inserts]

theorem hashtablePop_fit (fit : Fit T ht) (key : κ) :
    ∃ popped ht', hashtablePop T policy ht key = some (popped, ht') ∧ Fit T ht' ∧
      ht'.pauseRehash = ht.pauseRehash ∧ hashtableSize ht = hashtableSize ht' + if popped.isSome then 1 else 0 := by
  obtain ⟨popped, ht', run, valid', pauseRehash, pauseAutoShrink, removes⟩ := hashtablePop_removes policy fit.valid key
  refine ⟨popped, ht', run, fit.keep valid' pauseRehash pauseAutoShrink, pauseRehash, ?_⟩
  rw [hashtableSize_eq_card valid', hashtableSize_eq_card fit.valid, card_of_removes removes]

theorem twoPhasePop_fit (fit : Fit T ht) (key : κ) :
    ∃ popped ht', twoPhasePop T policy ht key = some (popped, ht') ∧ Fit T ht' ∧
      ht'.pauseRehash = ht.pauseRehash ∧ hashtableSize ht = hashtableSize ht' + if popped.isSome then 1 else 0 := by
  obtain ⟨popped, ht', run, valid', pauseRehash, pauseAutoShrink, removes⟩ :=
    twoPhasePop_removes policy fit.valid fit.pauseRehash (by rw [fit.pauseAutoShrink]; exact fit.pauseRehash) key
  refine ⟨popped, ht', run, fit.keep valid' pauseRehash pauseAutoShrink, pauseRehash, ?_⟩
  rw [hashtableSize_eq_card valid', hashtableSize_eq_card fit.valid, card_of_removes removes]

end Hashtables

@[simp]
theorem createHashtableIfNeeded_numHashtables (kvs : Kvstore α) (didx : Nat) :
    (createHashtableIfNeeded kvs didx).2.numHashtables = kvs.numHashtables := by
  unfold createHashtableIfNeeded
  split <;> rfl

section Calls

variable {kvs kvs' : Kvstore α} {didx : Nat} {ht ht' : Hashtable α}

theorem Kept.added (table : kvs.hashtables didx = some ht) (same : ht'.pauseRehash = ht.pauseRehash)
    {added : Bool} (count : (if added then cumulativeKeyCountAdd (kvs.setHashtable didx (some ht')) didx 1
      else some (kvs.setHashtable didx (some ht'))) = some kvs') : Kept kvs kvs' := by
  have replaced := Kept.replace table same
  cases added with
  | false =>
    rw [← Option.some_inj.mp count]
    exact replaced
  | true => exact replaced.trans (Kept.of_cumulativeKeyCountAdd count)

theorem Kept.removed (table : kvs.hashtables didx = some ht) (same : ht'.pauseRehash = ht.pauseRehash)
    (nonneg : 0 ≤ ht'.pauseRehash) {removed : Bool}
    (count : (if removed then removedFromHashtable (kvs.setHashtable didx (some ht')) didx
      else some (kvs.setHashtable didx (some ht'))) = some kvs') : Kept kvs kvs' := by
  have replaced := Kept.replace table same
  cases removed with
  | false =>
    rw [← Option.some_inj.mp count]
    exact replaced
  | true =>
    obtain ⟨kvs₁, add, rfl⟩ := Option.map_eq_some_iff.mp count
    have kept := cumulativeKeyCountAdd_kept add
    refine (replaced.trans (Kept.of_cumulativeKeyCountAdd add)).trans (Kept.freeHashtableIfNeeded fun ht₁ at_didx => ?_)
    rw [kept.1] at at_didx
    simp only [Kvstore.setHashtable_hashtables, Function.update_self, Option.some_inj] at at_didx
    exact at_didx ▸ nonneg

variable [Inhabited α] (policy : ResizePolicy)

theorem kvstoreHashtableAdd_good (good : Good T kvs) (lt : didx < kvs.numHashtables) (entry : α) :
    ∃ added kvs', kvstoreHashtableAdd T policy kvs didx entry = some (added, kvs') ∧ Good T kvs' ∧
      Kept kvs kvs' := by
  obtain ⟨good₁, table₁⟩ := good.createHashtableIfNeeded lt
  have lt₁ : didx < (createHashtableIfNeeded kvs didx).2.numHashtables := by simpa using lt
  have kept₁ : Kept kvs (createHashtableIfNeeded kvs didx).2 := Kept.createHashtableIfNeeded
  generalize created : createHashtableIfNeeded kvs didx = pair at good₁ table₁ lt₁ kept₁
  obtain ⟨ht₀, kvs₁⟩ := pair
  obtain ⟨added, existing, ht', run, fit', same, size⟩ :=
    hashtableAddOrFind_fit policy (good₁.tables.fit _ _ table₁) entry
  obtain ⟨kvs', count, good'⟩ := good₁.added lt₁ table₁ fit' added size
  refine ⟨added, kvs', ?_, good', kept₁.trans (Kept.added table₁ same count)⟩
  cases added with
  | false =>
    obtain rfl := Option.some_inj.mp count
    simp [kvstoreHashtableAdd, created, hashtableAdd, run]
  | true =>
    rw [if_pos rfl] at count
    simp [kvstoreHashtableAdd, created, hashtableAdd, run, count]

theorem kvstoreStep_insert_good (good : Good T kvs) (lt : didx < kvs.numHashtables) (entry : α) :
    ∃ kvs', kvstoreStep T policy kvs (.insert didx entry) = some kvs' ∧ Good T kvs' ∧ Kept kvs kvs' := by
  obtain ⟨good₁, table₁⟩ := good.createHashtableIfNeeded lt
  have lt₁ : didx < (createHashtableIfNeeded kvs didx).2.numHashtables := by simpa using lt
  have kept₁ : Kept kvs (createHashtableIfNeeded kvs didx).2 := Kept.createHashtableIfNeeded
  generalize created : createHashtableIfNeeded kvs didx = pair at good₁ table₁ lt₁ kept₁
  obtain ⟨ht₀, kvs₁⟩ := pair
  have fit₀ := good₁.tables.fit _ _ table₁
  obtain ⟨added, existing, ht', run, fit', same, size⟩ := hashtableAddOrFind_fit policy fit₀ entry
  obtain ⟨kvs', count, good'⟩ := good₁.added lt₁ table₁ fit' added size
  refine ⟨kvs', ?_, good', kept₁.trans (Kept.added table₁ same count)⟩
  -- the two phases together are `hashtableAddOrFind`
  have pair := hashtableInsertAtPosition_after_find policy fit₀.valid entry
  rw [run] at pair
  cases find : hashtableFindPositionForInsert T policy ht₀ (T.entryGetKey entry) with
  | none => simp [find] at pair
  | some r =>
    obtain ⟨position, ht₁⟩ := r
    cases position with
    | existing e =>
      simp only [find, Option.bind_some, Option.some_inj, Prod.mk.injEq] at pair
      obtain ⟨rfl, -, rfl⟩ := pair
      obtain rfl := Option.some_inj.mp count
      simp [kvstoreStep, kvstoreHashtableFindPositionForInsert, created, find]
    | position p =>
      simp only [find, Option.bind_some, Option.map_eq_some_iff, Prod.mk.injEq] at pair
      obtain ⟨ht₂, insertAt, rfl, -, rfl⟩ := pair
      rw [if_pos rfl] at count
      simp [kvstoreStep, kvstoreHashtableFindPositionForInsert, kvstoreHashtableInsertAtPosition, created, find,
        insertAt, count]

theorem kvstoreHashtablePop_good (good : Good T kvs) (lt : didx < kvs.numHashtables) (key : κ) :
    ∃ popped kvs', kvstoreHashtablePop T policy kvs didx key = some (popped, kvs') ∧ Good T kvs' ∧
      Kept kvs kvs' := by
  cases table : kvs.hashtables didx with
  | none => exact ⟨none, kvs, by simp [kvstoreHashtablePop, table], good, Kept.refl kvs⟩
  | some ht =>
    obtain ⟨popped, ht', run, fit', same, size⟩ := hashtablePop_fit policy (good.tables.fit _ _ table) key
    obtain ⟨kvs', removed, good'⟩ := good.removed lt table fit' popped.isSome size
    refine ⟨popped, kvs', ?_, good', Kept.removed table same fit'.pauseRehash removed⟩
    cases popped with
    | none =>
      obtain rfl := Option.some_inj.mp removed
      simp [kvstoreHashtablePop, table, run]
    | some e =>
      rw [if_pos Option.isSome_some] at removed
      simp [kvstoreHashtablePop, table, run, removed]

theorem kvstoreHashtableDelete_good (good : Good T kvs) (lt : didx < kvs.numHashtables) (key : κ) :
    ∃ deleted kvs', kvstoreHashtableDelete T policy kvs didx key = some (deleted, kvs') ∧ Good T kvs' ∧
      Kept kvs kvs' := by
  cases table : kvs.hashtables didx with
  | none => exact ⟨false, kvs, by simp [kvstoreHashtableDelete, table], good, Kept.refl kvs⟩
  | some ht =>
    obtain ⟨popped, ht', run, fit', same, size⟩ := hashtablePop_fit policy (good.tables.fit _ _ table) key
    obtain ⟨kvs', removed, good'⟩ := good.removed lt table fit' popped.isSome size
    refine ⟨popped.isSome, kvs', ?_, good', Kept.removed table same fit'.pauseRehash removed⟩
    cases popped with
    | none =>
      obtain rfl := Option.some_inj.mp removed
      simp [kvstoreHashtableDelete, hashtableDelete, table, run]
    | some e =>
      rw [if_pos Option.isSome_some] at removed
      simp [kvstoreHashtableDelete, hashtableDelete, table, run, removed]

theorem kvstoreStep_twoPhasePop_good (good : Good T kvs) (lt : didx < kvs.numHashtables) (key : κ) :
    ∃ kvs', kvstoreStep T policy kvs (.twoPhasePop didx key) = some kvs' ∧ Good T kvs' ∧ Kept kvs kvs' := by
  cases table : kvs.hashtables didx with
  | none => exact ⟨kvs, by simp [kvstoreStep, kvstoreHashtableTwoPhasePopFindRef, table], good, Kept.refl kvs⟩
  | some ht =>
    obtain ⟨popped, ht', run, fit', same, size⟩ := twoPhasePop_fit policy (good.tables.fit _ _ table) key
    obtain ⟨kvs', removed, good'⟩ := good.removed lt table fit' popped.isSome size
    refine ⟨kvs', ?_, good', Kept.removed table same fit'.pauseRehash removed⟩
    cases findRef : hashtableTwoPhasePopFindRef T policy ht key with
    | none => simp [twoPhasePop, findRef] at run
    | some r =>
      obtain ⟨found, ht₁⟩ := r
      cases found with
      | none =>
        simp only [twoPhasePop, findRef, Option.bind_eq_bind, Option.bind_some, Option.pure_def, Option.some_inj,
          Prod.mk.injEq] at run
        obtain ⟨rfl, rfl⟩ := run
        obtain rfl := Option.some_inj.mp removed
        simp [kvstoreStep, kvstoreHashtableTwoPhasePopFindRef, table, findRef]
      | some found =>
        obtain ⟨e, p⟩ := found
        cases delete : hashtableTwoPhasePopDelete T policy ht₁ p with
        | none => simp [twoPhasePop, findRef, delete] at run
        | some ht₂ =>
          simp only [twoPhasePop, findRef, delete, Option.bind_eq_bind, Option.bind_some, Option.pure_def,
            Option.some_inj, Prod.mk.injEq] at run
          obtain ⟨rfl, rfl⟩ := run
          rw [if_pos Option.isSome_some] at removed
          simp [kvstoreStep, kvstoreHashtableTwoPhasePopFindRef, kvstoreHashtableTwoPhasePopDelete, table, findRef,
            delete, removed]

end Calls

section Importing

variable {kvs : Kvstore α} {didx : Nat}

theorem countedSize_withImporting (s : Finset Nat) (same : ∀ j, j ≠ didx → (j ∈ s ↔ j ∈ kvs.importing)) :
    countedSize { kvs with importing := s } =
      Function.update (countedSize kvs) didx (if didx ∈ s then 0 else kvstoreHashtableSize kvs didx) := by
  funext j
  by_cases at_didx : j = didx
  · subst at_didx
    simp only [countedSize_def, Function.update_self]
    rfl
  · simp only [countedSize_def, Function.update_of_ne at_didx, same j at_didx]
    rfl

theorem importedSize_withImporting (s : Finset Nat) (same : ∀ j, j ≠ didx → (j ∈ s ↔ j ∈ kvs.importing)) :
    importedSize { kvs with importing := s } =
      Function.update (importedSize kvs) didx (if didx ∈ s then kvstoreHashtableSize kvs didx else 0) := by
  funext j
  by_cases at_didx : j = didx
  · subst at_didx
    simp only [importedSize_def, Function.update_self]
    rfl
  · simp only [importedSize_def, Function.update_of_ne at_didx, same j at_didx]
    rfl

theorem Good.withImporting (good : Good T kvs) (s : Finset Nat) (same : ∀ j, j ≠ didx → (j ∈ s ↔ j ∈ kvs.importing))
    (empty : kvstoreHashtableSize kvs didx = 0) : Good T { kvs with importing := s } := by
  refine ⟨good.tables.of_eq rfl rfl rfl rfl, ?_⟩
  rw [countedSize_withImporting s same, importedSize_withImporting s same, empty, ite_self,
    show Function.update (countedSize kvs) didx 0 = countedSize kvs from
      Function.update_eq_self_iff.mpr (by simp [countedSize_def, empty]),
    show Function.update (importedSize kvs) didx 0 = importedSize kvs from
      Function.update_eq_self_iff.mpr (by simp [importedSize_def, empty])]
  exact good.counters.of_eq rfl rfl rfl rfl rfl

theorem Good.unmarked (good : Good T kvs) (lt : didx < kvs.numHashtables) (importing : didx ∈ kvs.importing)
    {ht : Hashtable α} (table : kvs.hashtables didx = some ht) :
    ∃ kvs', cumulativeKeyCountAdd { kvs with importing := kvs.importing.erase didx } didx (hashtableSize ht) = some kvs' ∧
      Good T { kvs' with importingKeyCount := kvs'.importingKeyCount - hashtableSize ht } := by
  have same : ∀ j, j ≠ didx → (j ∈ kvs.importing.erase didx ↔ j ∈ kvs.importing) :=
    fun j other => by simp [other]
  have counters₁ : Counters { kvs with importing := kvs.importing.erase didx } (countedSize kvs) (importedSize kvs) :=
    good.counters.of_eq rfl rfl rfl rfl rfl
  have counted₀ : countedSize kvs didx = 0 := by simp [countedSize_def, importing]
  have imported₀ : importedSize kvs didx = hashtableSize ht := by
    simp [importedSize_def, importing, kvstoreHashtableSize_of_eq kvs didx table]
  obtain ⟨keyCount, nonEmpty, tree, add, counted⟩ := cumulativeKeyCountAdd_counted counters₁ good.tables.several lt
    (Finset.notMem_erase didx _) table (show (hashtableSize ht : Int) = countedSize kvs didx + hashtableSize ht by
      rw [counted₀]; simp)
  -- the importing count drops by the keys now in the index
  have moved := counted.imported_update lt 0
    (show ((0 : Nat) : Int) = importedSize kvs didx + -(hashtableSize ht : Int) by rw [imported₀]; simp)
  refine ⟨_, add, ⟨good.tables.of_eq rfl rfl rfl rfl, ?_⟩⟩
  show Counters _ (countedSize { kvs with importing := kvs.importing.erase didx })
    (importedSize { kvs with importing := kvs.importing.erase didx })
  rw [countedSize_withImporting _ same, importedSize_withImporting _ same, if_neg (Finset.notMem_erase didx _),
    if_neg (Finset.notMem_erase didx _), kvstoreHashtableSize_of_eq kvs didx table, sub_eq_add_neg]
  exact moved

theorem kvstoreSetIsImporting_good (good : Good T kvs) (lt : didx < kvs.numHashtables) (isImporting : Bool)
    (empty : isImporting = true → kvstoreHashtableSize kvs didx = 0) :
    ∃ kvs', kvstoreSetIsImporting kvs didx isImporting = some kvs' ∧ Good T kvs' ∧ Kept kvs kvs' := by
  cases isImporting with
  | true =>
    -- the assertion holds: the hashtable is empty
    have size := empty rfl
    have passes : ((kvs.hashtables didx).any fun ht => hashtableSize ht != 0) = false := by
      cases table : kvs.hashtables didx with
      | none => rfl
      | some ht => simpa [kvstoreHashtableSize_of_eq kvs didx table] using size
    exact ⟨_, by simp [kvstoreSetIsImporting, lt, passes],
      good.withImporting (insert didx kvs.importing) (fun j other => by simp [other]) size, Kept.of_eq rfl rfl⟩
  | false =>
    have same : ∀ j, j ≠ didx → (j ∈ kvs.importing.erase didx ↔ j ∈ kvs.importing) :=
      fun j other => by simp [other]
    by_cases importing : didx ∈ kvs.importing
    · cases table : kvs.hashtables didx with
      | none =>
        exact ⟨_, by simp [kvstoreSetIsImporting, lt, table],
          good.withImporting _ same (by simp [kvstoreHashtableSize, table]), Kept.of_eq rfl rfl⟩
      | some ht =>
        by_cases holds : hashtableSize ht = 0
        · exact ⟨_, by simp [kvstoreSetIsImporting, lt, table, holds],
            good.withImporting _ same (by rw [kvstoreHashtableSize_of_eq kvs didx table, holds]), Kept.of_eq rfl rfl⟩
        · obtain ⟨kvs', add, good'⟩ := good.unmarked lt importing table
          -- the count moves to the index; the hashtables stay
          have kept := cumulativeKeyCountAdd_kept add
          exact ⟨_, by simp [kvstoreSetIsImporting, lt, table, importing, holds, add], good',
            Kept.of_eq kept.2 kept.1⟩
    · -- a hashtable that is not being imported keeps its counts
      refine ⟨{ kvs with importing := kvs.importing.erase didx }, ?_, ?_, Kept.of_eq rfl rfl⟩
      · cases table : kvs.hashtables didx <;> simp [kvstoreSetIsImporting, lt, table, importing]
      · rw [Finset.erase_eq_of_notMem importing]
        exact good

end Importing

section Empty

variable {kvs : Kvstore α} {didx : Nat}

theorem Good.of_empty (tables : Tables T kvs) (empty : ∀ j < kvs.numHashtables, kvstoreHashtableSize kvs j = 0)
    (keyCount : kvs.keyCount = 0) (importingKeyCount : kvs.importingKeyCount = 0) (nonEmpty : kvs.nonEmptyHashtables = 0)
    (tree : ∀ i, 0 < i → i ≤ kvs.numHashtables → kvs.hashtableSizeIndex i = 0) : Good T kvs := by
  have counted : ∀ j < kvs.numHashtables, countedSize kvs j = 0 := fun j lt => by simp [countedSize_def, empty j lt]
  have imported : ∀ j < kvs.numHashtables, importedSize kvs j = 0 := fun j lt => by simp [importedSize_def, empty j lt]
  refine ⟨tables, ⟨?_, ?_, ?_, ?_⟩⟩
  · rw [keyCount, Finset.sum_eq_zero fun j mem => by rw [counted j (Finset.mem_range.mp mem), Nat.cast_zero]]
  · rw [importingKeyCount, Finset.sum_eq_zero fun j mem => by rw [imported j (Finset.mem_range.mp mem), Nat.cast_zero]]
  · rw [nonEmpty, Finset.card_eq_zero.mpr (Finset.filter_eq_empty_iff.mpr fun j mem =>
      not_not.mpr (counted j (Finset.mem_range.mp mem))), Nat.cast_zero]
  · intro i positive le
    rw [tree i positive le, fenwickNode, rangeSum, Finset.sum_eq_zero]
    intro j mem
    have within := Finset.mem_Ioc.mp mem
    rw [treeValues_def, counted (j - 1) (by omega), Nat.cast_zero]

variable (kvs didx) in
theorem kvstoreEmptyHashtable_frame :
    ∃ hashtables allocated, kvstoreEmptyHashtable kvs didx = { kvs with hashtables, allocatedHashtables := allocated } := by
  unfold Kv.Kvstore.kvstoreEmptyHashtable
  cases kvs.hashtables didx with
  | none => exact ⟨_, _, rfl⟩
  | some ht =>
    obtain ⟨hashtables, allocated, freed⟩ :=
      freeHashtableIfNeeded_frame (kvs.setHashtable didx (some (hashtableEmpty ht))) didx
    exact ⟨hashtables, allocated, freed⟩

@[simp]
theorem kvstoreEmptyHashtable_numHashtables : (kvstoreEmptyHashtable kvs didx).numHashtables = kvs.numHashtables := by
  obtain ⟨hashtables, allocated, emptied⟩ := kvstoreEmptyHashtable_frame kvs didx
  rw [emptied]

theorem Tables.kvstoreEmptyHashtable (tables : Tables T kvs) (lt : didx < kvs.numHashtables) :
    Tables T (kvstoreEmptyHashtable kvs didx) ∧ kvstoreHashtableSize (kvstoreEmptyHashtable kvs didx) didx = 0 ∧
      ∀ j, j ≠ didx → kvstoreHashtableSize (kvstoreEmptyHashtable kvs didx) j = kvstoreHashtableSize kvs j := by
  unfold Kv.Kvstore.kvstoreEmptyHashtable
  cases table : kvs.hashtables didx with
  | none => exact ⟨tables, by simp [kvstoreHashtableSize, table], fun _ _ => rfl⟩
  | some ht =>
    simp only
    have fit := tables.fit didx ht table
    obtain ⟨valid, size, pauseRehash, pauseAutoShrink⟩ := hashtableEmpty_spec fit.valid
    have fitEmpty : Fit T (hashtableEmpty ht) := fit.keep valid pauseRehash pauseAutoShrink
    have set := tables.set lt (some (hashtableEmpty ht)) (fun _ same => Option.some_inj.mp same ▸ fitEmpty)
    simp only [table, Option.isSome_some, sub_self, add_zero] at set
    have emptied : Tables T (kvs.setHashtable didx (some (hashtableEmpty ht))) := set.of_eq rfl rfl rfl rfl
    refine ⟨emptied.freeHashtableIfNeeded lt, ?_, fun j other => ?_⟩
    · rw [kvstoreHashtableSize_freeHashtableIfNeeded]
      simp [size]
    · rw [kvstoreHashtableSize_freeHashtableIfNeeded, kvstoreHashtableSize_setHashtable_of_ne kvs didx other]

theorem kvstoreEmpty_loop (indexes : List Nat) :
    ∀ kvs : Kvstore α, Tables T kvs → (∀ d ∈ indexes, d < kvs.numHashtables) →
      Tables T (indexes.foldl kvstoreEmptyHashtable kvs) ∧
      (indexes.foldl kvstoreEmptyHashtable kvs).numHashtables = kvs.numHashtables ∧
      ∀ j, (j ∈ indexes ∨ kvstoreHashtableSize kvs j = 0) → kvstoreHashtableSize (indexes.foldl kvstoreEmptyHashtable kvs) j = 0 := by
  induction indexes with
  | nil => exact fun kvs tables _ => ⟨tables, rfl, fun j passed => passed.resolve_left List.not_mem_nil⟩
  | cons d indexes ih =>
    intro kvs tables bound
    obtain ⟨tables₁, emptied, others⟩ := tables.kvstoreEmptyHashtable (bound d List.mem_cons_self)
    obtain ⟨tables', same, empty⟩ := ih _ tables₁ fun j mem => by
      rw [kvstoreEmptyHashtable_numHashtables]
      exact bound j (List.mem_cons_of_mem d mem)
    refine ⟨tables', by rw [List.foldl_cons, same, kvstoreEmptyHashtable_numHashtables], fun j passed => empty j ?_⟩
    by_cases at_d : j = d
    · exact .inr (at_d ▸ emptied)
    · rcases passed with mem | zero
      · exact .inl ((List.mem_cons.mp mem).resolve_left at_d)
      · exact .inr (by rw [others j at_d, zero])

theorem Kept.kvstoreEmptyHashtable (tables : Tables T kvs) :
    Kept kvs (kvstoreEmptyHashtable kvs didx) := by
  unfold Kv.Kvstore.kvstoreEmptyHashtable
  cases table : kvs.hashtables didx with
  | none => exact Kept.refl kvs
  | some ht =>
    obtain ⟨-, -, pauseRehash, -⟩ := hashtableEmpty_spec (tables.fit didx ht table).valid
    refine (Kept.replace table pauseRehash).trans (Kept.freeHashtableIfNeeded fun ht' emptied => ?_)
    simp only [Kvstore.setHashtable_hashtables, Function.update_self, Option.some_inj] at emptied
    rw [← emptied, pauseRehash]
    exact (tables.fit didx ht table).pauseRehash

theorem kvstoreEmpty_kept (tables : Tables T kvs) : Kept kvs (kvstoreEmpty kvs) := by
  -- the loop goes through hashtables that all fit, each emptied one keeping its pauses
  have loop : ∀ (indexes : List Nat) (kvs : Kvstore α), Tables T kvs → (∀ d ∈ indexes, d < kvs.numHashtables) →
      Kept kvs (indexes.foldl kvstoreEmptyHashtable kvs) := by
    intro indexes
    induction indexes with
    | nil => exact fun kvs _ _ => Kept.refl kvs
    | cons d indexes ih =>
      intro kvs tables bound
      exact (Kept.kvstoreEmptyHashtable tables).trans
        (ih _ (tables.kvstoreEmptyHashtable (bound d List.mem_cons_self)).1 fun j mem => by
          rw [kvstoreEmptyHashtable_numHashtables]
          exact bound j (List.mem_cons_of_mem d mem))
  have kept := loop _ kvs tables fun d mem => List.mem_range.mp mem
  exact ⟨kept.numHashtables, kept.pauses⟩

theorem kvstoreEmpty_good (good : Good T kvs) : Good T (kvstoreEmpty kvs) := by
  obtain ⟨tables, same, empty⟩ :=
    kvstoreEmpty_loop (List.range kvs.numHashtables) kvs good.tables fun d mem => List.mem_range.mp mem
  dsimp only [kvstoreEmpty]
  apply Good.of_empty
  · exact tables.of_eq rfl rfl rfl rfl
  · intro j lt
    exact empty j (.inl (List.mem_range.mpr (by rw [same] at lt; exact lt)))
  · rfl
  · rfl
  · rfl
  · intro i positive le
    show (if 1 < _ then fun _ => 0 else _) i = 0
    rw [if_pos tables.several]

end Empty

section Create

variable {kvs : Kvstore α}

theorem kvstoreCreate_loop (indexes : List Nat) :
    ∀ kvs : Kvstore α, Good T kvs → (∀ d ∈ indexes, d < kvs.numHashtables) →
      Good T (indexes.foldl (fun kvs didx => (createHashtableIfNeeded kvs didx).2) kvs) := by
  induction indexes with
  | nil => exact fun kvs good _ => good
  | cons d indexes ih =>
    intro kvs good bound
    exact ih _ (good.createHashtableIfNeeded (bound d List.mem_cons_self)).1 fun j mem => by
      rw [createHashtableIfNeeded_numHashtables]
      exact bound j (List.mem_cons_of_mem d mem)

theorem kvstoreCreate_good {bits : Nat} (positive : 0 < bits) (le : bits ≤ 16) (flags : KvstoreFlags) :
    ∃ kvs : Kvstore α, kvstoreCreate bits flags = some kvs ∧ Good T kvs := by
  -- before any hashtable is allocated, every counter is zero
  have start : Good T (⟨flags, fun _ => none, 2 ^ bits, bits, 0, 0, 0, fun _ => 0, ∅, 0⟩ : Kvstore α) := by
    refine Good.of_empty ⟨positive, le, rfl, fun _ _ absurd => (by cases absurd), by simp⟩ (fun _ _ => rfl) rfl rfl rfl
      fun _ _ _ => rfl
  by_cases onDemand : flags.allocateHashtablesOnDemand
  · exact ⟨_, by simp [kvstoreCreate, le, onDemand], start⟩
  · exact ⟨_, by simp [kvstoreCreate, le, onDemand],
      kvstoreCreate_loop _ _ start fun d mem => List.mem_range.mp mem⟩

end Create

section Runs

variable [Inhabited α]

def Allowed (kvs : Kvstore α) : KvstoreOp α κ → Prop
  | .add didx _ | .insert didx _ | .pop didx _ | .delete didx _ | .twoPhasePop didx _ => didx < kvs.numHashtables
  | .setIsImporting didx isImporting =>
    didx < kvs.numHashtables ∧ (isImporting = true → kvstoreHashtableSize kvs didx = 0)
  | .empty => True

variable {kvs : Kvstore α} (policy : ResizePolicy)

theorem kvstoreStep_good (good : Good T kvs) {op : KvstoreOp α κ} (allowed : Allowed kvs op) :
    ∃ kvs', kvstoreStep T policy kvs op = some kvs' ∧ Good T kvs' ∧ Kept kvs kvs' := by
  cases op with
  | add didx entry =>
    obtain ⟨added, kvs', run, good', kept⟩ := kvstoreHashtableAdd_good policy good allowed entry
    exact ⟨kvs', by simp [kvstoreStep, run], good', kept⟩
  | insert didx entry => exact kvstoreStep_insert_good policy good allowed entry
  | pop didx key =>
    obtain ⟨popped, kvs', run, good', kept⟩ := kvstoreHashtablePop_good policy good allowed key
    exact ⟨kvs', by simp [kvstoreStep, run], good', kept⟩
  | delete didx key =>
    obtain ⟨deleted, kvs', run, good', kept⟩ := kvstoreHashtableDelete_good policy good allowed key
    exact ⟨kvs', by simp [kvstoreStep, run], good', kept⟩
  | twoPhasePop didx key => exact kvstoreStep_twoPhasePop_good policy good allowed key
  | setIsImporting didx isImporting =>
    exact kvstoreSetIsImporting_good good allowed.1 isImporting allowed.2
  | empty => exact ⟨_, rfl, kvstoreEmpty_good good, kvstoreEmpty_kept good.tables⟩

end Runs

end Kv.Kvstore
