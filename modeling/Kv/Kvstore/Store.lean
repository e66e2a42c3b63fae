import Kv.Hashtable.Api
import Kv.Foundations.Fenwick

/-!
The key-count index of `kvstore.c`: an array of `2^num_hashtables_bits`
hashtables with the number of keys, the numbers of allocated and of non-empty
hashtables and a binary indexed tree over the hashtable sizes. Hashtables that
are being imported are kept out of the index and their keys counted apart.
-/

set_option linter.dupNamespace false

namespace Kv.Kvstore

open Foundations Kv.Hashtable

variable {α κ : Type}

structure KvstoreFlags where
  allocateHashtablesOnDemand : Bool
  freeEmptyHashtables : Bool
  deriving DecidableEq, Repr

def kvstoreIndexNotFound : Int := -1

structure Kvstore (α : Type) where
  flags : KvstoreFlags
  hashtables : Nat → Option (Hashtable α)
  numHashtables : Nat
  numHashtablesBits : Nat
  allocatedHashtables : Int
  nonEmptyHashtables : Int
  keyCount : Int
  hashtableSizeIndex : Nat → Int
  importing : Finset Nat
  importingKeyCount : Int

namespace Kvstore

def setHashtable (kvs : Kvstore α) (didx : Nat) (ht : Option (Hashtable α)) : Kvstore α :=
  { kvs with hashtables := Function.update kvs.hashtables didx ht }

section Fields

variable (kvs : Kvstore α) (didx : Nat) (ht : Option (Hashtable α))

@[simp] theorem setHashtable_hashtables :
    (kvs.setHashtable didx ht).hashtables = Function.update kvs.hashtables didx ht := rfl
@[simp] theorem setHashtable_flags : (kvs.setHashtable didx ht).flags = kvs.flags := rfl
@[simp] theorem setHashtable_numHashtables : (kvs.setHashtable didx ht).numHashtables = kvs.numHashtables := rfl
@[simp] theorem setHashtable_numHashtablesBits :
    (kvs.setHashtable didx ht).numHashtablesBits = kvs.numHashtablesBits := rfl
@[simp] theorem setHashtable_allocatedHashtables :
    (kvs.setHashtable didx ht).allocatedHashtables = kvs.allocatedHashtables := rfl
@[simp] theorem setHashtable_nonEmptyHashtables :
    (kvs.setHashtable didx ht).nonEmptyHashtables = kvs.nonEmptyHashtables := rfl
@[simp] theorem setHashtable_keyCount : (kvs.setHashtable didx ht).keyCount = kvs.keyCount := rfl
@[simp] theorem setHashtable_hashtableSizeIndex :
    (kvs.setHashtable didx ht).hashtableSizeIndex = kvs.hashtableSizeIndex := rfl
@[simp] theorem setHashtable_importing : (kvs.setHashtable didx ht).importing = kvs.importing := rfl
@[simp] theorem setHashtable_importingKeyCount :
    (kvs.setHashtable didx ht).importingKeyCount = kvs.importingKeyCount := rfl

end Fields

end Kvstore

/-! ### Helpers -/

def kvstoreHashtableSize (kvs : Kvstore α) (didx : Nat) : Nat :=
  match kvs.hashtables didx with
  | some ht => hashtableSize ht
  | none => 0

def kvstoreSize (kvs : Kvstore α) : Int :=
  if kvs.numHashtables ≠ 1 then kvs.keyCount
  else kvstoreHashtableSize kvs 0

def cumulativeKeyCountReadLoop (tree : Nat → Int) (idx : Nat) (sum : Int) : Int :=
  if _positive : 0 < idx then cumulativeKeyCountReadLoop tree (idx - lowbit idx) (sum + tree idx) else sum
termination_by idx
decreasing_by have := lowbit_pos _positive; omega

/-- The number of keys in the hashtables `0 .. didx`. -/
def cumulativeKeyCountRead (kvs : Kvstore α) (didx : Nat) : Option Int :=
  if kvs.numHashtables = 1 then
    if didx = 0 then some (kvstoreSize kvs) else none
  else some (cumulativeKeyCountReadLoop kvs.hashtableSizeIndex (didx + 1) 0)

def kvstoreIsImporting (kvs : Kvstore α) (didx : Nat) : Option Bool :=
  if didx < kvs.numHashtables then some (decide (didx ∈ kvs.importing)) else none

def cumulativeKeyCountAddLoop (numHashtables : Nat) (delta : Int) (tree : Nat → Int) (idx : Nat) :
    Option (Nat → Int) :=
  if _inTree : 0 < idx ∧ idx ≤ numHashtables then
    if delta < 0 ∧ tree idx < |delta| then none
    else cumulativeKeyCountAddLoop numHashtables delta (Function.update tree idx (tree idx + delta)) (idx + lowbit idx)
  else some tree
termination_by numHashtables + 1 - idx
decreasing_by have := lowbit_pos _inTree.1; omega

/-- Hashtable `didx` gained `delta` keys. -/
def cumulativeKeyCountAdd (kvs : Kvstore α) (didx : Nat) (delta : Int) : Option (Kvstore α) := do
  -- the keys of an importing hashtable are counted once the import is done
  if ← kvstoreIsImporting kvs didx then
    return { kvs with importingKeyCount := kvs.importingKeyCount + delta }
  let size := hashtableSize (← kvs.hashtables didx)
  let nonEmptyHashtables :=
    if delta < 0 ∧ size = 0 then kvs.nonEmptyHashtables - 1
    else if 0 < delta ∧ (size : Int) = delta then kvs.nonEmptyHashtables + 1
    else kvs.nonEmptyHashtables
  let kvs := { kvs with keyCount := kvs.keyCount + delta, nonEmptyHashtables }
  if kvs.numHashtables = 1 then return kvs
  let tree ← cumulativeKeyCountAddLoop kvs.numHashtables delta kvs.hashtableSizeIndex (didx + 1)
  return { kvs with hashtableSizeIndex := tree }

/-- The hashtable at `didx`, created when there is none. -/
def createHashtableIfNeeded (kvs : Kvstore α) (didx : Nat) : Hashtable α × Kvstore α :=
  match kvs.hashtables didx with
  | some ht => (ht, kvs)
  | none =>
    (hashtableCreate,
      { kvs.setHashtable didx (some hashtableCreate) with allocatedHashtables := kvs.allocatedHashtables + 1 })

/-- An empty hashtable is freed when the flags ask for it and rehashing is not
paused. -/
def freeHashtableIfNeeded (kvs : Kvstore α) (didx : Nat) : Kvstore α :=
  match kvs.hashtables didx with
  | none => kvs
  | some ht =>
    if !kvs.flags.freeEmptyHashtables || hashtableSize ht != 0 || ht.isRehashingPaused then kvs
    else { kvs.setHashtable didx none with allocatedHashtables := kvs.allocatedHashtables - 1 }

/-! ### The API -/

def kvstoreCreate (numHashtablesBits : Nat) (flags : KvstoreFlags) : Option (Kvstore α) :=
  -- the scan cursor keeps 48 bits for the hashtable's own cursor
  if numHashtablesBits ≤ 16 then
    let kvs : Kvstore α :=
      { flags, hashtables := fun _ => none, numHashtables := 2 ^ numHashtablesBits, numHashtablesBits,
        allocatedHashtables := 0, nonEmptyHashtables := 0, keyCount := 0, hashtableSizeIndex := fun _ => 0,
        importing := ∅, importingKeyCount := 0 }
    if flags.allocateHashtablesOnDemand then some kvs
    else some ((List.range kvs.numHashtables).foldl (fun kvs didx => (createHashtableIfNeeded kvs didx).2) kvs)
  else none

def findHashtableIndexLoop (tree : Nat → Int) (i : Nat) (target : Int) (result : Nat) : Nat :=
  if i = 0 then result
  else
    let current := result + i
    if target > tree current then findHashtableIndexLoop tree (i / 2) (target - tree current) current
    else findHashtableIndexLoop tree (i / 2) target result
termination_by i
decreasing_by all_goals omega

/-- The index of the hashtable holding the `target`-th key. -/
def kvstoreFindHashtableIndexByKeyIndex (kvs : Kvstore α) (target : Nat) : Option Int :=
  if kvs.numHashtables = 1 then some 0
  else if kvstoreSize kvs = 0 ∨ target = 0 then some kvstoreIndexNotFound
  else if target ≤ kvstoreSize kvs then
    some (findHashtableIndexLoop kvs.hashtableSizeIndex (2 ^ kvs.numHashtablesBits) target 0)
  else none

def kvstoreGetFirstNonEmptyHashtableIndex (kvs : Kvstore α) : Option Int :=
  kvstoreFindHashtableIndexByKeyIndex kvs 1

/-- The next non-empty hashtable after `didx`. -/
def kvstoreGetNextNonEmptyHashtableIndex (kvs : Kvstore α) (didx : Nat) : Option Int :=
  if kvs.numHashtables = 1 then
    if didx = 0 then some kvstoreIndexNotFound else none
  else do
    let nextKey := (← cumulativeKeyCountRead kvs didx) + 1
    if nextKey ≤ kvstoreSize kvs then kvstoreFindHashtableIndexByKeyIndex kvs nextKey.toNat
    else some kvstoreIndexNotFound

/-- `kvstoreSetIsImporting`. -/
def kvstoreSetIsImporting (kvs : Kvstore α) (didx : Nat) (isImporting : Bool) : Option (Kvstore α) := do
  if ¬didx < kvs.numHashtables then none
  if isImporting then
    -- importing should only be marked on empty hashtables
    if (kvs.hashtables didx).any fun ht => hashtableSize ht != 0 then none
    return { kvs with importing := insert didx kvs.importing }
  -- once the mark is cleared, the keys are tracked in the kvstore's counts
  let deleted := decide (didx ∈ kvs.importing)
  let kvs := { kvs with importing := kvs.importing.erase didx }
  match kvs.hashtables didx with
  | some ht =>
    if deleted ∧ hashtableSize ht ≠ 0 then
      let kvs ← cumulativeKeyCountAdd kvs didx (hashtableSize ht)
      return { kvs with importingKeyCount := kvs.importingKeyCount - hashtableSize ht }
    return kvs
  | none => return kvs

def kvstoreEmptyHashtable (kvs : Kvstore α) (didx : Nat) : Kvstore α :=
  match kvs.hashtables didx with
  | none => kvs
  | some ht => freeHashtableIfNeeded (kvs.setHashtable didx (some (hashtableEmpty ht))) didx

def kvstoreEmpty (kvs : Kvstore α) : Kvstore α :=
  let kvs := (List.range kvs.numHashtables).foldl kvstoreEmptyHashtable kvs
  { kvs with
    importing := ∅, importingKeyCount := 0, keyCount := 0, nonEmptyHashtables := 0,
    hashtableSizeIndex := if 1 < kvs.numHashtables then fun _ => 0 else kvs.hashtableSizeIndex }

section Hashtables

variable (T : HashtableType α κ) [Inhabited α] (policy : ResizePolicy)

def kvstoreHashtableAdd (kvs : Kvstore α) (didx : Nat) (entry : α) : Option (Bool × Kvstore α) := do
  let (ht, kvs) := createHashtableIfNeeded kvs didx
  let (ret, ht) ← hashtableAdd T policy ht entry
  let kvs := kvs.setHashtable didx (some ht)
  if ret then return (ret, ← cumulativeKeyCountAdd kvs didx 1)
  return (ret, kvs)

def kvstoreHashtableFindPositionForInsert (kvs : Kvstore α) (didx : Nat) (key : κ) :
    Option (InsertPosition α × Kvstore α) := do
  let (ht, kvs) := createHashtableIfNeeded kvs didx
  let (r, ht) ← hashtableFindPositionForInsert T policy ht key
  return (r, kvs.setHashtable didx (some ht))

def kvstoreHashtableInsertAtPosition (kvs : Kvstore α) (didx : Nat) (entry : α) (position : Position) :
    Option (Kvstore α) := do
  let ht ← hashtableInsertAtPosition (← kvs.hashtables didx) entry position
  cumulativeKeyCountAdd (kvs.setHashtable didx (some ht)) didx 1

def removedFromHashtable (kvs : Kvstore α) (didx : Nat) : Option (Kvstore α) :=
  (cumulativeKeyCountAdd kvs didx (-1)).map fun kvs => freeHashtableIfNeeded kvs didx

def kvstoreHashtableTwoPhasePopFindRef (kvs : Kvstore α) (didx : Nat) (key : κ) :
    Option (Option (α × Position) × Kvstore α) :=
  match kvs.hashtables didx with
  | none => some (none, kvs)
  | some ht =>
    (hashtableTwoPhasePopFindRef T policy ht key).map fun (found, ht) => (found, kvs.setHashtable didx (some ht))

def kvstoreHashtableTwoPhasePopDelete (kvs : Kvstore α) (didx : Nat) (position : Position) :
    Option (Kvstore α) := do
  let ht ← hashtableTwoPhasePopDelete T policy (← kvs.hashtables didx) position
  removedFromHashtable (kvs.setHashtable didx (some ht)) didx

def kvstoreHashtablePop (kvs : Kvstore α) (didx : Nat) (key : κ) : Option (Option α × Kvstore α) :=
  match kvs.hashtables didx with
  | none => some (none, kvs)
  | some ht => do
    let (popped, ht) ← hashtablePop T policy ht key
    let kvs := kvs.setHashtable didx (some ht)
    if popped.isSome then return (popped, ← removedFromHashtable kvs didx)
    return (popped, kvs)

def kvstoreHashtableDelete (kvs : Kvstore α) (didx : Nat) (key : κ) : Option (Bool × Kvstore α) :=
  match kvs.hashtables didx with
  | none => some (false, kvs)
  | some ht => do
    let (ret, ht) ← hashtableDelete T policy ht key
    let kvs := kvs.setHashtable didx (some ht)
    if ret then return (ret, ← removedFromHashtable kvs didx)
    return (ret, kvs)

end Hashtables

/-! ### Runs -/

inductive KvstoreOp (α κ : Type) where
  | add (didx : Nat) (entry : α)
  | insert (didx : Nat) (entry : α)
  | pop (didx : Nat) (key : κ)
  | delete (didx : Nat) (key : κ)
  | twoPhasePop (didx : Nat) (key : κ)
  | setIsImporting (didx : Nat) (isImporting : Bool)
  | empty

section Step

variable (T : HashtableType α κ) [Inhabited α] (policy : ResizePolicy)

def kvstoreStep (kvs : Kvstore α) : KvstoreOp α κ → Option (Kvstore α)
  | .add didx entry => (kvstoreHashtableAdd T policy kvs didx entry).map (·.2)
  | .insert didx entry => do
    let (r, kvs) ← kvstoreHashtableFindPositionForInsert T policy kvs didx (T.entryGetKey entry)
    match r with
    | .existing _ => return kvs
    | .position p => kvstoreHashtableInsertAtPosition kvs didx entry p
  | .pop didx key => (kvstoreHashtablePop T policy kvs didx key).map (·.2)
  | .delete didx key => (kvstoreHashtableDelete T policy kvs didx key).map (·.2)
  | .twoPhasePop didx key => do
    let (found, kvs) ← kvstoreHashtableTwoPhasePopFindRef T policy kvs didx key
    match found with
    | none => return kvs
    | some (_, p) => kvstoreHashtableTwoPhasePopDelete T policy kvs didx p
  | .setIsImporting didx isImporting => kvstoreSetIsImporting kvs didx isImporting
  | .empty => some (kvstoreEmpty kvs)

end Step

end Kv.Kvstore
