import Kv.Hashtable.Table

/-!
Lookup, insertion and deletion in `hashtable.c`, the two-phase variants and
the incremental find state machine.
-/

set_option linter.dupNamespace false

namespace Kv.Hashtable

variable {α κ : Type}

namespace Hashtable

def entryAt (ht : Hashtable α) (p : Position) : Option α :=
  (ht.bucketAt p).map fun b => b.entries p.pos

end Hashtable

section Access

variable (T : HashtableType α κ)

def validateElementIfNeeded (entry : α) : Bool :=
  match T.validateEntry with
  | none => true
  | some validate => validate entry

def checkCandidateInBucket (key : κ) (entry : α) : Bool :=
  T.keyCompare key (T.entryGetKey entry) == 0 && validateElementIfNeeded T entry

def findKeyInBucket (b : Bucket α) (h2 : UInt8) (key : κ) : Option Nat :=
  (List.range (numBucketPositions b)).find? fun pos =>
    isPositionFilled b pos && b.hashes pos == h2 && checkCandidateInBucket T key (b.entries pos)

def findInChain (h2 : UInt8) (key : κ) : List (Bucket α) → Option (Nat × Nat)
  | [] => none
  | b :: rest =>
    match findKeyInBucket T b h2 key with
    | some pos => some (0, pos)
    | none => if b.chained then (findInChain h2 key rest).map fun (d, pos) => (d + 1, pos) else none

def findInTable (ht : Hashtable α) (hash : UInt64) (key : κ) (table : Fin 2) : Option Position :=
  let t := ht.tables table
  if t.used = 0 then none
  else
    let idx := bucketIndex t hash
    -- buckets of table 0 below rehash_idx are already rehashed
    if table = 0 ∧ 0 ≤ ht.rehashIdx ∧ idx < ht.rehashIdx.toNat then none
    else (findInChain T (highBits hash) key (t.chain idx)).map fun (d, pos) => ⟨table, idx, d, pos⟩

variable [Inhabited α] (policy : ResizePolicy)

def findBucket (ht : Hashtable α) (hash : UInt64) (key : κ) : Option (Hashtable α × Option Position) :=
  if hashtableSize ht = 0 then some (ht, none)
  else (rehashStepOnReadIfNeeded T policy ht).map fun ht =>
    (ht, findInTable T ht hash key 0 <|> findInTable T ht hash key 1)

def hashtableFind (ht : Hashtable α) (key : κ) : Option (Option α × Hashtable α) :=
  if hashtableSize ht = 0 then some (none, ht)
  else do
    let (ht, p) ← findBucket T policy ht (T.hashFunction key) key
    match p with
    | some p =>
      let b ← ht.bucketAt p
      pure (some (b.entries p.pos), ht)
    | none => pure (none, ht)

def insert (ht : Hashtable α) (hash : UInt64) (entry : α) : Option (Hashtable α) := do
  let (_, ht) ← hashtableExpandIfNeeded T policy ht
  let ht ← rehashStepOnWriteIfNeeded T policy ht
  let (ht, p) ← findBucketForInsert ht hash
  let ht := ht.modifyBucket p fun b => b.fill p.pos entry (highBits hash)
  pure (ht.modifyTable p.table fun t => { t with used := t.used + 1 })

/-- Whether the entry was added, and the entry already there when it was not. -/
def hashtableAddOrFind (ht : Hashtable α) (entry : α) : Option (Bool × Option α × Hashtable α) := do
  let key := T.entryGetKey entry
  let hash := T.hashFunction key
  let (ht, p) ← findBucket T policy ht hash key
  match p with
  | some p =>
    let b ← ht.bucketAt p
    pure (false, some (b.entries p.pos), ht)
  | none =>
    let ht ← insert T policy ht hash entry
    pure (true, none, ht)

def hashtableAdd (ht : Hashtable α) (entry : α) : Option (Bool × Hashtable α) :=
  (hashtableAddOrFind T policy ht entry).map fun (added, _, ht) => (added, ht)

inductive InsertPosition (α : Type)
  | existing (entry : α)
  | position (p : Position)

def hashtableFindPositionForInsert (ht : Hashtable α) (key : κ) : Option (InsertPosition α × Hashtable α) := do
  let hash := T.hashFunction key
  let (ht, p) ← findBucket T policy ht hash key
  match p with
  | some p =>
    let b ← ht.bucketAt p
    pure (.existing (b.entries p.pos), ht)
  | none =>
    let (_, ht) ← hashtableExpandIfNeeded T policy ht
    let ht ← rehashStepOnWriteIfNeeded T policy ht
    let (ht, p) ← findBucketForInsert ht hash
    let b ← ht.bucketAt p
    if isPositionFilled b p.pos then none
    -- the hash byte is stored now, the entry and its presence bit at insertion
    let ht := ht.modifyBucket p fun b => { b with hashes := Function.update b.hashes p.pos (highBits hash) }
    pure (.position p, ht)

def hashtableInsertAtPosition (ht : Hashtable α) (entry : α) (p : Position) : Option (Hashtable α) := do
  let b ← ht.bucketAt p
  if isPositionFilled b p.pos then none
  let ht := ht.modifyBucket p fun b =>
    { b with presence := b.presence ||| 1#7 <<< p.pos, entries := Function.update b.entries p.pos entry }
  pure (ht.modifyTable p.table fun t => { t with used := t.used + 1 })

def fillBucketHoleAt (ht : Hashtable α) (p : Position) : Option (Hashtable α) := do
  let (c, freed) ← fillBucketHole ((ht.tables p.table).chain p.index) p.depth p.pos
  pure (ht.modifyTable p.table fun t => { t.setChain p.index c with childBuckets := t.childBuckets - freed })

def hashtablePop (ht : Hashtable α) (key : κ) : Option (Option α × Hashtable α) :=
  if hashtableSize ht = 0 then some (none, ht)
  else do
    let (ht, p) ← findBucket T policy ht (T.hashFunction key) key
    match p with
    | none => pure (none, ht)
    | some p =>
      let b ← ht.bucketAt p
      let ht := ht.modifyBucket p (·.clear p.pos)
      let ht := ht.modifyTable p.table fun t => { t with used := t.used - 1 }
      -- while rehashing is paused the holes are left for scan and iterators
      let ht ← if b.chained && !ht.isRehashingPaused then fillBucketHoleAt ht p else pure ht
      let (_, ht) ← hashtableShrinkIfNeeded T policy ht
      pure (some (b.entries p.pos), ht)

def hashtableDelete (ht : Hashtable α) (key : κ) : Option (Bool × Hashtable α) :=
  (hashtablePop T policy ht key).map fun (popped, ht) => (popped.isSome, ht)

def hashtablePauseAutoShrink (ht : Hashtable α) : Hashtable α :=
  { ht with pauseAutoShrink := ht.pauseAutoShrink + 1 }

def hashtableResumeAutoShrink (ht : Hashtable α) : Option (Hashtable α) :=
  let ht := { ht with pauseAutoShrink := ht.pauseAutoShrink - 1 }
  if ht.pauseAutoShrink = 0 then (hashtableShrinkIfNeeded T policy ht).map (·.2) else some ht

def hashtablePauseRehashing (ht : Hashtable α) : Hashtable α :=
  hashtablePauseAutoShrink { ht with pauseRehash := ht.pauseRehash + 1 }

def hashtableResumeRehashing (ht : Hashtable α) : Option (Hashtable α) :=
  let ht := { ht with pauseRehash := ht.pauseRehash - 1 }
  if ht.pauseRehash < 0 then none else hashtableResumeAutoShrink T policy ht

/-- The entry found and the position to delete it from. -/
def hashtableTwoPhasePopFindRef (ht : Hashtable α) (key : κ) : Option (Option (α × Position) × Hashtable α) :=
  if hashtableSize ht = 0 then some (none, ht)
  else do
    let (ht, p) ← findBucket T policy ht (T.hashFunction key) key
    match p with
    | none => pure (none, ht)
    | some p =>
      let b ← ht.bucketAt p
      pure (some (b.entries p.pos, p), hashtablePauseRehashing ht)

def hashtableTwoPhasePopDelete (ht : Hashtable α) (p : Position) : Option (Hashtable α) := do
  let b ← ht.bucketAt p
  if !isPositionFilled b p.pos then none
  let ht := ht.modifyBucket p (·.clear p.pos)
  let ht := ht.modifyTable p.table fun t => { t with used := t.used - 1 }
  let ht := hashtablePauseAutoShrink ht
  let ht ← hashtableResumeRehashing T policy ht
  let b ← ht.bucketAt p
  let ht ← if b.chained && !ht.isRehashingPaused then fillBucketHoleAt ht p else pure ht
  hashtableResumeAutoShrink T policy ht

def rehashMicrosecondsLoop (elapsed : Nat → Bool) : Nat → Nat → Hashtable α → Option (Nat × Hashtable α)
  | 0, rehashes, ht => if ht.isRehashing then none else some (rehashes, ht)
  | fuel + 1, rehashes, ht =>
    if !ht.isRehashing then some (rehashes, ht)
    else do
      let ht ← rehashStep T ht
      if (rehashes + 1) % 128 == 0 && elapsed (rehashes + 1) then pure (rehashes + 1, ht)
      else rehashMicrosecondsLoop elapsed fuel (rehashes + 1) ht

def hashtableRehashMicroseconds (ht : Hashtable α) (elapsed : Nat → Bool) : Option (Nat × Hashtable α) :=
  if ht.pauseRehash > 0 then some (0, ht)
  else if policy != .allow then some (0, ht)
  else rehashMicrosecondsLoop T elapsed (numBuckets (ht.tables 0).exp) 0 ht

end Access

section IncrementalFind

inductive IncrementalFindState
  | checkEntry
  | nextEntry
  | nextBucket
  | found
  | notFound
  deriving DecidableEq, Repr

structure IncrementalFind (κ : Type) where
  state : IncrementalFindState
  table : Fin 2
  pos : Nat
  bucket : Option (Fin 2 × Nat × Nat)
  key : κ
  hash : UInt64

variable (T : HashtableType α κ)

def hashtableIncrementalFindInit (ht : Hashtable α) (key : κ) : IncrementalFind κ :=
  if hashtableSize ht = 0 then ⟨.notFound, 0, 0, none, key, 0⟩
  else ⟨.nextBucket, 0, 0, none, key, T.hashFunction key⟩

def IncrementalFind.currentBucket (ht : Hashtable α) (d : IncrementalFind κ) : Option (Bucket α) := do
  let (t, idx, depth) ← d.bucket
  ((ht.tables t).chain idx)[depth]?

def incrementalNextBucket (ht : Hashtable α) (d : IncrementalFind κ) : Option (Bool × IncrementalFind κ) :=
  let moveTo (t : Fin 2) (idx depth : Nat) : Option (Bool × IncrementalFind κ) :=
    some (true, { d with table := t, bucket := some (t, idx, depth), state := .nextEntry, pos := 0 })
  match d.bucket with
  | none =>
    let idx := bucketIndex (ht.tables 0) d.hash
    if 0 ≤ ht.rehashIdx ∧ idx < ht.rehashIdx.toNat then moveTo 1 (bucketIndex (ht.tables 1) d.hash) 0
    else moveTo 0 idx 0
  | some (t, idx, depth) => do
    let b ← d.currentBucket ht
    if b.chained then moveTo t idx (depth + 1)
    else if d.table = 0 ∧ 0 ≤ ht.rehashIdx then moveTo 1 (bucketIndex (ht.tables 1) d.hash) 0
    else pure (false, { d with state := .notFound })

def incrementalNextEntry (ht : Hashtable α) (d : IncrementalFind κ) : Option (Bool × IncrementalFind κ) := do
  let b ← d.currentBucket ht
  if b.presence != 0 && decide (d.pos < numBucketPositions b) then
    let candidate := (List.range' d.pos (numBucketPositions b - d.pos)).find? fun pos =>
      isPositionFilled b pos && b.hashes pos == highBits d.hash
    match candidate with
    | some pos => return (true, { d with pos := pos, state := .checkEntry })
    | none => incrementalNextBucket ht d
  else incrementalNextBucket ht d

def hashtableIncrementalFindStep (ht : Hashtable α) (d : IncrementalFind κ) : Option (Bool × IncrementalFind κ) :=
  match d.state with
  | .checkEntry => do
    let b ← d.currentBucket ht
    if T.keyCompare d.key (T.entryGetKey (b.entries d.pos)) = 0 then return (false, { d with state := .found })
    incrementalNextEntry ht { d with pos := d.pos + 1 }
  | .nextEntry => incrementalNextEntry ht d
  | .nextBucket => incrementalNextBucket ht d
  | .found => some (false, d)
  | .notFound => some (false, d)

def hashtableIncrementalFindGetResult (ht : Hashtable α) (d : IncrementalFind κ) : Option (Option α) :=
  if d.state = .found then (d.currentBucket ht).map fun b => some (b.entries d.pos)
  else if d.state = .notFound then some none
  else none

def incrementalFindRun (ht : Hashtable α) : Nat → IncrementalFind κ → Option (IncrementalFind κ)
  | 0, _ => none
  | fuel + 1, d => do
    let (more, d) ← hashtableIncrementalFindStep T ht d
    if more then incrementalFindRun ht fuel d else pure d

def incrementalFindFuel (ht : Hashtable α) : Nat :=
  16 * ((ht.tables 0).childBuckets + (ht.tables 1).childBuckets) + 49

def hashtableIncrementalFind (ht : Hashtable α) (key : κ) : Option (Option α) := do
  let d ← incrementalFindRun T ht (incrementalFindFuel ht) (hashtableIncrementalFindInit T ht key)
  hashtableIncrementalFindGetResult ht d

end IncrementalFind

end Kv.Hashtable
