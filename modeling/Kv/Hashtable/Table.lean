import Kv.Hashtable.Bucket

/-!
The table of `hashtable.c`: its two bucket arrays, incremental rehashing and
resizing.
-/

set_option linter.dupNamespace false

namespace Kv.Hashtable

inductive ResizePolicy
  | allow
  | avoid
  | forbid
  deriving DecidableEq, Repr

structure HashtableType (α κ : Type) where
  entryGetKey : α → κ
  hashFunction : κ → UInt64
  keyCompare : κ → κ → Int
  validateEntry : Option (α → Bool)
  resizeAllowed : Option (Nat → Nat → Nat → Bool)
  instantRehashing : Bool

structure Table (α : Type) where
  buckets : Option (List (List (Bucket α)))
  used : Nat
  exp : Int
  childBuckets : Nat

instance twoTables : NeZero (2 : Nat) :=
  ⟨by decide⟩

structure Hashtable (α : Type) where
  rehashIdx : Int
  tables : Fin 2 → Table α
  pauseRehash : Int
  pauseAutoShrink : Int

structure Position where
  table : Fin 2
  index : Nat
  depth : Nat
  pos : Nat
  deriving DecidableEq, Repr

def bucketFactor : Nat := 5
def bucketDivisor : Nat := 32
def maxFillPercentSoft : Nat := 100
def maxFillPercentHard : Nat := 500
def minFillPercentSoft : Nat := 13
def minFillPercentHard : Nat := 3
def fetchBucketCountWhenExpand : Nat := 4
def bucketSize : Nat := 64

variable {α κ : Type}

def resetTable : Table α := ⟨none, 0, -1, 0⟩

def numBuckets (exp : Int) : Nat :=
  if exp = -1 then 0 else 2 ^ exp.toNat

def expToMask (exp : Int) : Nat :=
  if exp = -1 then 0 else numBuckets exp - 1

def nextBucketExp (minCapacity : Nat) : Int :=
  if minCapacity = 0 then -1
  else
    let minBuckets := (minCapacity * bucketFactor % 2 ^ 64 - 1) / bucketDivisor + 1
    if minBuckets ≥ (2 ^ 64 - 1) / 2 then 63
    else if minBuckets = 1 then 0
    else ((minBuckets - 1).log2 + 1 : Nat)

namespace Table

def chain (t : Table α) (idx : Nat) : List (Bucket α) :=
  ((t.buckets.getD [])[idx]?).getD []

def setChain (t : Table α) (idx : Nat) (ch : List (Bucket α)) : Table α :=
  { t with buckets := t.buckets.map (·.set idx ch) }

end Table

namespace Hashtable

def isRehashing (ht : Hashtable α) : Bool :=
  ht.rehashIdx != -1

def isRehashingPaused (ht : Hashtable α) : Bool :=
  decide (ht.pauseRehash > 0)

def setTable (ht : Hashtable α) (i : Fin 2) (t : Table α) : Hashtable α :=
  { ht with tables := Function.update ht.tables i t }

def modifyTable (ht : Hashtable α) (i : Fin 2) (f : Table α → Table α) : Hashtable α :=
  ht.setTable i (f (ht.tables i))

def bucketAt (ht : Hashtable α) (p : Position) : Option (Bucket α) :=
  ((ht.tables p.table).chain p.index)[p.depth]?

def modifyBucket (ht : Hashtable α) (p : Position) (f : Bucket α → Bucket α) : Hashtable α :=
  ht.modifyTable p.table fun t => t.setChain p.index ((t.chain p.index).modify p.depth f)

end Hashtable

def hashtableSize (ht : Hashtable α) : Nat :=
  (ht.tables 0).used + (ht.tables 1).used

def hashtableCreate : Hashtable α :=
  ⟨-1, fun _ => resetTable, 0, 0⟩

def rehashingCompleted (ht : Hashtable α) : Hashtable α :=
  { (ht.setTable 0 (ht.tables 1)).setTable 1 resetTable with rehashIdx := -1 }

def bucketIndex (t : Table α) (hash : UInt64) : Nat :=
  hash.toNat &&& expToMask t.exp

def fetchEntriesForExpand : Nat → List (Bucket α) → List α × List (Bucket α)
  | 0, ch => ([], ch)
  | _ + 1, [] => ([], [])
  | count + 1, b :: rest =>
    let (more, ch) := fetchEntriesForExpand count (if b.chained then rest else [])
    ((filledPositions b).map b.entries ++ more, ch)

theorem fetchEntriesForExpand_length_le (count : Nat) (ch : List (Bucket α)) :
    (fetchEntriesForExpand count ch).2.length ≤ ch.length := by
  induction count generalizing ch with
  | zero => simp [fetchEntriesForExpand]
  | succ count ih =>
    cases ch with
    | nil => simp [fetchEntriesForExpand]
    | cons b rest =>
      have next := ih (if b.chained then rest else [])
      have dropped : (if b.chained then rest else []).length ≤ rest.length := by
        split <;> simp
      simp only [fetchEntriesForExpand, List.length_cons]
      omega

theorem fetchEntriesForExpand_length_lt (count : Nat) (b : Bucket α) (rest : List (Bucket α)) :
    (fetchEntriesForExpand (count + 1) (b :: rest)).2.length < (b :: rest).length := by
  have next := fetchEntriesForExpand_length_le count (if b.chained then rest else [])
  have dropped : (if b.chained then rest else []).length ≤ rest.length := by
    split <;> simp
  simp only [fetchEntriesForExpand, List.length_cons]
  omega

section Insert

variable [Inhabited α]

def findBucketForInsert (ht : Hashtable α) (hash : UInt64) : Option (Hashtable α × Position) := do
  let table : Fin 2 := if ht.isRehashing then 1 else 0
  let buckets ← (ht.tables table).buckets
  let idx := bucketIndex (ht.tables table) hash
  let ch ← buckets[idx]?
  let (ch, depth, added) ← insertWalk ch
  let b ← ch[depth]?
  let pos ← firstFreePosition b
  let ht := ht.modifyTable table fun t =>
    { t.setChain idx ch with childBuckets := t.childBuckets + if added then 1 else 0 }
  pure (ht, ⟨table, idx, depth, pos⟩)

def rehashEntry (ht : Hashtable α) (entry : α) (hash : UInt64) (h2 : UInt8) : Option (Hashtable α) := do
  let (ht, p) ← findBucketForInsert ht hash
  let ht := ht.modifyBucket p fun b => b.fill p.pos entry h2
  pure ((ht.modifyTable 0 fun t => { t with used := t.used - 1 }).modifyTable 1
    fun t => { t with used := t.used + 1 })

def rehashStepFinalize (ht : Hashtable α) : Option (Hashtable α) := do
  let idx := ht.rehashIdx.toNat
  let ch := (ht.tables 0).chain idx
  let top ← ch.head?
  -- the child buckets freed are those the walk down the child pointers reaches
  let ht := ht.modifyTable 0 fun t =>
    { t.setChain idx [{ top with chained := false, presence := 0 }] with
      childBuckets := t.childBuckets - lastDepth ch }
  let ht := { ht with rehashIdx := ht.rehashIdx + 1 }
  if (ht.tables 0).used = 0 ∧ (ht.tables 0).childBuckets = 0 then pure (rehashingCompleted ht)
  else if ht.rehashIdx.toNat < numBuckets (ht.tables 0).exp then pure ht
  else none

variable (T : HashtableType α κ)

def rehashEntries (ht : Hashtable α) (entries : List α) : Option (Hashtable α) :=
  entries.foldlM (fun ht entry =>
    let hash := T.hashFunction (T.entryGetKey entry)
    rehashEntry ht entry hash (highBits hash)) ht

def rehashBatches (ht : Hashtable α) (ch : List (Bucket α)) : Option (Hashtable α) :=
  match ch with
  | [] => some ht
  | b :: rest =>
    (rehashEntries T ht (fetchEntriesForExpand fetchBucketCountWhenExpand (b :: rest)).1).bind
      fun ht => rehashBatches ht (fetchEntriesForExpand fetchBucketCountWhenExpand (b :: rest)).2
termination_by ch.length
decreasing_by exact fetchEntriesForExpand_length_lt 3 b rest

def rehashStepExpand (ht : Hashtable α) : Option (Hashtable α) :=
  (rehashBatches T ht ((ht.tables 0).chain ht.rehashIdx.toNat)).bind rehashStepFinalize

def rehashBucketShrink (ht : Hashtable α) (b : Bucket α) : Option (Hashtable α) :=
  (filledPositions b).foldlM (fun ht pos =>
    rehashEntry ht (b.entries pos) (UInt64.ofNat ht.rehashIdx.toNat) (b.hashes pos)) ht

def rehashChainShrink (ht : Hashtable α) : List (Bucket α) → Option (Hashtable α)
  | [] => some ht
  | b :: rest => do
    let ht ← rehashBucketShrink ht b
    if b.chained then rehashChainShrink ht rest else pure ht

def rehashStepShrinkLoop : Nat → Hashtable α → Option (Hashtable α)
  | 0, ht => some ht
  | emptyVisits + 1, ht =>
    let ch := (ht.tables 0).chain ht.rehashIdx.toNat
    match ch with
    | [] => none
    | b :: _ =>
      if b.presence != 0 || b.chained then
        (rehashChainShrink ht ch).bind rehashStepFinalize
      else do
        let ht ← rehashStepFinalize ht
        if !ht.isRehashing then pure ht
        else if emptyVisits = 0 then pure ht
        else rehashStepShrinkLoop emptyVisits ht

def rehashStepShrink (ht : Hashtable α) : Option (Hashtable α) :=
  rehashStepShrinkLoop 10 ht

def rehashStep (ht : Hashtable α) : Option (Hashtable α) :=
  if !ht.isRehashing then none
  else if (ht.tables 1).exp < (ht.tables 0).exp then rehashStepShrink ht
  else rehashStepExpand T ht

def rehashUntilDone : Nat → Hashtable α → Option (Hashtable α)
  | 0, ht => if ht.isRehashing then none else some ht
  | fuel + 1, ht => if ht.isRehashing then (rehashStep T ht).bind (rehashUntilDone fuel) else some ht

variable (policy : ResizePolicy)

def rehashStepOnReadIfNeeded (ht : Hashtable α) : Option (Hashtable α) :=
  if !ht.isRehashing || ht.pauseRehash != 0 then some ht
  else if policy != .allow then some ht
  else rehashStep T ht

def rehashStepOnWriteIfNeeded (ht : Hashtable α) : Option (Hashtable α) :=
  if !ht.isRehashing || ht.pauseRehash != 0 then some ht
  else if policy != .avoid then some ht
  else rehashStep T ht

structure Resized (α : Type) where
  resized : Bool
  mallocFailed : Bool
  ht : Hashtable α

def resizeAllocated (ht : Hashtable α) (exp : Int) : Option (Hashtable α) := do
  let ht := { ht.modifyTable 1 fun t =>
      { t with buckets := some (List.replicate (numBuckets exp) [emptyBucket]), exp := exp, used := 0 } with
    rehashIdx := 0 }
  if (ht.tables 0).buckets.isNone || ((ht.tables 0).used == 0 && (ht.tables 0).childBuckets == 0) then
    return rehashingCompleted ht
  else if T.instantRehashing then rehashUntilDone T (numBuckets (ht.tables 0).exp) ht
  else return ht

def resizeAllowedRefuses (allocSize minCapacity oldCapacity : Nat) : Bool :=
  match T.resizeAllowed with
  | none => false
  | some resizeAllowed =>
    decide (0 < oldCapacity) && decide (minCapacity * 100 < maxFillPercentHard * oldCapacity) &&
      !resizeAllowed allocSize minCapacity oldCapacity

/-- `alloc` is `none` when no `malloc_failed` pointer is passed (the allocation
cannot fail), and otherwise whether `ztrycalloc` succeeds. -/
def resize (ht : Hashtable α) (minCapacity : Nat) (alloc : Option Bool) : Option (Resized α) :=
  if ht.isRehashing then none
  else
    let refuse : Resized α := ⟨false, false, ht⟩
    let minCapacity := if minCapacity = 0 then 1 else minCapacity
    let exp := nextBucketExp minCapacity
    let numBuckets' := numBuckets exp
    let newCapacity := numBuckets' * entriesPerBucket % 2 ^ 64
    let allocSize := numBuckets' * bucketSize % 2 ^ 64
    let oldExp := (ht.tables 0).exp
    let oldCapacity := numBuckets oldExp * entriesPerBucket
    -- the size computations overflow
    if newCapacity < minCapacity || allocSize < numBuckets' then some refuse
    else if exp = oldExp then some refuse
    else if policy = .forbid && (ht.tables 0).buckets.isSome then some refuse
    else if exp > oldExp && resizeAllowedRefuses T allocSize minCapacity oldCapacity then some refuse
    else if alloc = some false then some ⟨false, true, ht⟩
    else (resizeAllocated T ht exp).map fun ht => ⟨true, false, ht⟩

def expand (ht : Hashtable α) (size : Nat) (alloc : Option Bool) : Option (Resized α) :=
  if ht.isRehashing || decide (size < hashtableSize ht) then some ⟨false, false, ht⟩
  else resize T policy ht size alloc

def hashtableExpand (ht : Hashtable α) (size : Nat) : Option (Bool × Hashtable α) :=
  (expand T policy ht size none).map fun r => (r.resized, r.ht)

def hashtableTryExpand (ht : Hashtable α) (size : Nat) (allocOk : Bool) : Option (Bool × Hashtable α) :=
  (expand T policy ht size (some allocOk)).map fun r => (r.resized || !r.mallocFailed, r.ht)

def hashtableExpandIfNeeded (ht : Hashtable α) : Option (Bool × Hashtable α) :=
  if ht.isRehashing then some (false, ht)
  else
    let minCapacity := (ht.tables 0).used + (ht.tables 1).used + 1
    let numBuckets' := numBuckets (ht.tables (if ht.isRehashing then 1 else 0)).exp
    let currentCapacity := numBuckets' * entriesPerBucket
    let maxFillPercent := if policy = .allow then maxFillPercentSoft else maxFillPercentHard
    if minCapacity * 100 ≤ currentCapacity * maxFillPercent then some (false, ht)
    else (resize T policy ht minCapacity none).map fun r => (r.resized, r.ht)

def hashtableShrinkIfNeeded (ht : Hashtable α) : Option (Bool × Hashtable α) :=
  if ht.isRehashing || ht.pauseAutoShrink != 0 then some (false, ht)
  else
    let currentCapacity := numBuckets (ht.tables 0).exp * entriesPerBucket
    let minFillPercent := if policy = .allow then minFillPercentSoft else minFillPercentHard
    if (ht.tables 0).used * 100 > currentCapacity * minFillPercent then some (false, ht)
    else (resize T policy ht (ht.tables 0).used none).map fun r => (r.resized, r.ht)

def hashtableRightsizeIfNeeded (ht : Hashtable α) : Option (Bool × Hashtable α) := do
  let (shrunk, ht) ← hashtableShrinkIfNeeded T policy ht
  if shrunk then pure (true, ht) else hashtableExpandIfNeeded T policy ht

end Insert

end Kv.Hashtable
