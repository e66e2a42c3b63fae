import Kv.Foundations.Bytes
import Mathlib.Data.List.Sort

/-!
The volatile set (vset.c): a set of entries kept by expiry. The set is one
tagged vsetBucket pointer: none, a single entry, a vector sorted by expiry (up
to 127 entries), or a rax of buckets, each bucket a single entry, a vector or a
hashtable of entries, keyed by the big-endian end of its time window
(`bucket_ts`). The rax is modelled by its nodes in key order, the order of the
keys as byte strings; the insertion path is modelled whole: vsetAddEntry, the
insertToBucket functions, findBucket, and the splitting of a full vector
bucket by splitBucketIfPossible.
-/

namespace Kv.Vset

open Foundations

inductive VsetBucket (α : Type) where
  | none
  | single (entry : α)
  | vector (entries : List α)
  | hashtable (entries : List α)
  | rax (buckets : List (List UInt8 × VsetBucket α))

abbrev Rax (α : Type) := List (List UInt8 × VsetBucket α)

def volatilesetBucketIntervalMax : Int64 := (1 : Int64) <<< 13

def volatilesetBucketIntervalMin : Int64 := (1 : Int64) <<< 4

def volatilesetVectorBucketMaxSize : Nat := 127

def raxReentryLimit : Nat := 128

section Keys

def getBucketTs (expiry : Int64) : Int64 :=
  (expiry &&& ~~~(volatilesetBucketIntervalMin - 1)) + volatilesetBucketIntervalMin

def getMaxBucketTs (expiry : Int64) : Int64 :=
  (expiry &&& ~~~(volatilesetBucketIntervalMax - 1)) + volatilesetBucketIntervalMax

def encodeExpiryKey (expiry : Int64) : List UInt8 :=
  (encodeLE 8 expiry.toUInt64.toNat).reverse

def decodeExpiryKey (key : List UInt8) : Int64 :=
  Int64.ofNat (decodeLE (key.take 8).reverse)

def encodeNewExpiryBucketKey (expiry : Int64) : List UInt8 :=
  encodeExpiryKey (getMaxBucketTs expiry)

end Keys

section Rax

variable {α : Type}

def keyLess : List UInt8 → List UInt8 → Bool
  | [], [] => false
  | [], _ :: _ => true
  | _ :: _, [] => false
  | a :: as, b :: bs => a < b || (a == b && keyLess as bs)

def raxInsert : Rax α → List UInt8 → VsetBucket α → Rax α
  | [], key, data => [(key, data)]
  | (k, d) :: rest, key, data =>
    if key = k then (key, data) :: rest
    else if keyLess key k then (key, data) :: (k, d) :: rest
    else (k, d) :: raxInsert rest key data

def raxRemove : Rax α → List UInt8 → Option (VsetBucket α) × Rax α
  | [], _ => (none, [])
  | (k, d) :: rest, key =>
    if key = k then (some d, rest)
    else
      let (old, rest') := raxRemove rest key
      (old, (k, d) :: rest')

def raxSetData (r : Rax α) (key : List UInt8) (data : VsetBucket α) : Rax α :=
  r.map fun node => if node.1 = key then (key, data) else node

def raxSeekGreater (r : Rax α) (key : List UInt8) : Option (List UInt8 × VsetBucket α) :=
  r.find? fun node => keyLess key node.1

structure RaxIterator where
  flags : Nat
  keyLen : Nat
  key : List UInt8
  keyMax : Nat
  keyStaticString : List UInt8

def raxIterEof : Nat := 1 <<< 1

def raxIterStaticLen : Nat := 128

def raxStart (it : RaxIterator) : RaxIterator :=
  { it with flags := raxIterEof, keyLen := 0, key := it.keyStaticString, keyMax := raxIterStaticLen }

end Rax

section Buckets

variable {α : Type} [DecidableEq α] (getExpiry : α → Int64)

def pvGet (pv : List α) (idx : Nat) : Option α := pv[idx]?

def pvInsertAt (pv : List α) (elem : α) (idx : Nat) : Option (List α) :=
  if idx ≤ pv.length then some (pv.insertIdx idx elem) else none

def pvPush (pv : List α) (elem : α) : List α := pv ++ [elem]

def pvSplit (pv : List α) (splitIndex : Nat) : Option (List α) × Option (List α) :=
  if pv.length ≤ splitIndex then (some pv, none)
  else if splitIndex = 0 then (none, some pv)
  else (some (pv.take splitIndex), some (pv.drop splitIndex))

def pvSort (pv : List α) : List α :=
  pv.insertionSort fun a b => getExpiry a ≤ getExpiry b

def vsetBucketFromVector : Option (List α) → Option (VsetBucket α)
  | some pv => some (.vector pv)
  | none => none

/-- hashtableAdd on a hashtable of entries by pointer: false when the entry is there. -/
def hashtableAdd (ht : List α) (entry : α) : Bool × List α :=
  if entry ∈ ht then (false, ht) else (true, ht ++ [entry])

def findInsertPositionLoop (pv : List α) (expiry : Int64) : Nat → Nat → Nat → Option Nat
  | 0, _, _ => none
  | fuel + 1, left, right =>
    if left < right then
      let mid := (left + right) / 2
      match pv[mid]? with
      | some e =>
        -- EXPIRE_COMPARE(expiry, getExpiry(e)) <= 0
        if expiry ≤ getExpiry e then findInsertPositionLoop pv expiry fuel left mid
        else findInsertPositionLoop pv expiry fuel (mid + 1) right
      | none => none
    else some left

def findInsertPosition (pv : List α) (expiry : Int64) : Option Nat :=
  findInsertPositionLoop getExpiry pv expiry (pv.length + 1) 0 pv.length

def transitionAt (pv : List α) (i : Nat) : Option (Option Int64) := do
  let ts1 := getBucketTs (getExpiry (← pvGet pv (i - 1)))
  let ts2 := getBucketTs (getExpiry (← pvGet pv i))
  return if ts1 < ts2 then some ts1 else none

def findSplitPositionLoop (pv : List α) (mid : Nat) : Nat → Nat → Option (Nat × Option Int64)
  | 0, _ => none
  | fuel + 1, offset => do
    let left := mid - offset
    let right := mid + offset
    let atLeft ← if 0 < left then transitionAt getExpiry pv left else some none
    match atLeft with
    | some ts => return (left, some ts)
    | none =>
      let atRight ← if 0 < right ∧ right < pv.length then transitionAt getExpiry pv right else some none
      match atRight with
      | some ts => return (right, some ts)
      | none =>
        -- searched the entire vector
        if mid ≤ offset + 1 ∧ pv.length ≤ mid + (offset + 1) then return (pv.length, none)
        else findSplitPositionLoop pv mid fuel (offset + 1)

def findSplitPosition (pv : List α) : Option (Nat × Option Int64) :=
  if pv.length < 2 then some (pv.length, none)
  else findSplitPositionLoop getExpiry pv (pv.length / 2) (pv.length + 1) 0

def insertToBucketNone (entry : α) : VsetBucket α := .single entry

def insertToBucketSingle (current entry : α) (expiry : Int64) : VsetBucket α :=
  if getExpiry current < expiry then .vector [current, entry] else .vector [entry, current]

def insertToBucketVector (pv : List α) (entry : α) (pos : Option Nat) : Option (VsetBucket α) :=
  if volatilesetVectorBucketMaxSize ≤ pv.length then
    let ht := pv.foldl (fun ht e => (hashtableAdd ht e).2) []
    some (.hashtable (hashtableAdd ht entry).2)
  else
    match pos with
    | some p => (pvInsertAt pv entry p).map .vector
    | none => some (.vector (pvPush pv entry))

def insertToBucketHashtable (ht : List α) (entry : α) : Option (VsetBucket α) :=
  let (added, ht) := hashtableAdd ht entry
  if added then some (.hashtable ht) else none

/-- findBucket: the first bucket whose key is above the expiry, when its window ends no later than
the expiry's 8192 ms window does; with its key and bucket_ts. Otherwise a none bucket, with the
expiry's own key. -/
def findBucket (r : Rax α) (expiry : Int64) : VsetBucket α × List UInt8 × Int64 :=
  let key := encodeExpiryKey expiry
  match raxSeekGreater r key with
  | some (k, data) =>
    let bucketTs := decodeExpiryKey k
    if getMaxBucketTs expiry < bucketTs then (.none, key, 0) else (data, k, bucketTs)
  | none => (.none, key, 0)

/-- splitBucketIfPossible, for a vector bucket at `key`: sorted in place, then moved whole to the
window of its last entry when that ends before `bucketTs`, or split at a window transition, the
lower part under the new key. False when neither is possible. -/
def splitBucketIfPossible (r : Rax α) (pv : List α) (bucketTs : Int64) (key : List UInt8) :
    Option (Bool × Rax α) := do
  let pv := pvSort getExpiry pv
  let r := raxSetData r key (.vector pv)
  let maxBucketTs := getBucketTs (getExpiry (← pvGet pv (pv.length - 1)))
  let minBucketTs := getBucketTs (getExpiry (← pvGet pv 0))
  if maxBucketTs < bucketTs then
    -- the bucket spans a larger window than it needs: it moves to an earlier key
    let (removed, r) := raxRemove r (encodeExpiryKey bucketTs)
    if removed.isNone then none
    return (true, raxInsert r (encodeExpiryKey maxBucketTs) (.vector pv))
  else if minBucketTs ≠ maxBucketTs then
    let (splitIndex, splitTs) ← findSplitPosition getExpiry pv
    let targetBucketTs := splitTs.getD bucketTs
    if ¬targetBucketTs < bucketTs then none
    if splitIndex = pv.length then none
    let (left, right) := pvSplit pv splitIndex
    let bucket ← vsetBucketFromVector right
    let newBucket ← vsetBucketFromVector left
    let r := raxSetData r key bucket
    return (true, raxInsert r (encodeExpiryKey targetBucketTs) newBucket)
  else return (false, r)

/-- insertToBucket_RAX: the entry into the bucket findBucket gives, or a new single bucket; a full
vector bucket is split first and the insertion starts over, or it becomes a hashtable. -/
def insertToBucketRax : Nat → Rax α → α → Int64 → Option (Rax α)
  | 0, _, _, _ => none
  | fuel + 1, r, entry, expiry =>
    let (bucket, key, bucketTs) := findBucket r expiry
    match bucket with
    | .none => some (raxInsert r (encodeNewExpiryBucketKey expiry) (insertToBucketNone entry))
    | .single current => some (raxSetData r key (insertToBucketSingle getExpiry current entry expiry))
    | .vector pv =>
      if pv.length = volatilesetVectorBucketMaxSize then do
        let (split, r') ← splitBucketIfPossible getExpiry r pv bucketTs key
        if split then insertToBucketRax fuel r' entry expiry
        else
          -- no split: the sorted vector takes the entry anyway and becomes a hashtable
          let grown ← insertToBucketVector (pvSort getExpiry pv) entry none
          match grown with
          | .hashtable _ => some (raxSetData r' key grown)
          | _ => none
      else
        (insertToBucketVector pv entry none).map (raxSetData r key)
    | .hashtable ht => (insertToBucketHashtable ht entry).map (raxSetData r key)
    | .rax _ => none

/-- vsetAddEntry. A full vector becomes a rax: in one bucket when its entries share an 8192 ms
window, one by one otherwise. -/
def vsetAddEntry (set : VsetBucket α) (entry : α) : Option (VsetBucket α) := do
  let expiry := getExpiry entry
  match set with
  | .none => some (insertToBucketNone entry)
  | .single current => some (insertToBucketSingle getExpiry current entry expiry)
  | .vector vec =>
    let len := vec.length
    if len = volatilesetVectorBucketMaxSize then
      let minExpiry := getExpiry (← pvGet vec 0)
      let maxExpiry := getExpiry (← pvGet vec (len - 1))
      if getMaxBucketTs minExpiry = getMaxBucketTs maxExpiry then
        let r := raxInsert [] (encodeNewExpiryBucketKey maxExpiry) (.vector vec)
        (insertToBucketRax getExpiry raxReentryLimit r entry expiry).map .rax
      else
        let r ← vec.foldlM
          (fun r moved => insertToBucketRax getExpiry raxReentryLimit r moved (getExpiry moved)) []
        (insertToBucketRax getExpiry raxReentryLimit r entry expiry).map .rax
    else
      let pos ← findInsertPosition getExpiry vec expiry
      insertToBucketVector vec entry (some pos)
  | .rax r => (insertToBucketRax getExpiry raxReentryLimit r entry expiry).map .rax
  | .hashtable _ => none

def vsetRun (entries : List α) : Option (VsetBucket α) :=
  entries.foldlM (vsetAddEntry getExpiry) .none

end Buckets

section Estimate

variable {α : Type} (getExpiry : α → Int64)

/-- vsetEstimatedEarliestExpiry, with the iterator as the stack left it: -1 for an empty set, the
first entry's expiry for a single entry or a vector, the key of the iterator after raxStart for a
rax; a panic for anything else. -/
def vsetEstimatedEarliestExpiry (set : VsetBucket α) (stack : RaxIterator) : Option Int64 :=
  match set with
  | .none => some (-1)
  | .rax _ =>
    let it := raxStart stack
    some (decodeExpiryKey it.key)
  | .single entry => some (getExpiry entry)
  | .vector entries => (pvGet entries 0).map getExpiry
  | .hashtable _ => none

end Estimate

section Stale

variable {α : Type} (getExpiry : α → Int64)

theorem length_encodeExpiryKey (expiry : Int64) : (encodeExpiryKey expiry).length = 8 := by
  simp [encodeExpiryKey, length_encodeLE]

theorem decodeExpiryKey_encodeExpiryKey (expiry : Int64) (rest : List UInt8) :
    decodeExpiryKey (encodeExpiryKey expiry ++ rest) = expiry := by
  have small : expiry.toUInt64.toNat < 256 ^ 8 := expiry.toUInt64.toNat_lt
  rw [decodeExpiryKey, List.take_left' (length_encodeExpiryKey expiry), encodeExpiryKey, List.reverse_reverse,
    decodeLE_encodeLE, Nat.mod_eq_of_lt small]
  apply Int64.toBitVec_inj.mp
  simp

theorem vsetEstimatedEarliestExpiry_rax (buckets : Rax α) (stack : RaxIterator) :
    vsetEstimatedEarliestExpiry getExpiry (.rax buckets) stack = some (decodeExpiryKey stack.keyStaticString) :=
  rfl

theorem vsetEstimatedEarliestExpiry_rax_any (buckets : Rax α) (v : Int64) :
    ∃ stack, vsetEstimatedEarliestExpiry getExpiry (.rax buckets) stack = some v := by
  refine ⟨⟨0, 0, [], 0, encodeExpiryKey v⟩, ?_⟩
  have readBack := decodeExpiryKey_encodeExpiryKey v []
  rw [List.append_nil] at readBack
  rw [vsetEstimatedEarliestExpiry_rax, readBack]

def VsetBucket.firstKey? : VsetBucket α → Option (List UInt8)
  | .rax ((k, _) :: _) => some k
  | _ => Option.none

/-- 128 entries of one expiry make a rax root: the 128th finds the full vector bucket, moves it to
the expiry's 16 ms window, cannot split it and turns it into a hashtable. The smallest key is then
the end of that window, and yet vsetEstimatedEarliestExpiry answers any long long the stale key
buffer holds, -1 (an empty set) and values below the earliest expiry included. -/
theorem vsetEstimatedEarliestExpiry_rax_stale :
    ∃ buckets, vsetRun (fun _ : Nat => (100000 : Int64)) (List.range 128) = some (.rax buckets) ∧
      buckets.head?.map Prod.fst = some (encodeExpiryKey (getBucketTs 100000)) ∧
      ∀ v : Int64, ∃ stack,
        vsetEstimatedEarliestExpiry (fun _ : Nat => (100000 : Int64)) (.rax buckets) stack = some v := by
  have run : (vsetRun (fun _ : Nat => (100000 : Int64)) (List.range 128)).bind VsetBucket.firstKey? =
      some (encodeExpiryKey (getBucketTs 100000)) := by
    decide +kernel
  cases reached : vsetRun (fun _ : Nat => (100000 : Int64)) (List.range 128) with
  | none => simp [reached] at run
  | some set =>
    rw [reached, Option.bind_some] at run
    cases set with
    | rax buckets =>
      refine ⟨buckets, rfl, ?_, vsetEstimatedEarliestExpiry_rax_any _ buckets⟩
      cases buckets with
      | nil => simp [VsetBucket.firstKey?] at run
      | cons node rest => simpa [VsetBucket.firstKey?] using run
    | _ => simp [VsetBucket.firstKey?] at run

end Stale

end Kv.Vset
