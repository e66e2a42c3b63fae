import Kv.Hashtable.Refinement

/-!
hashtableScan, the iterators and hashtableNext of `hashtable.c`, and the public API with them as a system in
which a caller interleaves its calls with the steps of the scans and iterators it holds.
-/

set_option linter.dupNamespace false

namespace Kv.Hashtable

open Foundations

variable {α κ : Type}

/-! ### The scan cursor -/

def bswap64 (v : UInt64) : UInt64 :=
  (v >>> (56 : UInt64)) ||| ((v >>> (40 : UInt64)) &&& (0xff00 : UInt64)) |||
    ((v >>> (24 : UInt64)) &&& (0xff0000 : UInt64)) ||| ((v >>> (8 : UInt64)) &&& (0xff000000 : UInt64)) |||
    ((v <<< (8 : UInt64)) &&& (0xff00000000 : UInt64)) ||| ((v <<< (24 : UInt64)) &&& (0xff0000000000 : UInt64)) |||
    ((v <<< (40 : UInt64)) &&& (0xff000000000000 : UInt64)) ||| (v <<< (56 : UInt64))

example : bswap64 0x0102030405060708 = 0x0807060504030201 := by decide

def rev (v : UInt64) : UInt64 :=
  let v := ((v >>> (1 : UInt64)) &&& (0x5555555555555555 : UInt64)) ||| ((v &&& 0x5555555555555555) <<< (1 : UInt64))
  let v := ((v >>> (2 : UInt64)) &&& (0x3333333333333333 : UInt64)) ||| ((v &&& 0x3333333333333333) <<< (2 : UInt64))
  let v := ((v >>> (4 : UInt64)) &&& (0x0F0F0F0F0F0F0F0F : UInt64)) ||| ((v &&& 0x0F0F0F0F0F0F0F0F) <<< (4 : UInt64))
  bswap64 v

def nextCursor (v mask : UInt64) : UInt64 :=
  let v := v ||| ~~~mask
  let v := rev v
  let v := v + 1
  rev v

-- with four buckets the cursor visits the indexes in reverse binary order
example : [nextCursor 0 3, nextCursor 2 3, nextCursor 1 3, nextCursor 3 3] = [2, 1, 3, 0] := by decide

/-! ### Compaction of a chain in place -/

/-- compactBucketChain at the chain of `idx` in table `t`; the index always names a bucket in the code, and an
index off the table leaves the table as it is. -/
def compactBucketChainAt (ht : Hashtable α) (t : Fin 2) (idx : Nat) : Option (Hashtable α) :=
  match (ht.tables t).chain idx with
  | [] => pure ht
  | ch@(_ :: _) => do
    let (c, freed) ← compactBucketChain ch
    pure (ht.modifyTable t fun tab => { tab.setChain idx c with childBuckets := tab.childBuckets - freed })

/-! ### hashtableScan -/

/-- A chain being emitted: its table and top-level index, the depth of the bucket and the position in it,
and the table's count when the chain was reached. -/
structure ScanChain where
  table : Fin 2
  index : Nat
  depth : Nat
  pos : Nat
  usedBefore : Nat
  deriving DecidableEq, Repr

/-- Where a call of hashtableScanDefrag is: emitting a chain with what follows it, advancing the cursor of a
table that is not rehashing, at the larger table's expansion of the cursor, advancing the cursor over the
larger mask, or about to resume rehashing and return. -/
inductive ScanStage where
  | chain (c : ScanChain) (after : ScanStage)
  | advance
  | large
  | advanceLarge
  | done
  deriving DecidableEq, Repr

structure ScanFrame where
  cursor : UInt64
  small : Fin 2
  large : Fin 2
  maskSmall : UInt64
  maskLarge : UInt64
  stage : ScanStage
  deriving DecidableEq, Repr

/-- One step of a scan call: an entry passed to the callback, a move that changes the table only by a
compaction, or the cursor to return once rehashing is resumed. -/
inductive ScanMove (α : Type) where
  | emit (entry : α) (f : ScanFrame)
  | move (ht : Hashtable α) (f : ScanFrame)
  | finish (cursor : UInt64)

/-- The frame of a call with a table that is not empty, once rehashing is paused. -/
def hashtableScanStart (ht : Hashtable α) (cursor : UInt64) : ScanFrame :=
  if !ht.isRehashing then
    let mask := UInt64.ofNat (expToMask (ht.tables 0).exp)
    ⟨cursor, 0, 0, mask, mask, .chain ⟨0, (cursor &&& mask).toNat, 0, 0, (ht.tables 0).used⟩ .advance⟩
  else
    let small : Fin 2 := if (ht.tables 0).exp ≤ (ht.tables 1).exp then 0 else 1
    let large : Fin 2 := if (ht.tables 0).exp ≤ (ht.tables 1).exp then 1 else 0
    let maskSmall := UInt64.ofNat (expToMask (ht.tables small).exp)
    let maskLarge := UInt64.ofNat (expToMask (ht.tables large).exp)
    let idx := (cursor &&& maskSmall).toNat
    -- the smaller table's bucket is emitted unless it was already rehashed
    let stage := if small = 1 ∨ ht.rehashIdx = -1 ∨ ht.rehashIdx ≤ idx then
      ScanStage.chain ⟨small, idx, 0, 0, (ht.tables small).used⟩ .large else .large
    ⟨cursor, small, large, maskSmall, maskLarge, stage⟩

variable (T : HashtableType α κ) [Inhabited α]

/-- The end of a chain: its holes are filled when entries of its table were deleted meanwhile. -/
def scanChainDone (ht : Hashtable α) (f : ScanFrame) (c : ScanChain) (after : ScanStage) : Option (ScanMove α) :=
  let compacted := if (ht.tables c.table).used < c.usedBefore then compactBucketChainAt ht c.table c.index
    else pure ht
  compacted.map fun ht => .move ht { f with stage := after }

/-- The `do ... while (b != NULL)` loop over a chain, one position at a time; the bucket is read afresh at
each position, since the callback may have changed it. -/
def scanChainStep (ht : Hashtable α) (f : ScanFrame) (c : ScanChain) (after : ScanStage) : Option (ScanMove α) :=
  match ht.bucketAt ⟨c.table, c.index, c.depth, c.pos⟩ with
  | none => scanChainDone ht f c after
  | some b =>
    if c.pos < entriesPerBucket then
      let f' := { f with stage := .chain { c with pos := c.pos + 1 } after }
      if isPositionFilled b c.pos && validateElementIfNeeded T (b.entries c.pos) then
        some (.emit (b.entries c.pos) f')
      else some (.move ht f')
    else if b.chained then some (.move ht { f with stage := .chain { c with depth := c.depth + 1, pos := 0 } after })
    else scanChainDone ht f c after

def scanStep (ht : Hashtable α) (f : ScanFrame) : Option (ScanMove α) :=
  match f.stage with
  | .chain c after => scanChainStep T ht f c after
  | .advance => some (.move ht { f with cursor := nextCursor f.cursor f.maskSmall, stage := .done })
  | .large =>
    let idx := (f.cursor &&& f.maskLarge).toNat
    if f.large = 1 ∨ ht.rehashIdx = -1 ∨ ht.rehashIdx ≤ idx then
      some (.move ht { f with stage := .chain ⟨f.large, idx, 0, 0, (ht.tables f.large).used⟩ .advanceLarge })
    else some (.move ht { f with stage := .advanceLarge })
  | .advanceLarge =>
    let cursor := nextCursor f.cursor f.maskLarge
    -- the loop goes on while the bits of the mask difference are not all zero
    some (.move ht { f with cursor, stage := if cursor &&& (f.maskSmall ^^^ f.maskLarge) ≠ 0 then .large else .done })
  | .done => some (.finish f.cursor)

/-! ### Iterators -/

/-- An iterator: its flags, the table and index it is at (index -1 before the first call), the bucket it
points at with the position in it, and the size last seen (safe) or the fingerprint (unsafe). The list of safe
iterators kept for hashtableRelease is not modelled. -/
structure IterFrame where
  safe : Bool
  skipValidation : Bool
  table : Fin 2
  index : Int
  bucket : Position
  lastSeenSize : Nat
  fingerprint : UInt64
  deriving DecidableEq, Repr

/-- hashtableInitIterator. -/
def hashtableInitIterator (safe skipValidation : Bool) : IterFrame :=
  ⟨safe, skipValidation, 0, -1, ⟨0, 0, 0, 0⟩, 0, 0⟩

/-- hashtableFingerprint, with each table pointer taken as 1 when the table is allocated and 0 for NULL. -/
def hashtableFingerprint (ht : Hashtable α) : UInt64 :=
  let integers : List UInt64 := [if (ht.tables 0).buckets.isSome then 1 else 0, UInt64.ofInt (ht.tables 0).exp,
    UInt64.ofNat (ht.tables 0).used, if (ht.tables 1).buckets.isSome then 1 else 0, UInt64.ofInt (ht.tables 1).exp,
    UInt64.ofNat (ht.tables 1).used]
  integers.foldl (fun hash i =>
    let hash := hash + i
    let hash := ~~~hash + (hash <<< 21)
    let hash := hash ^^^ (hash >>> 24)
    let hash := hash + (hash <<< 3) + (hash <<< 8)
    let hash := hash ^^^ (hash >>> 14)
    let hash := hash + (hash <<< 2) + (hash <<< 4)
    let hash := hash ^^^ (hash >>> 28)
    hash + (hash <<< 31)) 0

/-- The first round of hashtableNext, once a safe iterator has paused rehashing: false when table 0 is not
allocated, the iterator then staying at its start. -/
def iterFirst (ht : Hashtable α) (it : IterFrame) : IterFrame × Bool :=
  let it := if it.safe then { it with lastSeenSize := (ht.tables it.table).used }
    else { it with fingerprint := hashtableFingerprint ht }
  if (ht.tables 0).buckets.isNone then (it, false)
  else
    -- buckets already rehashed are skipped
    let index : Int := if ht.isRehashing then ht.rehashIdx else 0
    ({ it with index, bucket := ⟨it.table, index.toNat, 0, 0⟩ }, true)

/-- What a safe iterator does when it leaves a chain: it compacts the chain when entries of its table were
deleted and it alone pauses rehashing, and records the table's size. -/
def iterLeaveChain (ht : Hashtable α) (it : IterFrame) : Option (Hashtable α × IterFrame) :=
  if it.safe then do
    let ht ← if ht.pauseRehash = 1 ∧ (ht.tables it.table).used < it.lastSeenSize then
        compactBucketChainAt ht it.table it.index.toNat
      else pure ht
    pure (ht, { it with lastSeenSize := (ht.tables it.table).used })
  else pure (ht, it)

/-- A later round of hashtableNext: the next position of the bucket, the child bucket, the next index or the
next table; false when the iteration is over. -/
def iterAdvance (ht : Hashtable α) (it : IterFrame) : Option (Hashtable α × IterFrame × Bool) :=
  let pos := it.bucket.pos + 1
  let chained := ((ht.bucketAt it.bucket).map Bucket.chained).getD false
  if chained && decide (entriesPerBucket - 1 ≤ pos) then
    some (ht, { it with bucket := { it.bucket with depth := it.bucket.depth + 1, pos := 0 } }, true)
  else if entriesPerBucket ≤ pos then do
    let (ht, it) ← iterLeaveChain ht it
    let index := it.index + 1
    if (numBuckets (ht.tables it.table).exp : Int) ≤ index then
      if ht.isRehashing ∧ it.table = 0 then pure (ht, { it with index := 0, table := 1, bucket := ⟨1, 0, 0, 0⟩ }, true)
      else pure (ht, { it with index, bucket := { it.bucket with pos := 0 } }, false)
    else pure (ht, { it with index, bucket := ⟨it.table, index.toNat, 0, 0⟩ }, true)
  else some (ht, { it with bucket := { it.bucket with pos } }, true)

/-- The check that ends each round of hashtableNext: the entry at the iterator's position, when there is one
that passes validation. -/
def iterEntry (ht : Hashtable α) (it : IterFrame) : Option α :=
  (ht.bucketAt it.bucket).bind fun b =>
    if isPositionFilled b it.bucket.pos && (it.skipValidation || validateElementIfNeeded T (b.entries it.bucket.pos))
    then some (b.entries it.bucket.pos) else none

/-! ### The API with scans and iterators -/

/-- The caller's world with the scan calls in progress, innermost first, and its iterators (`none` once
cleaned up). -/
structure Session (α : Type) where
  world : World α
  scans : List ScanFrame
  iters : List (Option IterFrame)

def initSession (policy : ResizePolicy) : Session α :=
  ⟨initWorld policy, [], []⟩

/-- The calls: one of the API, the start of a scan call and a step of the innermost one, whose callback issues
its calls between the steps; an iterator's initialisation, one round of the loop of hashtableNext (a call of
hashtableNext is the rounds up to the first that returns), and hashtableCleanupIterator. -/
inductive Call (α κ : Type) where
  | api (op : Op α κ)
  | scan (cursor : UInt64)
  | scanStep
  | iterInit (safe skipValidation : Bool)
  | iterNext (i : Nat)
  | iterCleanup (i : Nat)

inductive Answer (α : Type) where
  | api (r : Reply α)
  | cursor (c : UInt64)
  | emitted (entry : α)
  | scanning
  | iterator (i : Nat)
  | next (entry : α)
  | ended
  | looping
  | idle

def sessionScanStep (s : Session α) (rest : List ScanFrame) : ScanMove α → Option (Session α × Answer α)
  | .emit e f' => some ({ s with scans := f' :: rest }, .emitted e)
  | .move ht f' => some ({ s with world := { s.world with ht }, scans := f' :: rest }, .scanning)
  | .finish cursor => (apiStep T s.world .resumeRehashing).map fun (world, _) => ({ s with world, scans := rest }, .cursor cursor)

def sessionIterNext (s : Session α) (i : Nat) (it : IterFrame) : Option (Session α × Answer α) :=
  let first := decide (it.index = -1 ∧ it.table = 0)
  let started := if it.safe && first then apiStep T s.world .pauseRehashing else some (s.world, .done)
  started.bind fun (world, _) =>
    let moved := if first then some (world.ht, iterFirst world.ht it) else iterAdvance world.ht it
    moved.map fun (ht, it, placed) =>
      ({ s with world := { world with ht }, iters := s.iters.set i (some it) },
        if !placed then .ended
        else match iterEntry T ht it with
          | some e => .next e
          | none => .looping)

def sessionIterCleanup (s : Session α) (i : Nat) (it : IterFrame) : Option (Session α × Answer α) :=
  let s' := { s with iters := s.iters.set i none }
  if it.index = -1 ∧ it.table = 0 then some (s', .idle)
  else if it.safe then (apiStep T s.world .resumeRehashing).map fun (world, _) => ({ s' with world }, .idle)
  else if it.fingerprint = hashtableFingerprint s.world.ht then some (s', .idle)
  else none

/-- One call; `none` is a failed assertion. -/
def sessionStep (s : Session α) : Call α κ → Option (Session α × Answer α)
  | .api op => (apiStep T s.world op).map fun (world, r) => ({ s with world }, .api r)
  | .scan cursor =>
    if hashtableSize s.world.ht = 0 then some (s, .cursor 0)
    else (apiStep T s.world .pauseRehashing).map fun (world, _) =>
      ({ s with world, scans := hashtableScanStart world.ht cursor :: s.scans }, .scanning)
  | .scanStep =>
    match s.scans with
    | [] => some (s, .idle)
    | f :: rest => (scanStep T s.world.ht f).bind (sessionScanStep T s rest)
  | .iterInit safe skipValidation =>
    some ({ s with iters := s.iters ++ [some (hashtableInitIterator safe skipValidation)] }, .iterator s.iters.length)
  | .iterNext i =>
    match s.iters[i]? with
    | some (some it) => sessionIterNext T s i it
    | _ => some (s, .idle)
  | .iterCleanup i =>
    match s.iters[i]? with
    | some (some it) => sessionIterCleanup T s i it
    | _ => some (s, .idle)

/-- The only assertion a call can fail: the cleanup of an unsafe iterator whose table changed since its first
call. -/
def FingerprintFails (s : Session α) : Call α κ → Prop
  | .iterCleanup i => ∃ it, s.iters[i]? = some (some it) ∧ ¬(it.index = -1 ∧ it.table = 0) ∧ it.safe = false ∧
      it.fingerprint ≠ hashtableFingerprint s.world.ht
  | _ => False

/-- The states a caller reaches from a new table through the calls. -/
inductive SessionReachable (policy : ResizePolicy) : Session α → Prop
  | init : SessionReachable policy (initSession policy)
  | step {s s' : Session α} {c : Call α κ} {r : Answer α} :
      SessionReachable policy s → sessionStep T s c = some (s', r) → SessionReachable policy s'

section Proofs

variable {T}

omit [Inhabited α] in
theorem Table.chain_ne_nil {t : Table α} {idx : Nat} (nonempty : t.chain idx ≠ []) :
    ∃ bs, t.buckets = some bs ∧ ∃ hidx : idx < bs.length, t.chain idx = bs[idx] := by
  cases alloc : t.buckets with
  | none => simp [Table.chain, alloc] at nonempty
  | some bs =>
    by_cases hidx : idx < bs.length
    · exact ⟨bs, rfl, hidx, chain_eq alloc hidx⟩
    · simp [Table.chain, alloc, List.getElem?_eq_none (Nat.le_of_not_lt hidx)] at nonempty

omit [Inhabited α] in
theorem Table.setChain_self {t : Table α} {bs : List (List (Bucket α))} (alloc : t.buckets = some bs) {idx : Nat}
    (hidx : idx < bs.length) : { t.setChain idx bs[idx] with childBuckets := t.childBuckets - 0 } = t := by
  cases t
  simp only at alloc
  simp [Table.setChain, alloc]

omit [Inhabited α] in
theorem Hashtable.setTable_self (ht : Hashtable α) (t : Fin 2) : ht.setTable t (ht.tables t) = ht := by
  simp [Hashtable.setTable]

omit [Inhabited α] in
/-- Compacting a chain keeps a valid table valid with the same entries and pauses. -/
theorem compactBucketChainAt_spec {ht : Hashtable α} (valid : Valid T ht) (t : Fin 2) (idx : Nat) :
    ∃ ht', compactBucketChainAt ht t idx = some ht' ∧ Preserved T ht ht' := by
  cases chain : (ht.tables t).chain idx with
  | nil => exact ⟨ht, by simp [compactBucketChainAt, chain], Preserved.refl valid⟩
  | cons b rest =>
    obtain ⟨bs, alloc, hidx, same⟩ := Table.chain_ne_nil (show (ht.tables t).chain idx ≠ [] by simp [chain])
    rw [chain] at same
    have tv := valid.table t
    have wf : ChainWF (b :: rest) := same ▸ tv.chains bs alloc _ (List.getElem_mem hidx)
    obtain ⟨c', freed, loop, wf', content, len⟩ := compactLoop_spec ((b :: rest).length + 1) wf
      (show 0 < (b :: rest).length by simp) (by omega)
    simp only [List.length_cons] at loop len
    have run : compactBucketChainAt ht t idx =
        some (ht.modifyTable t fun tab => { tab.setChain idx c' with childBuckets := tab.childBuckets - freed }) := by
      simp [compactBucketChainAt, chain, compactBucketChain, loop]
    refine ⟨_, run, ?_⟩
    by_cases chained : b.chained = true
    · -- a chained first bucket lies at or past the rehash index, so the chain may be replaced
      have at_p : ht.bucketAt ⟨t, idx, 0, 0⟩ = some b := by simp [Hashtable.bucketAt, chain]
      have placed : ∀ x ∈ chainContent c', Placed T (ht.tables t).exp idx x := by
        intro x mem
        refine tv.placed idx x ?_
        rw [chain, ← content]
        exact mem
      have children := length_le_childCount alloc hidx
      rw [← tv.childBuckets, ← same] at children
      have cpos : 0 < c'.length := List.length_pos_iff.mpr wf'.ne_nil
      have child : (ht.tables t).childBuckets - freed + (bs[idx].length - 1) =
          (ht.tables t).childBuckets + (c'.length - 1) := by
        rw [← same]
        simp only [List.length_cons] at children ⊢
        omega
      obtain ⟨valid', sum⟩ := valid.replaceChain alloc hidx wf' placed
        (valid.notDone at_p (q := 0) (.inl chained))
        (u := { (ht.tables t).setChain idx c' with childBuckets := (ht.tables t).childBuckets - freed })
        (setChain_buckets alloc _ _) rfl (by rw [← same, content]; rfl) child
      refine ⟨valid', ?_, rfl, rfl⟩
      rw [← same, content] at sum
      exact add_right_cancel sum
    · -- an unchained first bucket is the whole chain, which compaction leaves alone
      have alone : compactLoop (rest.length + 1 + 1) (b :: rest) 0 = some (b :: rest, 0) := by
        simp [compactLoop, chained]
      rw [alone] at loop
      obtain ⟨rfl, rfl⟩ := Option.some.inj loop |> Prod.mk.inj
      have unchanged : (ht.modifyTable t fun tab => { tab.setChain idx (b :: rest) with childBuckets := tab.childBuckets - 0 }) = ht := by
        rw [Hashtable.modifyTable, same, Table.setChain_self alloc hidx, Hashtable.setTable_self]
      rw [unchanged]
      exact Preserved.refl valid

variable (T) in
/-- What a step of a scan does to the table: a move changes it by a compaction at most. -/
def ScanMove.Keeps (ht : Hashtable α) : ScanMove α → Prop
  | .move ht' _ => Preserved T ht ht'
  | _ => True

omit [Inhabited α] in
theorem scanChainDone_spec {ht : Hashtable α} (valid : Valid T ht) (f : ScanFrame) (c : ScanChain) (after : ScanStage) :
    ∃ m, scanChainDone ht f c after = some m ∧ m.Keeps T ht := by
  unfold scanChainDone
  by_cases deleted : (ht.tables c.table).used < c.usedBefore
  · obtain ⟨ht', run, preserved⟩ := compactBucketChainAt_spec valid c.table c.index
    exact ⟨.move ht' { f with stage := after }, by simp only [if_pos deleted, run, Option.map_some], preserved⟩
  · exact ⟨.move ht { f with stage := after }, by simp only [if_neg deleted, pure, Option.map_some],
      Preserved.refl valid⟩

omit [Inhabited α] in
/-- Every step of a scan call succeeds on a valid table and changes it by a compaction at most. -/
theorem scanStep_spec {ht : Hashtable α} (valid : Valid T ht) (f : ScanFrame) :
    ∃ m, scanStep T ht f = some m ∧ m.Keeps T ht := by
  unfold scanStep
  split
  · rename_i c after _
    unfold scanChainStep
    split
    · exact scanChainDone_spec valid f c after
    · rename_i b _
      by_cases inside : c.pos < entriesPerBucket
      · rw [if_pos inside]
        split
        · exact ⟨_, rfl, trivial⟩
        · exact ⟨_, rfl, Preserved.refl valid⟩
      · rw [if_neg inside]
        split
        · exact ⟨_, rfl, Preserved.refl valid⟩
        · exact scanChainDone_spec valid f c after
  · exact ⟨_, rfl, Preserved.refl valid⟩
  · dsimp only
    split
    · exact ⟨_, rfl, Preserved.refl valid⟩
    · exact ⟨_, rfl, Preserved.refl valid⟩
  · exact ⟨_, rfl, Preserved.refl valid⟩
  · exact ⟨_, rfl, trivial⟩

omit [Inhabited α] in
theorem iterLeaveChain_spec {ht : Hashtable α} (valid : Valid T ht) (it : IterFrame) :
    ∃ r, iterLeaveChain ht it = some r ∧ Preserved T ht r.1 := by
  unfold iterLeaveChain
  by_cases safe : it.safe = true
  · rw [if_pos safe]
    by_cases alone : ht.pauseRehash = 1 ∧ (ht.tables it.table).used < it.lastSeenSize
    · obtain ⟨ht', run, preserved⟩ := compactBucketChainAt_spec valid it.table it.index.toNat
      exact ⟨(ht', { it with lastSeenSize := (ht'.tables it.table).used }), by rw [if_pos alone, run]; rfl, preserved⟩
    · exact ⟨(ht, { it with lastSeenSize := (ht.tables it.table).used }), by rw [if_neg alone]; rfl,
        Preserved.refl valid⟩
  · exact ⟨(ht, it), by rw [if_neg safe]; rfl, Preserved.refl valid⟩

omit [Inhabited α] in
/-- Every later round of hashtableNext succeeds on a valid table and changes it by a compaction at most. -/
theorem iterAdvance_spec {ht : Hashtable α} (valid : Valid T ht) (it : IterFrame) :
    ∃ r, iterAdvance ht it = some r ∧ Preserved T ht r.1 := by
  unfold iterAdvance
  dsimp only
  split
  · exact ⟨_, rfl, Preserved.refl valid⟩
  · split
    · obtain ⟨⟨ht₁, it₁⟩, left, preserved⟩ := iterLeaveChain_spec valid it
      simp only [left, Option.bind_eq_bind, Option.bind_some]
      split
      · split
        · exact ⟨_, rfl, preserved⟩
        · exact ⟨_, rfl, preserved⟩
      · exact ⟨_, rfl, preserved⟩
    · exact ⟨_, rfl, Preserved.refl valid⟩


theorem apiStep_pause_spec {w : World α} (good : Good T w) :
    ∃ w', apiStep T w .pauseRehashing = some (w', .done) ∧ Good T w' ∧ htContent w'.ht = htContent w.ht := by
  obtain ⟨w', r, step, good', same, done⟩ := apiStep_spec (κ := κ) good .pauseRehashing
  exact ⟨w', by rw [step, done], good', same⟩

theorem apiStep_resume_spec {w : World α} (good : Good T w) :
    ∃ w', apiStep T w .resumeRehashing = some (w', .done) ∧ Good T w' ∧ htContent w'.ht = htContent w.ht := by
  obtain ⟨w', r, step, good', same, done⟩ := apiStep_spec (κ := κ) good .resumeRehashing
  exact ⟨w', by rw [step, done], good', same⟩

omit [Inhabited α] in
theorem Good.of_preserved_ht {w : World α} (good : Good T w) {ht : Hashtable α} (preserved : Preserved T w.ht ht) :
    Good T { w with ht } ∧ htContent ({ w with ht } : World α).ht = htContent w.ht :=
  ⟨good.of_preserved preserved, preserved.content⟩

/-- A call of the API either is a call of `apiStep` or keeps the entries. -/
def Keeps (c : Call α κ) (s s' : Session α) : Prop :=
  (∃ op, c = .api op) ∨ htContent s'.world.ht = htContent s.world.ht

theorem sessionScanStep_spec {s : Session α} (good : Good T s.world) (rest : List ScanFrame) {m : ScanMove α}
    (keeps : m.Keeps T s.world.ht) :
    ∃ s' r, sessionScanStep T s rest m = some (s', r) ∧ Good T s'.world ∧
      htContent s'.world.ht = htContent s.world.ht := by
  cases m with
  | emit e f' => exact ⟨_, _, rfl, good, rfl⟩
  | move ht f' => exact ⟨_, _, rfl, good.of_preserved_ht keeps⟩
  | finish cursor =>
    obtain ⟨w', resume, good', same⟩ := apiStep_resume_spec (κ := κ) good
    exact ⟨{ s with world := w', scans := rest }, .cursor cursor, by simp only [sessionScanStep, resume, Option.map_some],
      good', same⟩

theorem sessionIterNext_spec {s : Session α} (good : Good T s.world) (i : Nat) (it : IterFrame) :
    ∃ s' r, sessionIterNext T s i it = some (s', r) ∧ Good T s'.world ∧
      htContent s'.world.ht = htContent s.world.ht := by
  -- a safe iterator's first round pauses rehashing; the rounds change the table by a compaction at most
  obtain ⟨w₁, started, good₁, same₁⟩ : ∃ w₁, (if (it.safe && decide (it.index = -1 ∧ it.table = 0)) = true then
      apiStep T s.world .pauseRehashing else some (s.world, Reply.done)) = some (w₁, Reply.done) ∧
      Good T w₁ ∧ htContent w₁.ht = htContent s.world.ht := by
    split
    · exact apiStep_pause_spec (κ := κ) good
    · exact ⟨s.world, rfl, good, rfl⟩
  obtain ⟨r, moved, preserved⟩ : ∃ r, (if decide (it.index = -1 ∧ it.table = 0) = true then
      some (w₁.ht, iterFirst w₁.ht it) else iterAdvance w₁.ht it) = some r ∧ Preserved T w₁.ht r.1 := by
    split
    · exact ⟨_, rfl, Preserved.refl good₁.valid⟩
    · exact iterAdvance_spec good₁.valid it
  obtain ⟨ht, it', placed⟩ := r
  obtain ⟨good₂, same₂⟩ := good₁.of_preserved_ht preserved
  unfold sessionIterNext
  dsimp only
  rw [started, Option.bind_some]
  dsimp only
  rw [moved, Option.map_some]
  exact ⟨_, _, rfl, good₂, same₂.trans same₁⟩

theorem sessionIterCleanup_spec {s : Session α} (good : Good T s.world) (i : Nat) (it : IterFrame)
    (kept : ¬(¬(it.index = -1 ∧ it.table = 0) ∧ it.safe = false ∧ it.fingerprint ≠ hashtableFingerprint s.world.ht)) :
    ∃ s' r, sessionIterCleanup T s i it = some (s', r) ∧ Good T s'.world ∧
      htContent s'.world.ht = htContent s.world.ht := by
  unfold sessionIterCleanup
  by_cases first : it.index = -1 ∧ it.table = 0
  · exact ⟨{ s with iters := s.iters.set i none }, .idle, by rw [if_pos first], good, rfl⟩
  · rw [if_neg first]
    by_cases safe : it.safe = true
    · obtain ⟨w', resume, good', same⟩ := apiStep_resume_spec (κ := κ) good
      exact ⟨_, _, by rw [if_pos safe, resume, Option.map_some], good', same⟩
    · have same : it.fingerprint = hashtableFingerprint s.world.ht := by
        by_contra differs
        exact kept ⟨first, by simpa using safe, differs⟩
      exact ⟨{ s with iters := s.iters.set i none }, .idle, by rw [if_neg safe, if_pos same], good, rfl⟩

/-- Every call but the failing cleanup succeeds from a good state, leads to a good state and keeps the entries
unless it is a call of the API. -/
theorem sessionStep_spec {s : Session α} (good : Good T s.world) (c : Call α κ) (ok : ¬FingerprintFails s c) :
    ∃ s' r, sessionStep T s c = some (s', r) ∧ Good T s'.world ∧ Keeps c s s' := by
  cases c with
  | api op =>
    obtain ⟨w', r, step, good', -⟩ := apiStep_spec good op
    exact ⟨{ s with world := w' }, .api r, by simp only [sessionStep, step, Option.map_some], good', .inl ⟨op, rfl⟩⟩
  | scan cursor =>
    by_cases empty : hashtableSize s.world.ht = 0
    · exact ⟨s, .cursor 0, by simp only [sessionStep, if_pos empty], good, .inr rfl⟩
    · obtain ⟨w', pause, good', same⟩ := apiStep_pause_spec (κ := κ) good
      exact ⟨{ s with world := w', scans := hashtableScanStart w'.ht cursor :: s.scans }, .scanning,
        by simp only [sessionStep, if_neg empty, pause, Option.map_some], good', .inr same⟩
  | scanStep =>
    cases scans : s.scans with
    | nil => exact ⟨s, .idle, by simp only [sessionStep, scans], good, .inr rfl⟩
    | cons f rest =>
      obtain ⟨m, run, keeps⟩ := scanStep_spec (T := T) good.valid f
      obtain ⟨s', r, step, good', same⟩ := sessionScanStep_spec good rest keeps
      exact ⟨s', r, by simp only [sessionStep, scans, run, Option.bind_some, step], good', .inr same⟩
  | iterInit safe skipValidation => exact ⟨_, _, rfl, good, .inr rfl⟩
  | iterNext i =>
    cases found : s.iters[i]? with
    | none => exact ⟨s, .idle, by simp only [sessionStep, found], good, .inr rfl⟩
    | some slot =>
      cases slot with
      | none => exact ⟨s, .idle, by simp only [sessionStep, found], good, .inr rfl⟩
      | some it =>
        obtain ⟨s', r, step, good', same⟩ := sessionIterNext_spec good i it
        exact ⟨s', r, by simp only [sessionStep, found, step], good', .inr same⟩
  | iterCleanup i =>
    cases found : s.iters[i]? with
    | none => exact ⟨s, .idle, by simp only [sessionStep, found], good, .inr rfl⟩
    | some slot =>
      cases slot with
      | none => exact ⟨s, .idle, by simp only [sessionStep, found], good, .inr rfl⟩
      | some it =>
        obtain ⟨s', r, step, good', same⟩ := sessionIterCleanup_spec good i it fun fails => ok ⟨it, found, fails⟩
        exact ⟨s', r, by simp only [sessionStep, found, step], good', .inr same⟩

theorem sessionStep_eq_none {s : Session α} {c : Call α κ} (fails : FingerprintFails s c) : sessionStep T s c = none := by
  cases c with
  | iterCleanup i =>
    obtain ⟨it, found, started, notSafe, differs⟩ := fails
    simp only [sessionStep, found, sessionIterCleanup, if_neg started, notSafe, Bool.false_eq_true, if_false,
      if_neg differs]
  | _ => exact fails.elim

/-- A step that succeeds from a good state leads to a good state. -/
theorem sessionStep_good {s s' : Session α} (good : Good T s.world) {c : Call α κ} {r : Answer α}
    (step : sessionStep T s c = some (s', r)) : Good T s'.world ∧ Keeps c s s' := by
  have ok : ¬FingerprintFails s c := fun fails => by rw [sessionStep_eq_none fails] at step; cases step
  obtain ⟨s'', r', step', good', keeps⟩ := sessionStep_spec good c ok
  rw [step] at step'
  obtain ⟨rfl, rfl⟩ := Prod.mk.inj (Option.some.inj step')
  exact ⟨good', keeps⟩

theorem SessionReachable.good {policy : ResizePolicy} {s : Session α} (reachable : SessionReachable T policy s) :
    Good T s.world := by
  induction reachable with
  | init => exact initWorld_good T policy
  | step _ step ih => exact (sessionStep_good ih step).1

/-- Through scans and iterators the table holds the entries of the map that its calls of the API build. -/
theorem SessionReachable.refines {policy : ResizePolicy} {s : Session α} (reachable : SessionReachable T policy s)
    (lawful : T.Lawful) : ∃ m, Refines lawful s.world m := by
  induction reachable with
  | init => exact ⟨_, initWorld_refines policy⟩
  | @step s s' c r _ step ih =>
    obtain ⟨m, related⟩ := ih
    obtain ⟨good', keeps⟩ := sessionStep_good related.1 step
    rcases keeps with ⟨op, rfl⟩ | same
    · obtain ⟨w', api, related'⟩ := apiStep_refines related op
      simp only [sessionStep, api, Option.map_some, Option.some.injEq, Prod.mk.injEq] at step
      rw [← step.1]
      exact ⟨_, related'⟩
    · exact ⟨m, good', by rw [same]; exact related.2⟩

end Proofs

end Kv.Hashtable
