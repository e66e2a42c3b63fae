import Kv.Kvstore.Queries
import Kv.Hashtable.Scan

/-!
kvstoreScan of `kvstore.c` with the two cursor helpers, and the kvstore as a system in which a caller
interleaves its calls with the steps of the hashtable scans that its scan calls make. The scan of a hashtable
keeps its rehashing paused until its last step, and its callback may delete entries in between.
-/

set_option linter.dupNamespace false

namespace Kv.Kvstore

open Foundations Kv.Hashtable

variable {α κ : Type}

/-! ### The cursor -/

def addHashtableIndexToCursor (kvs : Kvstore α) (didx : Int) (cursor : UInt64) : UInt64 :=
  if kvs.numHashtables = 1 then cursor
  -- the iteration is over when there is no hashtable left to visit
  else if didx = kvstoreIndexNotFound then cursor
  else (cursor <<< kvs.numHashtablesBits.toUInt64) ||| didx.toNat.toUInt64

def getAndClearHashtableIndexFromCursor (kvs : Kvstore α) (cursor : UInt64) : Nat × UInt64 :=
  if kvs.numHashtables = 1 then (0, cursor)
  else ((cursor &&& (kvs.numHashtables - 1).toUInt64).toNat, cursor >>> kvs.numHashtablesBits.toUInt64)

/-! ### kvstoreScan -/

/-- The start of kvstoreScan: the hashtable index taken off the cursor, and moved to `onlydidx` when it is
before it. `none` is the assertion on `onlydidx`, `.inl c` a call that returns `c` at once. -/
def kvstoreScanStart (kvs : Kvstore α) (cursor : UInt64) (onlydidx : Int) : Option (UInt64 ⊕ (Nat × UInt64)) :=
  let (didx, cursor) := getAndClearHashtableIndexFromCursor kvs cursor
  if 0 ≤ onlydidx then
    if (didx : Int) < onlydidx then
      if onlydidx < kvs.numHashtables then some (.inr (onlydidx.toNat, 0)) else none
    -- the cursor is already past onlydidx
    else if onlydidx < didx then some (.inl 0)
    else some (.inr (didx, cursor))
  else some (.inr (didx, cursor))

/-- The end of kvstoreScan once the scan of hashtable `didx` returned `nextCursor`, or the hashtable was
skipped: the cursor with the index of the hashtable to go on with, or 0 once there is none. -/
def kvstoreScanFinish (kvs : Kvstore α) (didx : Nat) (onlydidx : Int) (skip : Bool) (nextCursor : UInt64) :
    Option UInt64 :=
  if nextCursor = 0 ∨ skip then
    if 0 ≤ onlydidx then some 0
    else (kvstoreGetNextNonEmptyHashtableIndex kvs didx).map fun next =>
      if next = kvstoreIndexNotFound then 0 else addHashtableIndexToCursor kvs next nextCursor
  -- `didx` was taken off a cursor: it is never KVSTORE_INDEX_NOT_FOUND
  else some (addHashtableIndexToCursor kvs didx nextCursor)

/-- A call of kvstoreScan in progress: the hashtable it scans and the frame of its hashtableScan. -/
structure KvstoreScanFrame where
  didx : Nat
  onlydidx : Int
  frame : ScanFrame

/-- The kvstore with the scan calls in progress, innermost first. -/
structure KvstoreSession (α : Type) where
  kvs : Kvstore α
  scans : List KvstoreScanFrame

/-- The calls: one of the kvstore, the start of a scan call with its skip_cb (`fun _ => false` for NULL), and
a step of the innermost scan call, whose callback issues its calls between the steps. -/
inductive KvstoreCall (α κ : Type) where
  | op (op : KvstoreOp α κ)
  | scan (cursor : UInt64) (onlydidx : Int) (skipCb : Hashtable α → Bool)
  | scanStep

inductive KvstoreAnswer (α : Type) where
  | done
  | cursor (c : UInt64)
  | emitted (didx : Nat) (entry : α)
  | scanning

section Calls

variable (T : HashtableType α κ) [Inhabited α] (policy : ResizePolicy)

/-- A call of kvstoreScan up to its hashtableScan: a hashtable that is skipped, or empty, ends the call at once;
another has its rehashing paused and a scan frame started. -/
def kvstoreScanCall (s : KvstoreSession α) (cursor : UInt64) (onlydidx : Int) (skipCb : Hashtable α → Bool) :
    Option (KvstoreSession α × KvstoreAnswer α) := do
  match ← kvstoreScanStart s.kvs cursor onlydidx with
  | .inl c => pure (s, .cursor c)
  | .inr (didx, cursor) =>
    match s.kvs.hashtables didx with
    | none => (kvstoreScanFinish s.kvs didx onlydidx true 0).map fun c => (s, .cursor c)
    | some ht =>
      let skip ← if skipCb ht then some true else kvstoreIsImporting s.kvs didx
      if skip then (kvstoreScanFinish s.kvs didx onlydidx true 0).map fun c => (s, .cursor c)
      else if hashtableSize ht = 0 then
        -- hashtableScan returns 0 at once, and the empty hashtable may be freed
        let kvs := freeHashtableIfNeeded s.kvs didx
        (kvstoreScanFinish kvs didx onlydidx false 0).map fun c => ({ s with kvs }, .cursor c)
      else
        let ht := hashtablePauseRehashing ht
        pure (⟨s.kvs.setHashtable didx (some ht), ⟨didx, onlydidx, hashtableScanStart ht cursor⟩ :: s.scans⟩,
          .scanning)

/-- A step of the innermost scan call; its last step resumes rehashing, lets freeHashtableIfNeeded free the
hashtable that the callback emptied, and returns the cursor. -/
def kvstoreScanStepCall (s : KvstoreSession α) : Option (KvstoreSession α × KvstoreAnswer α) :=
  match s.scans with
  | [] => some (s, .done)
  | f :: rest => do
    let ht ← s.kvs.hashtables f.didx
    match ← scanStep T ht f.frame with
    | .emit e frame => pure ({ s with scans := { f with frame := frame } :: rest }, .emitted f.didx e)
    | .move ht frame =>
      pure (⟨s.kvs.setHashtable f.didx (some ht), { f with frame := frame } :: rest⟩, .scanning)
    | .finish nextCursor =>
      let ht ← hashtableResumeRehashing T policy ht
      let kvs := freeHashtableIfNeeded (s.kvs.setHashtable f.didx (some ht)) f.didx
      let c ← kvstoreScanFinish kvs f.didx f.onlydidx false nextCursor
      pure (⟨kvs, rest⟩, .cursor c)

/-- One call; `none` is a failed assertion. -/
def kvstoreSessionStep (s : KvstoreSession α) : KvstoreCall α κ → Option (KvstoreSession α × KvstoreAnswer α)
  | .op op => (kvstoreStep T policy s.kvs op).map fun kvs => ({ s with kvs }, .done)
  | .scan cursor onlydidx skipCb => kvstoreScanCall s cursor onlydidx skipCb
  | .scanStep => kvstoreScanStepCall T policy s

end Calls

/-- The calls a caller makes: the kvstore's on hashtables that exist, importing marked on empty ones, and scans
restricted to a hashtable that exists. -/
def KvstoreAllowed (s : KvstoreSession α) : KvstoreCall α κ → Prop
  | .op op => Allowed s.kvs op
  | .scan _ onlydidx _ => onlydidx < s.kvs.numHashtables
  | .scanStep => True

variable (T : HashtableType α κ) [Inhabited α] in
/-- The sessions a caller reaches from a created kvstore through allowed calls. -/
inductive KvstoreReachable : KvstoreSession α → Prop
  | create {bits : Nat} {flags : KvstoreFlags} {kvs : Kvstore α} :
      0 < bits → kvstoreCreate bits flags = some kvs → KvstoreReachable ⟨kvs, []⟩
  | step {s s' : KvstoreSession α} {r : KvstoreAnswer α} (policy : ResizePolicy) (c : KvstoreCall α κ) :
      KvstoreReachable s → KvstoreAllowed s c → kvstoreSessionStep T policy s c = some (s', r) → KvstoreReachable s'

/-- Where a scan goes on after the call on hashtable `didx`: a restricted scan ends with its hashtable; otherwise
the cursor names the same hashtable at the cursor its scan returned, or the next hashtable that holds keys
counted in the index from its start, or it is 0 when there is none. -/
def ScanGoesOn (kvs : Kvstore α) (didx : Nat) (onlydidx : Int) (skip : Bool) (nextCursor result : UInt64) : Prop :=
  if nextCursor = 0 ∨ skip then
    if 0 ≤ onlydidx then result = 0
    else (result = 0 ∧ ∀ j, didx < j → j < kvs.numHashtables → countedSize kvs j = 0) ∨
      ∃ next, didx < next ∧ next < kvs.numHashtables ∧ countedSize kvs next ≠ 0 ∧
        (∀ j, didx < j → j < next → countedSize kvs j = 0) ∧ getAndClearHashtableIndexFromCursor kvs result = (next, 0)
  else getAndClearHashtableIndexFromCursor kvs result = (didx, nextCursor)

section Cursor

variable {T : HashtableType α κ} {kvs : Kvstore α}

theorem toNat_toUInt64_of_le_sixteen {n : Nat} (small : n < 2 ^ 17) : n.toUInt64.toNat = n := by
  simp [Nat.toUInt64]
  omega

theorem getAndClearHashtableIndexFromCursor_lt (tables : Tables T kvs) (cursor : UInt64) :
    (getAndClearHashtableIndexFromCursor kvs cursor).1 < kvs.numHashtables := by
  have several := tables.several
  have bits : kvs.numHashtables ≤ 2 ^ 16 := by
    rw [tables.numHashtables]
    exact Nat.pow_le_pow_right (by decide) tables.bits_le
  rw [getAndClearHashtableIndexFromCursor, if_neg several.ne']
  -- the index is the low bits of the cursor, below the mask
  show (cursor &&& (kvs.numHashtables - 1).toUInt64).toNat < kvs.numHashtables
  rw [UInt64.toNat_and, toNat_toUInt64_of_le_sixteen (by omega)]
  exact Nat.lt_of_le_of_lt Nat.and_le_right (by omega)

/-- The cursor helpers are inverse: the index put in the low bits is taken off again with the cursor of the
hashtable, when that cursor leaves the bits for the index free. -/
theorem getAndClearHashtableIndexFromCursor_add (tables : Tables T kvs) {didx : Nat} (lt : didx < kvs.numHashtables)
    {cursor : UInt64} (fits : cursor.toNat < 2 ^ (64 - kvs.numHashtablesBits)) :
    getAndClearHashtableIndexFromCursor kvs (addHashtableIndexToCursor kvs didx cursor) = (didx, cursor) := by
  have several := tables.several
  have bitsLe := tables.bits_le
  have count := tables.numHashtables
  have bits : kvs.numHashtablesBits.toUInt64.toNat % 64 = kvs.numHashtablesBits := by
    rw [toNat_toUInt64_of_le_sixteen (by omega)]
    omega
  have mask : (kvs.numHashtables - 1).toUInt64.toNat = 2 ^ kvs.numHashtablesBits - 1 := by
    rw [toNat_toUInt64_of_le_sixteen, count]
    have := Nat.pow_le_pow_right (show 0 < 2 by decide) bitsLe
    omega
  have index : (didx : Int).toNat.toUInt64.toNat = didx := by
    rw [Int.toNat_natCast, toNat_toUInt64_of_le_sixteen]
    have := Nat.pow_le_pow_right (show 0 < 2 by decide) bitsLe
    omega
  -- the shifted cursor stays below 2^64
  have shifted : cursor.toNat <<< kvs.numHashtablesBits < 2 ^ 64 := by
    rw [Nat.shiftLeft_eq]
    calc cursor.toNat * 2 ^ kvs.numHashtablesBits < 2 ^ (64 - kvs.numHashtablesBits) * 2 ^ kvs.numHashtablesBits :=
          Nat.mul_lt_mul_of_pos_right fits (Nat.two_pow_pos _)
      _ = 2 ^ 64 := by rw [← Nat.pow_add, Nat.sub_add_cancel (by omega)]
  have low : didx < 2 ^ kvs.numHashtablesBits := count ▸ lt
  rw [addHashtableIndexToCursor, if_neg several.ne', if_neg (by simp [kvstoreIndexNotFound]),
    getAndClearHashtableIndexFromCursor, if_neg several.ne']
  refine Prod.ext ?_ (UInt64.toNat_inj.mp ?_)
  · show ((cursor <<< kvs.numHashtablesBits.toUInt64 ||| (didx : Int).toNat.toUInt64) &&&
      (kvs.numHashtables - 1).toUInt64).toNat = didx
    rw [UInt64.toNat_and, UInt64.toNat_or, UInt64.toNat_shiftLeft, bits, Nat.mod_eq_of_lt shifted, index, mask]
    apply Nat.eq_of_testBit_eq
    intro i
    rw [Nat.testBit_and, Nat.testBit_or, Nat.testBit_shiftLeft, Nat.testBit_two_pow_sub_one]
    by_cases inside : i < kvs.numHashtablesBits
    · simp [inside, Nat.not_le.mpr inside]
    · have high : didx.testBit i = false :=
        Nat.testBit_lt_two_pow (Nat.lt_of_lt_of_le low (Nat.pow_le_pow_right (by decide) (by omega)))
      simp [inside, high]
  · rw [UInt64.toNat_shiftRight, UInt64.toNat_or, UInt64.toNat_shiftLeft, bits, Nat.mod_eq_of_lt shifted, index]
    apply Nat.eq_of_testBit_eq
    intro i
    rw [Nat.testBit_shiftRight, Nat.testBit_or, Nat.testBit_shiftLeft,
      Nat.testBit_lt_two_pow (Nat.lt_of_lt_of_le low (Nat.pow_le_pow_right (by decide) (by omega)))]
    simp

end Cursor

section Finish

variable {T : HashtableType α κ} {kvs : Kvstore α}

/-- The end of a scan call never fails, and where the cursor leaves the bits of the index free it says where the
scan goes on. -/
theorem Good.kvstoreScanFinish (good : Good T kvs) {didx : Nat} (lt : didx < kvs.numHashtables) (onlydidx : Int)
    (skip : Bool) (nextCursor : UInt64) :
    ∃ result, kvstoreScanFinish kvs didx onlydidx skip nextCursor = some result ∧
      (nextCursor.toNat < 2 ^ (64 - kvs.numHashtablesBits) → (skip = true → nextCursor = 0) →
        ScanGoesOn kvs didx onlydidx skip nextCursor result) := by
  have tables := good.tables
  unfold Kv.Kvstore.kvstoreScanFinish ScanGoesOn
  by_cases done : nextCursor = 0 ∨ skip = true
  · simp only [if_pos done]
    by_cases restricted : 0 ≤ onlydidx
    · simp only [if_pos restricted]
      exact ⟨0, rfl, fun _ _ => rfl⟩
    · simp only [if_neg restricted]
      obtain ⟨answer, next, isNext⟩ := good.kvstoreGetNextNonEmptyHashtableIndex lt
      rw [next, Option.map_some]
      refine ⟨_, rfl, fun _ skipped => ?_⟩
      have zero : nextCursor = 0 := done.elim id skipped
      rcases isNext with ⟨n, rfl, after, inside, nonEmpty, between⟩ | ⟨rfl, none⟩
      · -- the scan goes on with the next hashtable that holds keys, from its start
        rw [if_neg (show (n : Int) ≠ kvstoreIndexNotFound by simp [kvstoreIndexNotFound]), zero,
          getAndClearHashtableIndexFromCursor_add tables inside (Nat.two_pow_pos _)]
        exact .inr ⟨n, after, inside, nonEmpty, between, rfl⟩
      · rw [if_pos rfl]
        exact .inl ⟨rfl, none⟩
  · simp only [if_neg done]
    exact ⟨_, rfl, fun fits _ => getAndClearHashtableIndexFromCursor_add tables lt fits⟩

theorem kvstoreScanStart_spec {kvs : Kvstore α} (tables : Tables T kvs) (cursor : UInt64) {onlydidx : Int}
    (allowed : onlydidx < kvs.numHashtables) :
    ∃ start, kvstoreScanStart kvs cursor onlydidx = some start ∧
      ∀ didx c, start = .inr (didx, c) → didx < kvs.numHashtables := by
  have lt := getAndClearHashtableIndexFromCursor_lt tables cursor
  unfold kvstoreScanStart
  generalize getAndClearHashtableIndexFromCursor kvs cursor = taken at lt ⊢
  obtain ⟨didx, c⟩ := taken
  dsimp only at lt ⊢
  split_ifs with restricted before after
  · -- fast-forward to onlydidx
    exact ⟨_, rfl, fun _ _ same => by cases same; omega⟩
  · exact ⟨_, rfl, fun _ _ same => by cases same⟩
  all_goals exact ⟨_, rfl, fun _ _ same => by cases same; exact lt⟩

end Finish

/-! ### The invariant of a session -/

section Session

variable {T : HashtableType α κ}

variable (T) in
/-- The kvstore is good, and each hashtable is paused once for each scan call in progress on it. -/
structure SessionGood (s : KvstoreSession α) : Prop where
  good : Good T s.kvs
  scanned : ∀ f ∈ s.scans, f.didx < s.kvs.numHashtables
  paused : ∀ didx, pausesOf (s.kvs.hashtables didx) = s.scans.countP (·.didx = didx)

variable {s : KvstoreSession α}

theorem SessionGood.kept (sg : SessionGood T s) {kvs' : Kvstore α} (good : Good T kvs') (kept : Kept s.kvs kvs') :
    SessionGood T ⟨kvs', s.scans⟩ :=
  ⟨good, fun f mem => kept.numHashtables ▸ sg.scanned f mem, fun didx => (kept.pauses didx).trans (sg.paused didx)⟩

/-- A hashtable with a scan call in progress exists and is paused. -/
theorem SessionGood.table (sg : SessionGood T s) {f : KvstoreScanFrame} (mem : f ∈ s.scans) :
    ∃ ht, s.kvs.hashtables f.didx = some ht ∧ 0 < ht.pauseRehash := by
  have scans : 0 < s.scans.countP (·.didx = f.didx) := List.countP_pos_iff.mpr ⟨f, mem, by simp⟩
  have paused := sg.paused f.didx
  cases table : s.kvs.hashtables f.didx with
  | none =>
    simp only [pausesOf, table] at paused
    omega
  | some ht =>
    simp only [pausesOf, table] at paused
    exact ⟨ht, rfl, by omega⟩

theorem hashtablePauseRehashing_eq (ht : Hashtable α) :
    hashtablePauseRehashing ht = { ht with pauseRehash := ht.pauseRehash + 1, pauseAutoShrink := ht.pauseAutoShrink + 1 } :=
  rfl

/-- The start of a hashtable scan: the hashtable paused once more, and its frame on top. -/
theorem SessionGood.push (sg : SessionGood T s) {didx : Nat} (lt : didx < s.kvs.numHashtables) {ht : Hashtable α}
    (table : s.kvs.hashtables didx = some ht) (onlydidx : Int) (frame : ScanFrame) :
    SessionGood T ⟨s.kvs.setHashtable didx (some (hashtablePauseRehashing ht)), ⟨didx, onlydidx, frame⟩ :: s.scans⟩ := by
  have fit := sg.good.tables.fit didx ht table
  have fit' : Fit T (hashtablePauseRehashing ht) := by
    rw [hashtablePauseRehashing_eq]
    exact ⟨fit.valid.withPauses _ _, by have := fit.pauseRehash; dsimp only; omega,
      by dsimp only; rw [fit.pauseAutoShrink]⟩
  refine ⟨sg.good.replace lt table fit' rfl, fun f mem => ?_, fun j => ?_⟩
  · rcases List.mem_cons.mp mem with rfl | older
    · exact lt
    · exact sg.scanned f older
  · have paused := sg.paused j
    by_cases at_didx : j = didx
    · subst at_didx
      simp only [pausesOf, table] at paused
      simp [pausesOf, hashtablePauseRehashing_eq, paused]
    · simpa [Function.update_of_ne at_didx, Ne.symm at_didx] using paused

/-- A step of the innermost scan that leaves the kvstore as it is. -/
theorem SessionGood.reframe (sg : SessionGood T s) {f : KvstoreScanFrame} {rest : List KvstoreScanFrame}
    (top : s.scans = f :: rest) (frame : ScanFrame) : SessionGood T ⟨s.kvs, { f with frame := frame } :: rest⟩ := by
  refine ⟨sg.good, fun g mem => ?_, fun j => ?_⟩
  · rcases List.mem_cons.mp mem with rfl | older
    · exact sg.scanned f (by rw [top]; exact List.mem_cons_self)
    · exact sg.scanned g (by rw [top]; exact List.mem_cons_of_mem f older)
  · rw [sg.paused j, top, List.countP_cons, List.countP_cons]

/-- A step of the innermost scan that changes its hashtable by a compaction at most. -/
theorem SessionGood.move (sg : SessionGood T s) {f : KvstoreScanFrame} {rest : List KvstoreScanFrame}
    (top : s.scans = f :: rest) {ht ht' : Hashtable α} (table : s.kvs.hashtables f.didx = some ht)
    (preserved : Preserved T ht ht') (frame : ScanFrame) :
    SessionGood T ⟨s.kvs.setHashtable f.didx (some ht'), { f with frame := frame } :: rest⟩ := by
  have fit := sg.good.tables.fit f.didx ht table
  have lt := sg.scanned f (by rw [top]; exact List.mem_cons_self)
  have size : hashtableSize ht' = hashtableSize ht := by
    rw [hashtableSize_eq_card preserved.valid, hashtableSize_eq_card fit.valid, preserved.content]
  exact (sg.reframe top frame).kept
    (sg.good.replace lt table (fit.keep preserved.valid preserved.pauseRehash preserved.pauseAutoShrink) size)
    (Kept.replace table preserved.pauseRehash)

/-- The last step of the innermost scan: its hashtable is resumed once and its frame popped. -/
theorem SessionGood.resume (sg : SessionGood T s) {f : KvstoreScanFrame} {rest : List KvstoreScanFrame}
    (top : s.scans = f :: rest) {ht ht' : Hashtable α} (table : s.kvs.hashtables f.didx = some ht)
    (paused : 0 < ht.pauseRehash)
    (resumed : Preserved T { ht with pauseRehash := ht.pauseRehash - 1, pauseAutoShrink := ht.pauseAutoShrink - 1 } ht') :
    SessionGood T ⟨s.kvs.setHashtable f.didx (some ht'), rest⟩ := by
  have fit := sg.good.tables.fit f.didx ht table
  have lt := sg.scanned f (by rw [top]; exact List.mem_cons_self)
  have pauseRehash : ht'.pauseRehash = ht.pauseRehash - 1 := resumed.pauseRehash
  have pauseAutoShrink : ht'.pauseAutoShrink = ht.pauseAutoShrink - 1 := resumed.pauseAutoShrink
  have size : hashtableSize ht' = hashtableSize ht := by
    rw [hashtableSize_eq_card resumed.valid, hashtableSize_eq_card fit.valid, resumed.content]
    rfl
  have fit' : Fit T ht' := ⟨resumed.valid, by omega, by rw [pauseRehash, pauseAutoShrink, fit.pauseAutoShrink]⟩
  refine ⟨sg.good.replace lt table fit' size,
    fun g mem => sg.scanned g (by rw [top]; exact List.mem_cons_of_mem f mem), fun j => ?_⟩
  have before := sg.paused j
  rw [top, List.countP_cons] at before
  by_cases at_didx : j = f.didx
  · subst at_didx
    simp only [pausesOf, table] at before
    simp only [pausesOf, Kvstore.setHashtable_hashtables, Function.update_self, pauseRehash]
    simp at before
    omega
  · simpa [Function.update_of_ne at_didx, Ne.symm at_didx] using before

theorem kvstoreCreate_pauses {bits : Nat} {flags : KvstoreFlags} {kvs : Kvstore α}
    (created : kvstoreCreate bits flags = some kvs) (didx : Nat) : pausesOf (kvs.hashtables didx) = 0 := by
  unfold kvstoreCreate at created
  split_ifs at created with le onDemand
  · cases created
    rfl
  · cases created
    -- every hashtable is created unpaused
    rw [(Kept.foldl_createHashtableIfNeeded _ _).pauses didx]
    rfl

theorem SessionGood.created {bits : Nat} {flags : KvstoreFlags} {kvs : Kvstore α} (positive : 0 < bits)
    (created : kvstoreCreate bits flags = some kvs) : SessionGood T ⟨kvs, []⟩ := by
  have le : bits ≤ 16 := by
    by_contra tooMany
    simp [kvstoreCreate, tooMany] at created
  obtain ⟨kvs', created', good⟩ := kvstoreCreate_good (T := T) positive le flags
  rw [created] at created'
  cases created'
  refine ⟨good, fun _ absurd => (by cases absurd), fun didx => ?_⟩
  rw [kvstoreCreate_pauses created didx]
  rfl

end Session

section Steps

variable {T : HashtableType α κ} {s : KvstoreSession α}

/-- A scan call allowed from a good session never fails an assertion and keeps the session good. -/
theorem kvstoreScanCall_spec (sg : SessionGood T s) (cursor : UInt64) {onlydidx : Int}
    (allowed : onlydidx < s.kvs.numHashtables) (skipCb : Hashtable α → Bool) :
    ∃ s' r, kvstoreScanCall s cursor onlydidx skipCb = some (s', r) ∧ SessionGood T s' := by
  obtain ⟨start, started, bound⟩ := kvstoreScanStart_spec sg.good.tables cursor allowed
  unfold kvstoreScanCall
  rw [started]
  rcases start with c | ⟨didx, cursor⟩
  · exact ⟨s, .cursor c, rfl, sg⟩
  have lt := bound didx cursor rfl
  cases table : s.kvs.hashtables didx with
  | none =>
    obtain ⟨c, finish, -⟩ := sg.good.kvstoreScanFinish lt onlydidx true 0
    exact ⟨s, .cursor c, by simp [table, finish], sg⟩
  | some ht =>
    have fit := sg.good.tables.fit didx ht table
    have importing : kvstoreIsImporting s.kvs didx = some (decide (didx ∈ s.kvs.importing)) := if_pos lt
    simp only [Option.bind_eq_bind, Option.bind_some, table, importing]
    by_cases skip : skipCb ht = true ∨ didx ∈ s.kvs.importing
    · -- a skipped hashtable ends the call with the next one
      obtain ⟨c, finish, -⟩ := sg.good.kvstoreScanFinish lt onlydidx true 0
      refine ⟨s, .cursor c, ?_, sg⟩
      rcases skip with skipped | skipped <;> simp [skipped, finish]
    simp only [not_or, Bool.not_eq_true] at skip
    obtain ⟨notSkipped, notImporting⟩ := skip
    by_cases empty : hashtableSize ht = 0
    · -- the scan of an empty hashtable returns at once, and the hashtable may be freed
      have kept : Kept s.kvs (freeHashtableIfNeeded s.kvs didx) := Kept.freeHashtableIfNeeded fun ht' same => by
        cases table.symm.trans same
        exact fit.pauseRehash
      have freed := sg.kept (sg.good.freeHashtableIfNeeded lt) kept
      obtain ⟨c, finish, -⟩ := freed.good.kvstoreScanFinish (kept.numHashtables ▸ lt) onlydidx false 0
      exact ⟨_, .cursor c, by simp [notSkipped, notImporting, empty, finish], freed⟩
    · exact ⟨_, .scanning, by simp [notSkipped, notImporting, empty],
        sg.push lt table onlydidx (hashtableScanStart (hashtablePauseRehashing ht) cursor)⟩

variable [Inhabited α] (policy : ResizePolicy)

/-- A scan step from a good session never fails an assertion and keeps the session good. -/
theorem kvstoreScanStepCall_spec (sg : SessionGood T s) :
    ∃ s' r, kvstoreScanStepCall T policy s = some (s', r) ∧ SessionGood T s' := by
  unfold kvstoreScanStepCall
  cases top : s.scans with
  | nil => exact ⟨s, .done, rfl, sg⟩
  | cons f rest =>
    have mem : f ∈ s.scans := by rw [top]; exact List.mem_cons_self
    obtain ⟨ht, table, paused⟩ := sg.table mem
    have fit := sg.good.tables.fit f.didx ht table
    obtain ⟨m, step, keeps⟩ := scanStep_spec fit.valid f.frame
    cases m with
    | emit e frame => exact ⟨_, .emitted f.didx e, by simp [table, step], sg.reframe top frame⟩
    | move ht' frame => exact ⟨_, .scanning, by simp [table, step], sg.move top table keeps frame⟩
    | finish nextCursor =>
      -- the last step resumes rehashing, and the hashtable the callback emptied may be freed
      obtain ⟨ht', resume, resumed⟩ := hashtableResumeRehashing_spec policy fit.valid paused
      have resumedGood := sg.resume top table paused resumed
      have lt : f.didx < s.kvs.numHashtables := sg.scanned f mem
      have nonneg : 0 ≤ ht'.pauseRehash := by
        have pauseRehash : ht'.pauseRehash = ht.pauseRehash - 1 := resumed.pauseRehash
        omega
      have kept : Kept (s.kvs.setHashtable f.didx (some ht')) (freeHashtableIfNeeded (s.kvs.setHashtable f.didx (some ht')) f.didx) :=
        Kept.freeHashtableIfNeeded fun ht'' same => by
          simp only [Kvstore.setHashtable_hashtables, Function.update_self, Option.some_inj] at same
          exact same ▸ nonneg
      have freed := resumedGood.kept (resumedGood.good.freeHashtableIfNeeded lt) kept
      obtain ⟨c, finish, -⟩ := freed.good.kvstoreScanFinish (kept.numHashtables ▸ lt) f.onlydidx false nextCursor
      exact ⟨_, .cursor c, by simp [table, step, resume, finish], freed⟩

/-- Every allowed call from a good session returns, and keeps the session good. -/
theorem kvstoreSessionStep_spec (sg : SessionGood T s) {c : KvstoreCall α κ} (allowed : KvstoreAllowed s c) :
    ∃ s' r, kvstoreSessionStep T policy s c = some (s', r) ∧ SessionGood T s' := by
  cases c with
  | op op =>
    obtain ⟨kvs', step, good', kept⟩ := kvstoreStep_good policy sg.good allowed
    exact ⟨_, .done, by simp [kvstoreSessionStep, step], sg.kept good' kept⟩
  | scan cursor onlydidx skipCb => exact kvstoreScanCall_spec sg cursor allowed skipCb
  | scanStep => exact kvstoreScanStepCall_spec policy sg

theorem KvstoreReachable.good (reachable : KvstoreReachable T s) : SessionGood T s := by
  induction reachable with
  | create positive created => exact SessionGood.created positive created
  | step policy c _ allowed step ih =>
    obtain ⟨s'', r', step', good'⟩ := kvstoreSessionStep_spec policy ih allowed
    rw [step] at step'
    cases step'
    exact good'

end Steps


/-! ### The index over every run -/

section Runs

variable {T : HashtableType α κ} {kvs : Kvstore α}

/-- What the key-count index and the scan cursor answer. -/
structure IndexCorrect (kvs : Kvstore α) : Prop where
  keyCount : kvs.keyCount = ∑ d ∈ Finset.range kvs.numHashtables, (countedSize kvs d : Int)
  importingKeyCount : kvs.importingKeyCount = ∑ d ∈ Finset.range kvs.numHashtables, (importedSize kvs d : Int)
  nonEmptyHashtables :
    kvs.nonEmptyHashtables = ((Finset.range kvs.numHashtables).filter fun d => countedSize kvs d ≠ 0).card
  read : ∀ didx < kvs.numHashtables, cumulativeKeyCountRead kvs didx = some (keysUpTo kvs didx : Int)
  find : ∀ target : Nat, 0 < target → (target : Int) ≤ kvstoreSize kvs →
    ∃ didx : Nat, kvstoreFindHashtableIndexByKeyIndex kvs target = some (didx : Int) ∧ HoldsKey kvs target didx
  next : ∀ didx < kvs.numHashtables,
    ∃ answer, kvstoreGetNextNonEmptyHashtableIndex kvs didx = some answer ∧ IsNextNonEmpty kvs didx answer
  cursor : ∀ didx < kvs.numHashtables, ∀ cursor : UInt64, cursor.toNat < 2 ^ (64 - kvs.numHashtablesBits) →
    getAndClearHashtableIndexFromCursor kvs (addHashtableIndexToCursor kvs didx cursor) = (didx, cursor)
  scan : ∀ didx < kvs.numHashtables, ∀ (onlydidx : Int) (skip : Bool) (nextCursor : UInt64),
    nextCursor.toNat < 2 ^ (64 - kvs.numHashtablesBits) → (skip = true → nextCursor = 0) →
    ∃ result, kvstoreScanFinish kvs didx onlydidx skip nextCursor = some result ∧
      ScanGoesOn kvs didx onlydidx skip nextCursor result

theorem Good.indexCorrect (good : Good T kvs) : IndexCorrect kvs where
  keyCount := good.counters.keyCount
  importingKeyCount := good.counters.importingKeyCount
  nonEmptyHashtables := good.counters.nonEmpty
  read _ lt := good.cumulativeKeyCountRead lt
  find _ positive le := good.kvstoreFindHashtableIndexByKeyIndex positive le
  next _ lt := good.kvstoreGetNextNonEmptyHashtableIndex lt
  cursor _ lt _ fits := getAndClearHashtableIndexFromCursor_add good.tables lt fits
  scan _ lt onlydidx skip nextCursor fits skipped :=
    (good.kvstoreScanFinish lt onlydidx skip nextCursor).imp fun _ finish => ⟨finish.1, finish.2 fits skipped⟩

variable [Inhabited α] {s : KvstoreSession α}

end Runs

end Kv.Kvstore
