import Kv.Foundations.Heap
import Mathlib.Algebra.Group.Nat.Defs

/-!
The pending entries lists of stream consumer groups (t_stream.c). A group
keeps every delivered, not yet acknowledged entry in its PEL, a rax from the
entry's ID to a NACK; each consumer keeps the entries delivered to it in its
own PEL, whose values are the same NACK objects, and each NACK points back to
its consumer.
-/

namespace Kv.Stream

open Foundations

structure StreamID where
  ms : Nat
  seq : Nat
  deriving DecidableEq

def streamEncodeID (id : StreamID) : Nat :=
  id.ms * 2 ^ 64 + id.seq

def streamDecodeID (key : Nat) : StreamID :=
  ⟨key / 2 ^ 64, key % 2 ^ 64⟩

def streamIDGreater (a b : StreamID) : Bool :=
  a.ms > b.ms || (a.ms == b.ms && a.seq > b.seq)

abbrev Rax (κ α : Type) := AList (fun _ : κ => α)

section Rax

variable {κ α : Type} [DecidableEq κ]

def raxFind (rax : Rax κ α) (key : κ) : Option α :=
  rax.lookup key

def raxInsert (rax : Rax κ α) (key : κ) (data : α) : Rax κ α :=
  rax.insert key data

def raxTryInsert (rax : Rax κ α) (key : κ) (data : α) : Bool × Rax κ α :=
  if (rax.lookup key).isSome then (false, rax) else (true, rax.insert key data)

def raxRemove (rax : Rax κ α) (key : κ) : Rax κ α :=
  rax.erase key

theorem raxTryInsert_of_none {rax : Rax κ α} {key : κ} (absent : rax.lookup key = none) (data : α) :
    raxTryInsert rax key data = (true, rax.insert key data) := by
  simp [raxTryInsert, absent]

theorem raxTryInsert_of_some {rax : Rax κ α} {key : κ} {old : α} (present : rax.lookup key = some old) (data : α) :
    raxTryInsert rax key data = (false, rax) := by
  simp [raxTryInsert, present]

def raxSeekGE (rax : Rax Nat α) (bound : Nat) : Option Nat :=
  (rax.keys.filter (bound ≤ ·)).min?

end Rax

structure StreamNACK where
  deliveryTime : Int
  deliveryCount : Nat
  consumer : Option Addr
  deriving DecidableEq

structure StreamConsumer where
  seenTime : Int
  activeTime : Int
  name : List Char
  pel : Rax Nat Addr

structure StreamCG where
  lastId : StreamID
  entriesRead : Int
  pel : Rax Nat Addr
  consumers : Rax (List Char) Addr
  nackHeap : Heap StreamNACK
  consumerHeap : Heap StreamConsumer

namespace StreamCG

def nack (group : StreamCG) (nack : Addr) : Option StreamNACK :=
  group.nackHeap.lookup nack

def consumer (group : StreamCG) (consumer : Addr) : Option StreamConsumer :=
  group.consumerHeap.lookup consumer

def setNack (group : StreamCG) (nack : Addr) (value : StreamNACK) : StreamCG :=
  { group with nackHeap := group.nackHeap.insert nack value }

def freeNack (group : StreamCG) (nack : Addr) : StreamCG :=
  { group with nackHeap := group.nackHeap.erase nack }

def setConsumer (group : StreamCG) (consumer : Addr) (value : StreamConsumer) : StreamCG :=
  { group with consumerHeap := group.consumerHeap.insert consumer value }

def freeConsumer (group : StreamCG) (consumer : Addr) : StreamCG :=
  { group with consumerHeap := group.consumerHeap.erase consumer }

def setPel (group : StreamCG) (pel : Rax Nat Addr) : StreamCG :=
  { group with pel }

def modifyConsumer (group : StreamCG) (consumer : Addr) (change : StreamConsumer → StreamConsumer) :
    Option StreamCG :=
  (group.consumer consumer).map fun value => group.setConsumer consumer (change value)

section Accessors

variable (group : StreamCG) (pel : Rax Nat Addr) (nack nack' consumer consumer' : Addr) (value : StreamNACK)
  (object : StreamConsumer)

@[simp] theorem setPel_pel : (group.setPel pel).pel = pel := rfl
@[simp] theorem setPel_nack : (group.setPel pel).nack nack = group.nack nack := rfl
@[simp] theorem setPel_consumer : (group.setPel pel).consumer consumer = group.consumer consumer := rfl

@[simp] theorem setNack_pel : (group.setNack nack value).pel = group.pel := rfl
@[simp] theorem setNack_nack :
    (group.setNack nack value).nack nack' = if nack' = nack then some value else group.nack nack' :=
  lookup_insert_ite _ _ _ _
@[simp] theorem setNack_consumer : (group.setNack nack value).consumer consumer = group.consumer consumer := rfl

@[simp] theorem freeNack_pel : (group.freeNack nack).pel = group.pel := rfl
@[simp] theorem freeNack_nack : (group.freeNack nack).nack nack' = if nack' = nack then none else group.nack nack' :=
  lookup_erase_ite _ _ _
@[simp] theorem freeNack_consumer : (group.freeNack nack).consumer consumer = group.consumer consumer := rfl

@[simp] theorem setConsumer_pel : (group.setConsumer consumer object).pel = group.pel := rfl
@[simp] theorem setConsumer_nack : (group.setConsumer consumer object).nack nack = group.nack nack := rfl
@[simp] theorem setConsumer_consumer : (group.setConsumer consumer object).consumer consumer' =
    if consumer' = consumer then some object else group.consumer consumer' :=
  lookup_insert_ite _ _ _ _

@[simp] theorem freeConsumer_pel : (group.freeConsumer consumer).pel = group.pel := rfl
@[simp] theorem freeConsumer_nack : (group.freeConsumer consumer).nack nack = group.nack nack := rfl
@[simp] theorem freeConsumer_consumer :
    (group.freeConsumer consumer).consumer consumer' = if consumer' = consumer then none else group.consumer consumer' :=
  lookup_erase_ite _ _ _

theorem setConsumer_consumer_self : (group.setConsumer consumer object).consumer consumer = some object := by
  simp

theorem modifyConsumer_of_consumer {consumer : Addr} {object : StreamConsumer}
    (live : group.consumer consumer = some object) (change : StreamConsumer → StreamConsumer) :
    group.modifyConsumer consumer change = some (group.setConsumer consumer (change object)) := by
  simp [modifyConsumer, live]

end Accessors

end StreamCG

/-- `streamCreateCG`: a group with empty PEL and no consumers. -/
def streamCreateCG (lastId : StreamID) (entriesRead : Int) : StreamCG :=
  ⟨lastId, entriesRead, ∅, ∅, ∅, ∅⟩

section Commands

variable (allocator : Allocator)

/-- `streamCreateNACK`: a NACK delivered now, once, to a consumer or to NULL. -/
def streamCreateNACK (group : StreamCG) (consumer : Option Addr) (now : Int) : Addr × StreamCG :=
  let nack := allocator.alloc group.nackHeap.keys
  (nack, group.setNack nack ⟨now, 1, consumer⟩)

/-- `streamCreateConsumer`: a consumer with an empty PEL, or NULL when the
name is taken. -/
def streamCreateConsumer (group : StreamCG) (name : List Char) (now : Int) : Option Addr × StreamCG :=
  let consumer := allocator.alloc group.consumerHeap.keys
  match raxTryInsert group.consumers name consumer with
  | (true, consumers) => (some consumer, { group.setConsumer consumer ⟨now, -1, name, ∅⟩ with consumers })
  | (false, _) => (none, group)

def streamLookupConsumer (group : StreamCG) (name : List Char) : Option Addr :=
  raxFind group.consumers name

def streamLookupOrCreateConsumer (group : StreamCG) (name : List Char) (now : Int) : Option (Addr × StreamCG) := do
  let (consumer, group) ←
    match streamLookupConsumer group name with
    | some consumer => some (consumer, group)
    | none =>
      match streamCreateConsumer allocator group name now with
      | (some consumer, group) => some (consumer, group)
      | (none, _) => none
  let group ← group.modifyConsumer consumer fun value => { value with seenTime := now }
  pure (consumer, group)

def streamDeliverEntry (group : StreamCG) (consumer : Addr) (key : Nat) (now : Int) : Option StreamCG := do
  let (nack, group) := streamCreateNACK allocator group (some consumer) now
  let (groupInserted, pel) := raxTryInsert group.pel key nack
  let group := group.setPel pel
  let value ← group.consumer consumer
  let (consumerInserted, consumerPel) := raxTryInsert value.pel key nack
  let group := group.setConsumer consumer { value with pel := consumerPel }
  let group ←
    if !groupInserted then do
      let group := group.freeNack nack
      let pending ← raxFind group.pel key
      let value ← group.nack pending
      let owner ← value.consumer
      let group ← group.modifyConsumer owner fun old => { old with pel := raxRemove old.pel key }
      let group :=
        group.setNack pending { value with consumer := some consumer, deliveryTime := now, deliveryCount := 1 }
      group.modifyConsumer consumer fun current => { current with pel := raxInsert current.pel key pending }
    else if !consumerInserted then none
    else pure group
  group.modifyConsumer consumer fun value => { value with activeTime := now }

/-- The group part of XREADGROUP serving new entries (`streamReplyWithRange`
with a group): the last delivered ID moves up, and without NOACK every entry
served gets its NACK. The read counter, which depends on the stream's
content, is not modelled. -/
def streamServeEntries (group : StreamCG) (consumer : Addr) (noack : Bool) (now : Int) :
    List StreamID → Option StreamCG
  | [] => some group
  | id :: ids => do
    let group := if streamIDGreater id group.lastId then { group with lastId := id } else group
    let group ← if noack then pure group else streamDeliverEntry allocator group consumer (streamEncodeID id) now
    streamServeEntries group consumer noack now ids

/-- XREADGROUP on one stream after its arguments are parsed: the consumer, then
the entries served. -/
def xreadgroup (name : List Char) (noack : Bool) (now : Int) (group : StreamCG) (ids : List StreamID) :
    Option StreamCG := do
  let (consumer, group) ← streamLookupOrCreateConsumer allocator group name now
  streamServeEntries allocator group consumer noack now ids

/-- `streamReplyWithRangeFromConsumerPEL`, which XREADGROUP calls to serve a
consumer its own history: the first `count` (0 for all) keys of its PEL from
`start` in order; the entries still in the stream are delivered once more. -/
def streamReplyWithRangeFromConsumerPEL (entryExists : Nat → Bool) (group : StreamCG) (consumer : Addr) (start : Nat)
    (count : Nat) (now : Int) : Option StreamCG := do
  let value ← group.consumer consumer
  let keys := (value.pel.keys.filter (start ≤ ·)).mergeSort (· ≤ ·)
  let keys := if count = 0 then keys else keys.take count
  keys.foldlM (fun group key =>
    if entryExists key then do
      let nack ← raxFind value.pel key
      let nackValue ← group.nack nack
      pure (group.setNack nack { nackValue with deliveryTime := now, deliveryCount := nackValue.deliveryCount + 1 })
    else pure group) group

def xreadgroupHistory (entryExists : Nat → Bool) (name : List Char) (start : Nat) (count : Nat) (now : Int)
    (group : StreamCG) : Option StreamCG := do
  let (consumer, group) ← streamLookupOrCreateConsumer allocator group name now
  streamReplyWithRangeFromConsumerPEL entryExists group consumer start count now

def streamReleaseNACK (group : StreamCG) (key : Nat) (nack : Addr) : Option StreamCG := do
  let value ← group.nack nack
  let owner ← value.consumer
  let group := group.setPel (raxRemove group.pel key)
  let group ← group.modifyConsumer owner fun old => { old with pel := raxRemove old.pel key }
  pure (group.freeNack nack)

/-- XACK: the number of entries acknowledged. -/
def xack (group : StreamCG) : List Nat → Option (Nat × StreamCG)
  | [] => some (0, group)
  | key :: keys =>
    match raxFind group.pel key with
    | none => xack group keys
    | some nack => do
      let group ← streamReleaseNACK group key nack
      let (acknowledged, group) ← xack group keys
      pure (acknowledged + 1, group)

structure XclaimOptions where
  minidle : Int
  deliverytime : Int
  /-- -1 when RETRYCOUNT is not given. -/
  retrycount : Int
  force : Bool
  justid : Bool

def streamClaimNACK (group : StreamCG) (consumer : Addr) (key : Nat) (nack : Addr) (value : StreamNACK)
    (deliveryTime : Int) (deliveryCount : Nat) (now : Int) : Option StreamCG := do
  let group ←
    match value.consumer with
    | some owner =>
      if owner ≠ consumer then group.modifyConsumer owner fun old => { old with pel := raxRemove old.pel key }
      else pure group
    | none => pure group
  let value := { value with deliveryTime, deliveryCount }
  let group ←
    if value.consumer ≠ some consumer then do
      let group ← group.modifyConsumer consumer fun current => { current with pel := raxInsert current.pel key nack }
      pure (group.setNack nack { value with consumer := some consumer })
    else pure (group.setNack nack value)
  group.modifyConsumer consumer fun current => { current with activeTime := now }

def xclaimLoop (entryExists : Nat → Bool) (options : XclaimOptions) (consumer : Addr) (now : Int) (group : StreamCG) :
    List Nat → Option (List Nat × StreamCG)
  | [] => some ([], group)
  | key :: keys =>
    if !entryExists key then
      match raxFind group.pel key with
      | none => xclaimLoop entryExists options consumer now group keys
      | some nack => do
        let group ← streamReleaseNACK group key nack
        xclaimLoop entryExists options consumer now group keys
    else
      -- FORCE creates the NACK of an entry that is not pending, with no consumer
      let (pending, group) :=
        match raxFind group.pel key with
        | none =>
          if options.force then
            let (nack, group) := streamCreateNACK allocator group none now
            (some nack, group.setPel (raxInsert group.pel key nack))
          else (none, group)
        | some nack => (some nack, group)
      match pending with
      | none => xclaimLoop entryExists options consumer now group keys
      | some nack => do
        let value ← group.nack nack
        if value.consumer.isSome && options.minidle ≠ 0 && now - value.deliveryTime < options.minidle then
          xclaimLoop entryExists options consumer now group keys
        else
          let deliveryCount :=
            if options.retrycount ≥ 0 then options.retrycount.toNat
            else if !options.justid then value.deliveryCount + 1 else value.deliveryCount
          let group ← streamClaimNACK group consumer key nack value options.deliverytime deliveryCount now
          let (claimed, group) ← xclaimLoop entryExists options consumer now group keys
          pure (key :: claimed, group)

/-- XCLAIM after its arguments are parsed: the consumer, the LASTID update and
the loop. -/
def xclaim (entryExists : Nat → Bool) (options : XclaimOptions) (lastId : StreamID) (name : List Char) (now : Int)
    (group : StreamCG) (keys : List Nat) : Option (List Nat × StreamCG) := do
  let group := if streamIDGreater lastId group.lastId then { group with lastId } else group
  let (consumer, group) ← streamLookupOrCreateConsumer allocator group name now
  xclaimLoop allocator entryExists options consumer now group keys

structure XautoclaimReply where
  endId : Nat
  claimed : List Nat
  deleted : List Nat

def xautoclaimLoop (entryExists : Nat → Bool) (minidle : Int) (justid : Bool) (consumer : Addr) (now : Int) :
    Nat → Nat → Nat → StreamCG → List Nat → List Nat → Option (Nat × List Nat × List Nat × StreamCG)
  | 0, _, bound, group, claimed, deleted => some (bound, claimed, deleted, group)
  | attempts + 1, count, bound, group, claimed, deleted =>
    if count = 0 then some (bound, claimed, deleted, group)
    else
      match raxSeekGE group.pel bound with
      | none => some (bound, claimed, deleted, group)
      | some key => do
        let nack ← raxFind group.pel key
        if !entryExists key then
          let group ← streamReleaseNACK group key nack
          xautoclaimLoop entryExists minidle justid consumer now attempts (count - 1) (key + 1) group claimed
            (deleted ++ [key])
        else
          let value ← group.nack nack
          if minidle ≠ 0 && now - value.deliveryTime < minidle then
            xautoclaimLoop entryExists minidle justid consumer now attempts count (key + 1) group claimed deleted
          else
            let deliveryCount := if !justid then value.deliveryCount + 1 else value.deliveryCount
            let group ← streamClaimNACK group consumer key nack value now deliveryCount now
            xautoclaimLoop entryExists minidle justid consumer now attempts (count - 1) (key + 1) group
              (claimed ++ [key]) deleted

/-- XAUTOCLAIM after its arguments are parsed. -/
def xautoclaim (entryExists : Nat → Bool) (minidle : Int) (justid : Bool) (count : Nat) (name : List Char) (now : Int)
    (group : StreamCG) (start : Nat) : Option (XautoclaimReply × StreamCG) := do
  let (consumer, group) ← streamLookupOrCreateConsumer allocator group name now
  let (bound, claimed, deleted, group) ←
    xautoclaimLoop entryExists minidle justid consumer now (count * 10) count start group [] []
  pure (⟨(raxSeekGE group.pel bound).getD 0, claimed, deleted⟩, group)

/-- `streamDelConsumer`: the consumer's NACKs are taken out of the group PEL
and freed, then the consumer. -/
def streamDelConsumer (group : StreamCG) (consumer : Addr) : Option StreamCG := do
  let value ← group.consumer consumer
  let group := value.pel.entries.foldl (fun group entry =>
    (group.setPel (raxRemove group.pel entry.1)).freeNack entry.2) group
  let group := { group with consumers := raxRemove group.consumers value.name }
  pure (group.freeConsumer consumer)

def xgroupDelconsumer (group : StreamCG) (name : List Char) : Option (Nat × StreamCG) :=
  match streamLookupConsumer group name with
  | none => some (0, group)
  | some consumer => do
    let value ← group.consumer consumer
    let group ← streamDelConsumer group consumer
    pure (value.pel.entries.length, group)

end Commands

end Kv.Stream
