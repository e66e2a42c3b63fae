import Kv.Stream.Pel

/-!
The consumer groups of a stream (t_stream.c): XGROUP CREATE, SETID, DESTROY,
CREATECONSUMER and DELCONSUMER, the group commands of the previous module
applied to a group found by name, and the copy of a stream's groups that COPY
makes (`streamDup`).
-/

namespace Kv.Stream

open Foundations

structure StreamObj where
  lastId : StreamID
  cgroups : Rax (List Char) StreamCG

def streamLookupCG (s : StreamObj) (name : List Char) : Option StreamCG :=
  raxFind s.cgroups name

/-- XGROUP CREATE once its arguments are parsed (`none` for "$"): whether a
group was created, as `streamCreateCG` returns NULL for a taken name. -/
def xgroupCreate (s : StreamObj) (name : List Char) (id : Option StreamID) (entriesRead : Int) :
    Bool × StreamObj :=
  let id := id.getD s.lastId
  if (raxFind s.cgroups name).isSome then (false, s)
  else (true, { s with cgroups := raxInsert s.cgroups name (streamCreateCG id entriesRead) })

def xgroupSetid (s : StreamObj) (group : StreamCG) (id : Option StreamID) (entriesRead : Int) : StreamCG :=
  { group with lastId := id.getD s.lastId, entriesRead }

def xgroupDestroy (s : StreamObj) (name : List Char) : Bool × StreamObj :=
  match streamLookupCG s name with
  | none => (false, s)
  | some _ => (true, { s with cgroups := raxRemove s.cgroups name })

section Commands

variable (allocator : Allocator)

def xgroupCreateconsumer (group : StreamCG) (name : List Char) (now : Int) : Bool × StreamCG :=
  match streamCreateConsumer allocator group name now with
  | (some _, group) => (true, group)
  | (none, group) => (false, group)

def streamDupPel (group : StreamCG) (now : Int) : List (Σ _ : Nat, Addr) → StreamCG → Option StreamCG
  | [], copy => some copy
  | entry :: entries, copy => do
    let nack ← group.nack entry.2
    let (newNack, copy) := streamCreateNACK allocator copy none now
    let copy := copy.setNack newNack { nack with consumer := none }
    streamDupPel group now entries (copy.setPel (raxInsert copy.pel entry.1 newNack))

def streamDupConsumerPel (newConsumer : Addr) : List (Σ _ : Nat, Addr) → StreamCG → Option StreamCG
  | [], copy => some copy
  | entry :: entries, copy => do
    let newNack ← raxFind copy.pel entry.1
    let nack ← copy.nack newNack
    let copy := copy.setNack newNack { nack with consumer := some newConsumer }
    let copy ← copy.modifyConsumer newConsumer fun value => { value with pel := raxInsert value.pel entry.1 newNack }
    streamDupConsumerPel newConsumer entries copy

def streamDupConsumers (group : StreamCG) : List (Σ _ : List Char, Addr) → StreamCG → Option StreamCG
  | [], copy => some copy
  | entry :: entries, copy => do
    let consumer ← group.consumer entry.2
    let newConsumer := allocator.alloc copy.consumerHeap.keys
    let copy := { copy.setConsumer newConsumer ⟨consumer.seenTime, consumer.activeTime, consumer.name, ∅⟩ with
      consumers := raxInsert copy.consumers consumer.name newConsumer }
    let copy ← streamDupConsumerPel newConsumer consumer.pel.entries copy
    streamDupConsumers group entries copy

def streamDupCG (group : StreamCG) (now : Int) : Option StreamCG := do
  let copy ← streamDupPel allocator group now group.pel.entries (streamCreateCG group.lastId group.entriesRead)
  streamDupConsumers allocator group group.consumers.entries copy

/-- The groups of the copy COPY makes of a stream (`streamDup`). -/
def streamDup (s : StreamObj) (now : Int) : Option StreamObj := do
  let cgroups ← s.cgroups.entries.foldlM (fun cgroups entry => do
    let copy ← streamDupCG allocator entry.2 now
    pure (raxInsert cgroups entry.1 copy)) ∅
  pure { s with cgroups }

inductive GroupCommand where
  | create (group : List Char) (id : Option StreamID) (entriesRead : Int)
  | setid (group : List Char) (id : Option StreamID) (entriesRead : Int)
  | destroy (group : List Char)
  | createconsumer (group consumer : List Char) (now : Int)
  | delconsumer (group consumer : List Char)
  | readgroup (group consumer : List Char) (noack : Bool) (now : Int) (ids : List StreamID)
  | readgroupHistory (group consumer : List Char) (entryExists : Nat → Bool) (start count : Nat) (now : Int)
  | ack (group : List Char) (keys : List Nat)
  | claim (group consumer : List Char) (entryExists : Nat → Bool) (options : XclaimOptions) (lastId : StreamID)
      (now : Int) (keys : List Nat)
  | autoclaim (group consumer : List Char) (entryExists : Nat → Bool) (minidle : Int) (justid : Bool)
      (count : Nat) (now : Int) (start : Nat)
  /-- COPY of the stream: the commands after it act on the copy. -/
  | copy (now : Int)

def streamUpdateCG (s : StreamObj) (name : List Char) (command : StreamCG → Option StreamCG) : Option StreamObj :=
  match streamLookupCG s name with
  | none => some s
  | some group => (command group).map fun group => { s with cgroups := raxInsert s.cgroups name group }

def groupStep (s : StreamObj) : GroupCommand → Option StreamObj
  | .create group id entriesRead => some (xgroupCreate s group id entriesRead).2
  | .setid group id entriesRead => streamUpdateCG s group fun cg => some (xgroupSetid s cg id entriesRead)
  | .destroy group => some (xgroupDestroy s group).2
  | .createconsumer group consumer now =>
    streamUpdateCG s group fun cg => some (xgroupCreateconsumer allocator cg consumer now).2
  | .delconsumer group consumer => streamUpdateCG s group fun cg => (xgroupDelconsumer cg consumer).map (·.2)
  | .readgroup group consumer noack now ids =>
    streamUpdateCG s group fun cg => xreadgroup allocator consumer noack now cg ids
  | .readgroupHistory group consumer entryExists start count now =>
    streamUpdateCG s group fun cg => xreadgroupHistory allocator entryExists consumer start count now cg
  | .ack group keys => streamUpdateCG s group fun cg => (xack cg keys).map (·.2)
  | .claim group consumer entryExists options lastId now keys =>
    streamUpdateCG s group fun cg => (xclaim allocator entryExists options lastId consumer now cg keys).map (·.2)
  | .autoclaim group consumer entryExists minidle justid count now start =>
    streamUpdateCG s group fun cg =>
      (xautoclaim allocator entryExists minidle justid count consumer now cg start).map (·.2)
  | .copy now => streamDup allocator s now

end Commands

end Kv.Stream
