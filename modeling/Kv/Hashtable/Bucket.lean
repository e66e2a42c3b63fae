import Kv.Foundations.BitMask

/-!
Buckets and bucket chains of `hashtable.c` on a 64-bit build.
-/

namespace Kv.Hashtable

open Foundations

def entriesPerBucket : Nat := 7

structure Bucket (α : Type) where
  chained : Bool
  presence : BitVec 7
  hashes : Nat → UInt8
  entries : Nat → α

variable {α : Type}

def emptyBucket [Inhabited α] : Bucket α :=
  ⟨false, 0, fun _ => 0, fun _ => default⟩

def highBits (hash : UInt64) : UInt8 :=
  (hash >>> 56).toUInt8

def numBucketPositions (b : Bucket α) : Nat :=
  entriesPerBucket - (if b.chained then 1 else 0)

def bucketIsFull (b : Bucket α) : Bool :=
  b.presence.toNat == 2 ^ numBucketPositions b - 1

def isPositionFilled (b : Bucket α) (position : Nat) : Bool :=
  b.presence.getLsbD position

def filledPositions (b : Bucket α) : List Nat :=
  (List.range (numBucketPositions b)).filter (isPositionFilled b)

def Bucket.fill (b : Bucket α) (pos : Nat) (entry : α) (h2 : UInt8) : Bucket α :=
  { b with
    entries := Function.update b.entries pos entry
    hashes := Function.update b.hashes pos h2
    presence := b.presence ||| 1#7 <<< pos }

def Bucket.clear (b : Bucket α) (pos : Nat) : Bucket α :=
  { b with presence := b.presence &&& ~~~(1#7 <<< pos) }

def moveEntry (bucketTo : Bucket α) (posTo : Nat) (bucketFrom : Bucket α) (posFrom : Nat) :
    Option (Bucket α × Bucket α) :=
  if isPositionFilled bucketTo posTo then none
  else if !isPositionFilled bucketFrom posFrom then none
  else some (bucketTo.fill posTo (bucketFrom.entries posFrom) (bucketFrom.hashes posFrom),
    bucketFrom.clear posFrom)

/-- Returns the converted bucket and its new child, which takes the entry of
the last position. -/
def bucketConvertToChained [Inhabited α] (b : Bucket α) : Option (Bucket α × Bucket α) :=
  if b.chained then none
  else if !isPositionFilled b (entriesPerBucket - 1) then none
  else do
    let (child, b) ← moveEntry emptyBucket 0 b (entriesPerBucket - 1)
    pure ({ b with chained := true }, child)

def bucketConvertToUnchained (b : Bucket α) : Option (Bucket α) :=
  if !b.chained then none
  else if isPositionFilled b (entriesPerBucket - 1) then none
  else some { b with chained := false }

def insertWalk [Inhabited α] : List (Bucket α) → Option (List (Bucket α) × Nat × Bool)
  | [] => none
  | b :: rest =>
    if bucketIsFull b then
      if b.chained then
        (insertWalk rest).map fun (rest, depth, added) => (b :: rest, depth + 1, added)
      else do
        let (b, child) ← bucketConvertToChained b
        pure ([b, child], 1, true)
    else some (b :: rest, 0, false)

def firstFreePosition (b : Bucket α) : Option Nat :=
  (List.range entriesPerBucket).find? fun pos => !isPositionFilled b pos

def lastDepth : List (Bucket α) → Nat
  | [] => 0
  | b :: rest => if b.chained then lastDepth rest + 1 else 0

def pruneLastBucket (ch : List (Bucket α)) (beforeLast : Nat) : Option (List (Bucket α)) := do
  let bl ← ch[beforeLast]?
  let last ← ch[beforeLast + 1]?
  if !(bl.chained && !last.chained) then none
  if !(last.presence == 0 || last.presence.cpop.toNat == 1) then none
  let bl ← bucketConvertToUnchained bl
  let bl ←
    if last.presence != 0 then
      (moveEntry bl (entriesPerBucket - 1) last (last.presence.ctz.toNat)).map (·.1)
    else pure bl
  pure (ch.take beforeLast ++ [bl])

def fillBucketHole (ch : List (Bucket α)) (depth pos : Nat) : Option (List (Bucket α) × Nat) := do
  let b ← ch[depth]?
  if !(b.chained && !isPositionFilled b pos) then none
  let last := depth + 1 + lastDepth (ch.drop (depth + 1))
  let lb ← ch[last]?
  let ch ←
    if lb.presence != 0 then do
      let posInLast := lb.presence.ctz.toNat
      if !(decide (posInLast < entriesPerBucket) && isPositionFilled lb posInLast) then none
      let (b, lb) ← moveEntry b pos lb posInLast
      pure ((ch.set depth b).set last lb)
    else pure ch
  let lb ← ch[last]?
  if lb.presence == 0 || lb.presence.cpop.toNat == 1 then
    let ch ← pruneLastBucket ch (last - 1)
    pure (ch, 1)
  else pure (ch, 0)

def fillHoles (ch : List (Bucket α)) (depth : Nat) : List Nat → Option (List (Bucket α) × Nat × Bool)
  | [] => some (ch, 0, false)
  | pos :: rest => do
    let b ← ch[depth]?
    if isPositionFilled b pos then fillHoles ch depth rest
    else
      let (ch, freed) ← fillBucketHole ch depth pos
      let b ← ch[depth]?
      if !b.chained then pure (ch, freed, true)
      else (fillHoles ch depth rest).map fun (ch, more, stop) => (ch, freed + more, stop)

def compactLoop : Nat → List (Bucket α) → Nat → Option (List (Bucket α) × Nat)
  | 0, _, _ => none
  | fuel + 1, ch, depth => do
    let b ← ch[depth]?
    if !b.chained then return (ch, 0)
    let next ← ch[depth + 1]?
    if next.chained && next.presence == 0 then
      -- an empty bucket in the middle of the chain is unlinked
      (compactLoop fuel (ch.eraseIdx (depth + 1)) depth).map fun (ch, n) => (ch, n + 1)
    else if !next.chained && (next.presence == 0 || next.presence.cpop.toNat == 1) then
      (pruneLastBucket ch depth).map fun ch => (ch, 1)
    else
      let holes := if b.presence.cpop.toNat < entriesPerBucket - 1 then List.range (entriesPerBucket - 1) else []
      let (ch, freed, stop) ← fillHoles ch depth holes
      if stop then return (ch, freed)
      (compactLoop fuel ch (depth + 1)).map fun (ch, n) => (ch, freed + n)

def compactBucketChain (ch : List (Bucket α)) : Option (List (Bucket α) × Nat) :=
  compactLoop (ch.length + 1) ch 0

end Kv.Hashtable
