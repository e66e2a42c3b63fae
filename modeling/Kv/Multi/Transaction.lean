import Kv.Multi.Watch

namespace Kv.Multi

open Foundations

variable {κ γ : Type} [DecidableEq κ]

inductive Action (κ γ : Type) where
  | watch (c : Nat) (keys : List κ)
  | unwatch (c : Nat)
  | multi (c : Nat)
  | queue (c : Nat) (cmd : γ)
  | queueError (c : Nat)
  | exec (c : Nat)
  | write (db : Nat) (key : κ) (after : KeyState)
  | ttlPassed (db : Nat) (key : κ)
  | flushdb (db : Nat)
  | swapdb (db1 db2 : Nat)

namespace Server

def setKey (s : Server κ γ) (db : Nat) (key : κ) (st : KeyState) : Server κ γ :=
  { s with keyspace := Function.update s.keyspace db (Function.update (s.keyspace db) key st) }

def emptyDb (s : Server κ γ) (db : Nat) : Server κ γ :=
  { s with keyspace := Function.update s.keyspace db (fun _ => .absent) }

def swapDbs (s : Server κ γ) (db1 db2 : Nat) : Server κ γ :=
  { s with keyspace := fun db => if db = db1 then s.keyspace db2 else if db = db2 then s.keyspace db1
      else s.keyspace db }

end Server

def step (s : Server κ γ) : Action κ γ → Server κ γ
  | .watch c keys => watchCommand s c keys
  | .unwatch c => unwatchCommand s c
  | .multi c => multiCommand s c
  | .queue c cmd => queueMultiCommand s c cmd
  | .queueError c => flagTransaction s c
  | .exec c => (execCommand s c).2
  | .write db key after => touchWatchedKey (s.setKey db key after) db key
  | .ttlPassed db key =>
    if s.keyspace db key = .live then s.setKey db key .expired else s
  | .flushdb db => (touchAllWatchedKeysInDb s db none).emptyDb db
  | .swapdb db1 db2 =>
    let s := touchAllWatchedKeysInDb s db1 (some db2)
    (touchAllWatchedKeysInDb s db2 (some db1)).swapDbs db1 db2

def initServer (keyspace : Nat → κ → KeyState) : Server κ γ where
  keyspace := keyspace
  watchedKeys := fun _ _ => []
  watchedOrder := fun _ => []
  clients := fun _ => { db := 0, multi := false, dirtyCas := false, dirtyExec := false, mstate := none }

def runActions (s : Server κ γ) (as : List (Action κ γ)) : Server κ γ :=
  as.foldl step s

theorem runSteps_step (s : Server κ γ) (as : List (Action κ γ)) :
    runSteps (fun s a => some (step s a)) s as = some (runActions s as) := by
  induction as generalizing s with
  | nil => rfl
  | cons a as ih => simpa [runActions] using ih (step s a)

end Kv.Multi
