import Kv.Foundations.Run

namespace Kv.Multi

inductive KeyState where
  | absent
  | live
  | expired
  deriving DecidableEq, Repr

def KeyState.present : KeyState → Bool
  | .absent => false
  | _ => true

def KeyState.isExpired : KeyState → Bool
  | .expired => true
  | _ => false

variable {κ γ : Type}

structure WatchedKey (κ : Type) where
  key : κ
  db : Nat
  client : Nat
  expired : Bool
  deriving DecidableEq, Repr

structure MultiState (κ γ : Type) where
  commands : List γ
  watchedKeys : List (Nat × κ)

structure Client (κ γ : Type) where
  db : Nat
  multi : Bool
  dirtyCas : Bool
  dirtyExec : Bool
  mstate : Option (MultiState κ γ)

/-- The keyspaces, each database's watched_keys dictionary as the watchers of each key and the keys it holds
in the order its iterator returns them, and the clients. -/
structure Server (κ γ : Type) where
  keyspace : Nat → κ → KeyState
  watchedKeys : Nat → κ → List (WatchedKey κ)
  watchedOrder : Nat → List κ
  clients : Nat → Client κ γ

namespace Server

def setClient (s : Server κ γ) (c : Nat) (client : Client κ γ) : Server κ γ :=
  { s with clients := Function.update s.clients c client }

@[simp] theorem setClient_clients_self (s : Server κ γ) (c : Nat) (client : Client κ γ) :
    (s.setClient c client).clients c = client := by simp [setClient]

@[simp] theorem setClient_clients_ne (s : Server κ γ) {c d : Nat} (client : Client κ γ) (h : d ≠ c) :
    (s.setClient c client).clients d = s.clients d := by simp [setClient, h]

@[simp] theorem setClient_keyspace (s : Server κ γ) (c : Nat) (client : Client κ γ) :
    (s.setClient c client).keyspace = s.keyspace := rfl

@[simp] theorem setClient_watchedKeys (s : Server κ γ) (c : Nat) (client : Client κ γ) :
    (s.setClient c client).watchedKeys = s.watchedKeys := rfl

variable [DecidableEq κ]

/-- The watchers of a key set to `l`: the key leaves the dictionary when `l` is empty (dictDelete) and is
added to it when it was not there (dictAdd). -/
def setWatchers (s : Server κ γ) (db : Nat) (key : κ) (l : List (WatchedKey κ)) : Server κ γ :=
  { s with
    watchedKeys := Function.update s.watchedKeys db (Function.update (s.watchedKeys db) key l)
    watchedOrder := Function.update s.watchedOrder db
      (if l.isEmpty then (s.watchedOrder db).erase key
      else if key ∈ s.watchedOrder db then s.watchedOrder db else s.watchedOrder db ++ [key]) }

@[simp] theorem setWatchers_clients (s : Server κ γ) (db : Nat) (key : κ) (l : List (WatchedKey κ)) :
    (s.setWatchers db key l).clients = s.clients := rfl

@[simp] theorem setWatchers_keyspace (s : Server κ γ) (db : Nat) (key : κ) (l : List (WatchedKey κ)) :
    (s.setWatchers db key l).keyspace = s.keyspace := rfl

theorem setWatchers_watchedKeys (s : Server κ γ) (db : Nat) (key : κ) (l : List (WatchedKey κ))
    (db' : Nat) (key' : κ) :
    (s.setWatchers db key l).watchedKeys db' key' =
      if db' = db ∧ key' = key then l else s.watchedKeys db' key' := by
  by_cases h : db' = db
  · subst h
    by_cases h' : key' = key
    · subst h'
      simp [setWatchers]
    · simp [setWatchers, h']
  · simp [setWatchers, h]

end Server

variable [DecidableEq κ]

def initClientMultiState (c : Client κ γ) : Client κ γ :=
  match c.mstate with
  | some _ => c
  | none => { c with mstate := some { commands := [], watchedKeys := [] } }

def resetClientMultiState (c : Client κ γ) : Client κ γ :=
  match c.mstate with
  | none => c
  | some m => { c with mstate := some { m with commands := [] } }

def Client.watchList (c : Client κ γ) : List (Nat × κ) :=
  match c.mstate with
  | none => []
  | some m => m.watchedKeys

def unlinkWatcher (c : Nat) (l : List (WatchedKey κ)) : List (WatchedKey κ) :=
  l.eraseP (fun wk => wk.client = c)

/-- `unwatchAllKeys`: unlink the client's node from every per-key list it is
    in, then empty the client's own list. -/
def unwatchAllKeys (s : Server κ γ) (c : Nat) : Server κ γ :=
  let client := s.clients c
  match client.mstate with
  | none => s
  | some m =>
    let s' := m.watchedKeys.foldl
      (fun s (dk : Nat × κ) => s.setWatchers dk.1 dk.2 (unlinkWatcher c (s.watchedKeys dk.1 dk.2))) s
    s'.setClient c { client with mstate := some { m with watchedKeys := [] } }

/-- `watchForKey`: a second WATCH of the same key in the same database is a
    no-op; otherwise a node is appended to the key's list and to the client's
    list, recording whether the key is logically expired now. -/
def watchForKey (s : Server κ γ) (c : Nat) (key : κ) : Server κ γ :=
  let client := s.clients c
  match client.mstate with
  | none => s
  | some m =>
    if (client.db, key) ∈ m.watchedKeys then s
    else
      let wk : WatchedKey κ :=
        { key := key, db := client.db, client := c, expired := (s.keyspace client.db key).isExpired }
      let s' := s.setWatchers client.db key (s.watchedKeys client.db key ++ [wk])
      s'.setClient c { client with mstate := some { m with watchedKeys := m.watchedKeys ++ [(client.db, key)] } }

def isWatchedKeyExpired (s : Server κ γ) (c : Nat) : Bool :=
  (s.clients c).watchList.any fun dk =>
    match (s.watchedKeys dk.1 dk.2).find? (fun wk => wk.client = c) with
    | none => false
    | some wk => !wk.expired && (s.keyspace dk.1 dk.2).isExpired

def flagDirtyCas (s : Server κ γ) (c : Nat) : Server κ γ :=
  let s' := s.setClient c (resetClientMultiState { s.clients c with dirtyCas := true })
  unwatchAllKeys s' c

def clearExpiredMark (s : Server κ γ) (db : Nat) (key : κ) (c : Nat) : Server κ γ :=
  s.setWatchers db key ((s.watchedKeys db key).map fun wk =>
    if wk.client = c then { wk with expired := false } else wk)

def touchLoop (db : Nat) (key : κ) : List (WatchedKey κ) → Server κ γ → Server κ γ
  | [], s => s
  | wk :: rest, s =>
    if wk.expired then
      if db = wk.db ∧ key = wk.key ∧ (s.keyspace db key).present = false then
        touchLoop db key rest (clearExpiredMark s db key wk.client)
      else s
    else touchLoop db key rest (flagDirtyCas s wk.client)

/-- `touchWatchedKey(db, key)`. -/
def touchWatchedKey (s : Server κ γ) (db : Nat) (key : κ) : Server κ γ :=
  touchLoop db key (s.watchedKeys db key) s

def setExpiredMark (s : Server κ γ) (db : Nat) (key : κ) (c : Nat) : Server κ γ :=
  s.setWatchers db key ((s.watchedKeys db key).map fun wk =>
    if wk.client = c then { wk with expired := true } else wk)

def flagDirtyCasKeepWatching (s : Server κ γ) (c : Nat) : Server κ γ :=
  s.setClient c (resetClientMultiState { s.clients c with dirtyCas := true })

def touchAllLoop (emptied : Nat) (replacedWith : Option Nat) (key : κ) (existsInEmptied : Bool) :
    List (WatchedKey κ) → Server κ γ → Server κ γ
  | [], s => s
  | wk :: rest, s =>
    let replacedPresent : Bool := match replacedWith with
      | none => false
      | some r => (s.keyspace r key).present
    let replacedExpired : Bool := match replacedWith with
      | none => false
      | some r => (s.keyspace r key).isExpired
    if wk.expired then
      if replacedWith.isNone ∨ replacedPresent = false then
        touchAllLoop emptied replacedWith key existsInEmptied rest (clearExpiredMark s emptied key wk.client)
      else if replacedExpired then
        touchAllLoop emptied replacedWith key existsInEmptied rest s
      else
        touchAllLoop emptied replacedWith key existsInEmptied rest (flagDirtyCasKeepWatching s wk.client)
    else if existsInEmptied = false ∧ replacedExpired then
      touchAllLoop emptied replacedWith key existsInEmptied rest (setExpiredMark s emptied key wk.client)
    else
      touchAllLoop emptied replacedWith key existsInEmptied rest (flagDirtyCasKeepWatching s wk.client)

/-- `touchAllWatchedKeysInDb(emptied, replaced_with)`: the safe iterator walks the keys of the watched_keys
dictionary of `emptied`, which the loop does not add to or delete from. -/
def touchAllWatchedKeysInDb (s : Server κ γ) (emptied : Nat) (replacedWith : Option Nat) : Server κ γ :=
  (s.watchedOrder emptied).foldl (fun s key =>
    let existsInEmptied := (s.keyspace emptied key).present
    let replacedPresent : Bool := match replacedWith with
      | none => false
      | some r => (s.keyspace r key).present
    if existsInEmptied ∨ replacedPresent then
      touchAllLoop emptied replacedWith key existsInEmptied (s.watchedKeys emptied key) s
    else s) s

/-- `discardTransaction`. -/
def discardTransaction (s : Server κ γ) (c : Nat) : Server κ γ :=
  let client := resetClientMultiState (s.clients c)
  let s' := s.setClient c { client with multi := false, dirtyCas := false, dirtyExec := false }
  unwatchAllKeys s' c

/-- `multiCommand`. -/
def multiCommand (s : Server κ γ) (c : Nat) : Server κ γ :=
  s.setClient c { initClientMultiState (s.clients c) with multi := true }

/-- `watchCommand` with the keys of its arguments. -/
def watchCommand (s : Server κ γ) (c : Nat) (keys : List κ) : Server κ γ :=
  if (s.clients c).dirtyCas then s
  else
    let s' := s.setClient c (initClientMultiState (s.clients c))
    keys.foldl (fun s key => watchForKey s c key) s'

/-- `unwatchCommand`. -/
def unwatchCommand (s : Server κ γ) (c : Nat) : Server κ γ :=
  let s' := unwatchAllKeys s c
  s'.setClient c { s'.clients c with dirtyCas := false }

/-- `queueMultiCommand`: nothing is queued once the transaction is doomed. -/
def queueMultiCommand (s : Server κ γ) (c : Nat) (cmd : γ) : Server κ γ :=
  let client := s.clients c
  if client.dirtyCas ∨ client.dirtyExec then s
  else
    let client := initClientMultiState client
    match client.mstate with
    | none => s
    | some m => s.setClient c { client with mstate := some { m with commands := m.commands ++ [cmd] } }

/-- `flagTransaction`: an error while queueing dooms the transaction. -/
def flagTransaction (s : Server κ γ) (c : Nat) : Server κ γ :=
  let client := s.clients c
  if client.multi then s.setClient c (resetClientMultiState { client with dirtyExec := true }) else s

inductive ExecReply (γ : Type) where
  | execWithoutMulti
  | execAbort
  | nullArray
  | ran (commands : List γ)
  deriving DecidableEq, Repr

/-- `execCommand`, up to running the queued commands: the reply says whether
    they run and which they are. -/
def execCommand (s : Server κ γ) (c : Nat) : ExecReply γ × Server κ γ :=
  if !(s.clients c).multi then (.execWithoutMulti, s)
  else
    let s := if isWatchedKeyExpired s c then s.setClient c { s.clients c with dirtyCas := true } else s
    let client := s.clients c
    if client.dirtyCas ∨ client.dirtyExec then
      (if client.dirtyExec then .execAbort else .nullArray, discardTransaction s c)
    else
      let commands := match client.mstate with
        | none => []
        | some m => m.commands
      (.ran commands, discardTransaction (unwatchAllKeys s c) c)

end Kv.Multi
