import Kv.Multi.Touch

namespace Kv.Multi

open Foundations

variable {κ γ : Type} [DecidableEq κ]

/-- The watchers are filed under their own database and key, and each watched_keys dictionary holds each key
once, exactly the keys that have watchers. -/
structure NodesFiled (s : Server κ γ) : Prop where
  nodes : ∀ db key wk, wk ∈ s.watchedKeys db key → wk.db = db ∧ wk.key = key
  dict : ∀ db, (s.watchedOrder db).Nodup ∧ ∀ key, key ∈ s.watchedOrder db ↔ s.watchedKeys db key ≠ []

namespace NodesFiled

variable {s : Server κ γ}

/-- The dictionary after setting a key's watchers: the key is erased, kept or added as the list is empty or
not. -/
theorem setWatchers_dict {order : List κ} (nodup : order.Nodup) {watchers : κ → List (WatchedKey κ)}
    (listed : ∀ key, key ∈ order ↔ watchers key ≠ []) (key : κ) (l : List (WatchedKey κ)) :
    let order' := if l.isEmpty then order.erase key else if key ∈ order then order else order ++ [key]
    order'.Nodup ∧ ∀ key', key' ∈ order' ↔ Function.update watchers key l key' ≠ [] := by
  intro order'
  by_cases empty : l.isEmpty
  · have nil : l = [] := List.isEmpty_iff.mp empty
    refine ⟨by simpa [order', empty] using nodup.erase key, fun key' => ?_⟩
    by_cases same : key' = key
    · subst same
      simp [order', nil, nodup.not_mem_erase]
    · simp [order', empty, nodup.mem_erase_iff, same, listed]
  · have cons : l ≠ [] := fun nil => empty (List.isEmpty_iff.mpr nil)
    by_cases present : key ∈ order
    · refine ⟨by simpa [order', empty, present] using nodup, fun key' => ?_⟩
      by_cases same : key' = key
      · subst same
        simp [order', empty, present, cons]
      · simp [order', empty, present, same, listed]
    · have fresh : (order ++ [key]).Nodup :=
        List.nodup_append.mpr ⟨nodup, by simp, fun a mem b same => by
          rw [List.mem_singleton.mp same]
          exact fun eq => present (eq ▸ mem)⟩
      refine ⟨by simpa [order', empty, present] using fresh, fun key' => ?_⟩
      by_cases same : key' = key
      · subst same
        simp [order', empty, present, cons]
      · simp [order', empty, present, same, listed]

theorem setWatchers (filed : NodesFiled s) {db : Nat} {key : κ} {l : List (WatchedKey κ)}
    (hl : ∀ wk ∈ l, wk.db = db ∧ wk.key = key) : NodesFiled (s.setWatchers db key l) := by
  constructor
  · intro db' key' wk mem
    rw [Server.setWatchers_watchedKeys] at mem
    split at mem
    · rename_i h
      obtain ⟨rfl, rfl⟩ := h
      exact hl wk mem
    · exact filed.nodes db' key' wk mem
  · intro db'
    by_cases same : db' = db
    · subst same
      simpa [Server.setWatchers] using setWatchers_dict (filed.dict db').1 (filed.dict db').2 key l
    · simpa [Server.setWatchers, same] using filed.dict db'

omit [DecidableEq κ] in
theorem setClient (filed : NodesFiled s) (c : Nat) (client : Client κ γ) :
    NodesFiled (s.setClient c client) := ⟨filed.nodes, filed.dict⟩

theorem setKey (filed : NodesFiled s) (db : Nat) (key : κ) (st : KeyState) : NodesFiled (s.setKey db key st) :=
  ⟨filed.nodes, filed.dict⟩

omit [DecidableEq κ] in
theorem emptyDb (filed : NodesFiled s) (db : Nat) : NodesFiled (s.emptyDb db) := ⟨filed.nodes, filed.dict⟩

omit [DecidableEq κ] in
theorem swapDbs (filed : NodesFiled s) (db1 db2 : Nat) : NodesFiled (s.swapDbs db1 db2) := ⟨filed.nodes, filed.dict⟩

theorem unlink (filed : NodesFiled s) (c db : Nat) (key : κ) :
    NodesFiled (s.setWatchers db key (unlinkWatcher c (s.watchedKeys db key))) :=
  filed.setWatchers fun wk mem => filed.nodes db key wk (List.mem_of_mem_eraseP mem)

theorem unwatchAllKeys (filed : NodesFiled s) (c : Nat) : NodesFiled (Kv.Multi.unwatchAllKeys s c) := by
  simp only [Kv.Multi.unwatchAllKeys]
  cases (s.clients c).mstate with
  | none => exact filed
  | some m =>
    apply NodesFiled.setClient
    induction m.watchedKeys generalizing s with
    | nil => exact filed
    | cons dk rest ih => exact ih (filed.unlink c dk.1 dk.2)

theorem watchForKey (filed : NodesFiled s) (c : Nat) (key : κ) : NodesFiled (Kv.Multi.watchForKey s c key) := by
  simp only [Kv.Multi.watchForKey]
  cases (s.clients c).mstate with
  | none => exact filed
  | some m =>
    dsimp only
    split
    · exact filed
    · apply NodesFiled.setClient
      apply filed.setWatchers
      intro wk mem
      rcases List.mem_append.mp mem with old | new
      · exact filed.nodes _ _ wk old
      · simp only [List.mem_singleton] at new
        subst new
        exact ⟨rfl, rfl⟩

theorem remark (filed : NodesFiled s) (db : Nat) (key : κ) (f : WatchedKey κ → WatchedKey κ)
    (hf : ∀ wk, (f wk).db = wk.db ∧ (f wk).key = wk.key) :
    NodesFiled (s.setWatchers db key ((s.watchedKeys db key).map f)) := by
  apply filed.setWatchers
  intro wk mem
  obtain ⟨w, wmem, rfl⟩ := List.mem_map.mp mem
  rw [(hf w).1, (hf w).2]
  exact filed.nodes db key w wmem

theorem clearExpiredMark (filed : NodesFiled s) (db : Nat) (key : κ) (c : Nat) :
    NodesFiled (Kv.Multi.clearExpiredMark s db key c) :=
  filed.remark db key _ fun wk => by split <;> exact ⟨rfl, rfl⟩

theorem setExpiredMark (filed : NodesFiled s) (db : Nat) (key : κ) (c : Nat) :
    NodesFiled (Kv.Multi.setExpiredMark s db key c) :=
  filed.remark db key _ fun wk => by split <;> exact ⟨rfl, rfl⟩

theorem flagDirtyCas (filed : NodesFiled s) (c : Nat) : NodesFiled (Kv.Multi.flagDirtyCas s c) :=
  (filed.setClient _ _).unwatchAllKeys c

theorem touchLoop (filed : NodesFiled s) (db : Nat) (key : κ) (l : List (WatchedKey κ)) :
    NodesFiled (Kv.Multi.touchLoop db key l s) := by
  induction l generalizing s with
  | nil => exact filed
  | cons wk rest ih =>
    simp only [Kv.Multi.touchLoop]
    split
    · split
      · exact ih (filed.clearExpiredMark db key wk.client)
      · exact filed
    · exact ih (filed.flagDirtyCas wk.client)

theorem touchAllLoop (filed : NodesFiled s) (emptied : Nat) (r : Option Nat) (key : κ) (e : Bool)
    (l : List (WatchedKey κ)) : NodesFiled (Kv.Multi.touchAllLoop emptied r key e l s) := by
  induction l generalizing s with
  | nil => exact filed
  | cons wk rest ih =>
    simp only [Kv.Multi.touchAllLoop]
    split_ifs
    · exact ih (filed.clearExpiredMark _ _ _)
    · exact ih filed
    · exact ih (filed.setClient _ _)
    · exact ih (filed.setExpiredMark _ _ _)
    · exact ih (filed.setClient _ _)

theorem touchAllWatchedKeysInDb (filed : NodesFiled s) (emptied : Nat) (r : Option Nat) :
    NodesFiled (Kv.Multi.touchAllWatchedKeysInDb s emptied r) := by
  simp only [Kv.Multi.touchAllWatchedKeysInDb]
  -- the keys are fixed before the loop; the induction is on them with the state generalised
  generalize s.watchedOrder emptied = order
  induction order generalizing s with
  | nil => exact filed
  | cons key rest ih =>
    simp only [List.foldl_cons]
    apply ih
    split_ifs
    · exact filed.touchAllLoop _ _ _ _ _
    · exact filed

theorem watchKeys (filed : NodesFiled s) (c : Nat) (keys : List κ) :
    NodesFiled (keys.foldl (fun s key => Kv.Multi.watchForKey s c key) s) := by
  induction keys generalizing s with
  | nil => exact filed
  | cons key rest ih => exact ih (filed.watchForKey c key)

theorem discardTransaction (filed : NodesFiled s) (c : Nat) :
    NodesFiled (Kv.Multi.discardTransaction s c) :=
  (filed.setClient _ _).unwatchAllKeys c

theorem step (filed : NodesFiled s) (a : Action κ γ) : NodesFiled (Kv.Multi.step s a) := by
  cases a with
  | watch c keys =>
    simp only [Kv.Multi.step, watchCommand]
    split_ifs
    · exact filed
    · exact (filed.setClient _ _).watchKeys c keys
  | unwatch c => exact (filed.unwatchAllKeys c).setClient _ _
  | multi c => exact filed.setClient _ _
  | queue c cmd =>
    simp only [Kv.Multi.step, queueMultiCommand]
    split_ifs
    · exact filed
    · split
      · exact filed
      · exact filed.setClient _ _
  | queueError c =>
    simp only [Kv.Multi.step, flagTransaction]
    split_ifs
    · exact filed.setClient _ _
    · exact filed
  | exec c =>
    simp only [Kv.Multi.step, execCommand]
    split_ifs
    all_goals first
      | exact filed
      | exact filed.discardTransaction c
      | exact (filed.unwatchAllKeys c).discardTransaction c
      | exact (filed.setClient _ _).discardTransaction c
      | exact ((filed.setClient _ _).unwatchAllKeys c).discardTransaction c
  | write db key after => exact (filed.setKey db key after).touchLoop db key _
  | ttlPassed db key =>
    simp only [Kv.Multi.step]
    split_ifs
    · exact filed.setKey db key _
    · exact filed
  | flushdb db => exact (filed.touchAllWatchedKeysInDb db none).emptyDb db
  | swapdb db1 db2 =>
    exact ((filed.touchAllWatchedKeysInDb db1 (some db2)).touchAllWatchedKeysInDb db2 (some db1)).swapDbs db1 db2

end NodesFiled

omit [DecidableEq κ] in
theorem initServer_nodesFiled (keyspace : Nat → κ → KeyState) :
    NodesFiled (initServer keyspace : Server κ γ) where
  nodes db key wk mem := by simp [initServer] at mem
  dict db := by simp [initServer]

theorem runActions_nodesFiled {s : Server κ γ} (filed : NodesFiled s) (as : List (Action κ γ)) :
    NodesFiled (runActions s as) := by
  induction as generalizing s with
  | nil => exact filed
  | cons a as ih => exact ih (filed.step a)

/-- In every state the server reaches, the keys that touchAllWatchedKeysInDb walks in a database are the keys
that have watchers there, each once. -/
theorem watchedOrder_keys (keyspace : Nat → κ → KeyState) (as : List (Action κ γ)) (db : Nat) :
    ((runActions (initServer keyspace) as).watchedOrder db).Nodup ∧
      ∀ key, key ∈ (runActions (initServer keyspace) as).watchedOrder db ↔
        (runActions (initServer keyspace) as).watchedKeys db key ≠ [] :=
  (runActions_nodesFiled (initServer_nodesFiled keyspace) as).dict db

def expiredKeyspace : Nat → Nat → KeyState :=
  fun db key => if db = 0 ∧ key = 0 then .expired else .absent

def expiredWatchTrace : List (Action Nat Nat) :=
  [.watch 1 [0], .write 0 0 .live, .watch 2 [0], .multi 2, .queue 2 7]

def expiredWatchState : Server Nat Nat :=
  runActions (initServer expiredKeyspace) expiredWatchTrace

/-- The failing input: client 2 watches the live key with no expired mark,
    the key is in the database, and yet touching it flags neither watcher, so
    after a second write client 2's EXEC still runs its queued command. -/
theorem touchWatchedKey_break_skips_watchers :
    (∃ wk ∈ expiredWatchState.watchedKeys 0 0, wk.client = 2 ∧ wk.expired = false) ∧
    (expiredWatchState.keyspace 0 0).present = true ∧
    ((touchWatchedKey expiredWatchState 0 0).clients 1).dirtyCas = false ∧
    ((touchWatchedKey expiredWatchState 0 0).clients 2).dirtyCas = false ∧
    (execCommand (step expiredWatchState (.write 0 0 .live)) 2).1 = .ran [7] := by
  decide

end Kv.Multi
