import Kv.Multi.Transaction

namespace Kv.Multi

open Foundations

variable {κ γ : Type} [DecidableEq κ]

section Frame

theorem foldl_setWatchers_clients (s : Server κ γ) (keys : List (Nat × κ))
    (f : Server κ γ → Nat × κ → List (WatchedKey κ)) :
    (keys.foldl (fun s dk => s.setWatchers dk.1 dk.2 (f s dk)) s).clients = s.clients := by
  induction keys generalizing s with
  | nil => rfl
  | cons dk keys ih => simp [ih]

theorem foldl_setWatchers_keyspace (s : Server κ γ) (keys : List (Nat × κ))
    (f : Server κ γ → Nat × κ → List (WatchedKey κ)) :
    (keys.foldl (fun s dk => s.setWatchers dk.1 dk.2 (f s dk)) s).keyspace = s.keyspace := by
  induction keys generalizing s with
  | nil => rfl
  | cons dk keys ih => simp [ih]

@[simp] theorem unwatchAllKeys_keyspace (s : Server κ γ) (c : Nat) :
    (unwatchAllKeys s c).keyspace = s.keyspace := by
  simp only [unwatchAllKeys]
  cases (s.clients c).mstate with
  | none => rfl
  | some m => simp [foldl_setWatchers_keyspace]

theorem unwatchAllKeys_clients_ne (s : Server κ γ) {c d : Nat} (h : d ≠ c) :
    (unwatchAllKeys s c).clients d = s.clients d := by
  simp only [unwatchAllKeys]
  cases (s.clients c).mstate with
  | none => rfl
  | some m => simp [h, foldl_setWatchers_clients]

@[simp] theorem unwatchAllKeys_dirtyCas (s : Server κ γ) (c d : Nat) :
    ((unwatchAllKeys s c).clients d).dirtyCas = (s.clients d).dirtyCas := by
  by_cases h : d = c
  · subst h
    simp only [unwatchAllKeys]
    cases (s.clients d).mstate with
    | none => rfl
    | some m => simp
  · rw [unwatchAllKeys_clients_ne s h]

omit [DecidableEq κ] in
@[simp] theorem resetClientMultiState_dirtyCas (c : Client κ γ) :
    (resetClientMultiState c).dirtyCas = c.dirtyCas := by
  unfold resetClientMultiState
  split <;> rfl

@[simp] theorem flagDirtyCas_keyspace (s : Server κ γ) (c : Nat) :
    (flagDirtyCas s c).keyspace = s.keyspace := by
  simp [flagDirtyCas]

theorem flagDirtyCas_dirtyCas (s : Server κ γ) (c d : Nat) :
    ((flagDirtyCas s c).clients d).dirtyCas = (d = c || (s.clients d).dirtyCas) := by
  by_cases h : d = c
  · subst h
    simp [flagDirtyCas]
  · simp [flagDirtyCas, h]

@[simp] theorem clearExpiredMark_keyspace (s : Server κ γ) (db : Nat) (key : κ) (c : Nat) :
    (clearExpiredMark s db key c).keyspace = s.keyspace := rfl

@[simp] theorem clearExpiredMark_clients (s : Server κ γ) (db : Nat) (key : κ) (c : Nat) :
    (clearExpiredMark s db key c).clients = s.clients := rfl

end Frame

section Loop

variable (db : Nat) (key : κ)

theorem touchLoop_keyspace (l : List (WatchedKey κ)) (s : Server κ γ) :
    (touchLoop db key l s).keyspace = s.keyspace := by
  induction l generalizing s with
  | nil => rfl
  | cons wk rest ih =>
    simp only [touchLoop]
    split
    · split
      · rw [ih]
        rfl
      · rfl
    · rw [ih, flagDirtyCas_keyspace]

theorem touchLoop_dirtyCas_mono (l : List (WatchedKey κ)) (s : Server κ γ) (d : Nat)
    (dirty : (s.clients d).dirtyCas = true) : ((touchLoop db key l s).clients d).dirtyCas = true := by
  induction l generalizing s with
  | nil => exact dirty
  | cons wk rest ih =>
    simp only [touchLoop]
    split
    · split
      · exact ih _ (by simpa using dirty)
      · exact dirty
    · exact ih _ (by simp [flagDirtyCas_dirtyCas, dirty])

theorem touchLoop_flags_of_absent (l : List (WatchedKey κ)) (s : Server κ γ)
    (filed : ∀ wk ∈ l, wk.db = db ∧ wk.key = key)
    (absent : (s.keyspace db key).present = false) :
    ∀ wk ∈ l, wk.expired = false → ((touchLoop db key l s).clients wk.client).dirtyCas = true := by
  induction l generalizing s with
  | nil => simp
  | cons wk rest ih =>
    intro w mem clear
    have restFiled : ∀ wk ∈ rest, wk.db = db ∧ wk.key = key := fun x hx => filed x (by simp [hx])
    obtain ⟨hdb, hkey⟩ := filed wk (by simp)
    simp only [touchLoop]
    by_cases marked : wk.expired = true
    · have guard : db = wk.db ∧ key = wk.key ∧ (s.keyspace db key).present = false :=
        ⟨hdb.symm, hkey.symm, absent⟩
      rw [if_pos marked, if_pos guard]
      rcases List.mem_cons.mp mem with rfl | inRest
      · simp [marked] at clear
      · exact ih _ restFiled (by simpa using absent) w inRest clear
    · simp only [marked, Bool.false_eq_true, if_false]
      rcases List.mem_cons.mp mem with rfl | inRest
      · exact touchLoop_dirtyCas_mono db key rest _ _ (by simp [flagDirtyCas_dirtyCas])
      · exact ih _ restFiled (by simpa using absent) w inRest clear

theorem touchLoop_stops_at_marked (wk : WatchedKey κ) (rest : List (WatchedKey κ)) (s : Server κ γ)
    (marked : wk.expired = true) (present : (s.keyspace db key).present = true) :
    touchLoop db key (wk :: rest) s = s := by
  simp [touchLoop, marked, present]

end Loop

end Kv.Multi
