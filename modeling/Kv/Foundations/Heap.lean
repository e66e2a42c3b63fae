import Mathlib.Data.List.AList

/-!
Objects of one kind by address, as an allocator hands them out and takes them
back, and finite maps as alists, with the lookup of a key after the map is
changed at one key.
-/

namespace Foundations

abbrev Addr := Nat

abbrev Heap (α : Type) := AList (fun _ : Addr => α)

structure Allocator where
  alloc : List Addr → Addr
  fresh : ∀ live, alloc live ∉ live

namespace Allocator

theorem le_foldr_max {live : List Addr} {a : Addr} (mem : a ∈ live) : a ≤ live.foldr max 0 := by
  induction live with
  | nil => cases mem
  | cons b rest ih =>
    rcases List.mem_cons.mp mem with rfl | later
    · exact le_max_left _ _
    · exact Nat.le_trans (ih later) (le_max_right _ _)

def next : Allocator where
  alloc live := live.foldr max 0 + 1
  fresh _ inUse := Nat.lt_irrefl _ (Nat.lt_of_lt_of_le (Nat.lt_succ_self _) (le_foldr_max inUse))

theorem lookup_alloc {α : Type} (allocator : Allocator) (heap : Heap α) :
    heap.lookup (allocator.alloc heap.keys) = none :=
  AList.lookup_eq_none.mpr fun mem => allocator.fresh heap.keys (AList.mem_keys.mp mem)

end Allocator

section Lookup

variable {κ β : Type} [DecidableEq κ]

@[simp] theorem lookup_insert_ite (s : AList fun _ : κ => β) (k k' : κ) (v : β) :
    (s.insert k v).lookup k' = if k' = k then some v else s.lookup k' := by
  split
  · next same => rw [same, AList.lookup_insert]
  · next other => exact AList.lookup_insert_ne other

@[simp] theorem lookup_erase_ite (s : AList fun _ : κ => β) (k k' : κ) :
    (s.erase k).lookup k' = if k' = k then none else s.lookup k' := by
  split
  · next same => rw [same, AList.lookup_erase]
  · next other => exact AList.lookup_erase_ne other

theorem lookup_insert_fun (s : AList fun _ : κ => β) (k : κ) (v : β) :
    (fun k' => (s.insert k v).lookup k') = Function.update (fun k' => s.lookup k') k (some v) := by
  funext k'
  rw [lookup_insert_ite, Function.update_apply]

theorem lookup_erase_fun (s : AList fun _ : κ => β) (k : κ) :
    (fun k' => (s.erase k).lookup k') = Function.update (fun k' => s.lookup k') k none := by
  funext k'
  rw [lookup_erase_ite, Function.update_apply]

theorem exists_entry_fst_iff (s : AList fun _ : κ => β) (k : κ) :
    (∃ entry ∈ s.entries, entry.1 = k) ↔ (s.lookup k).isSome := by
  rw [AList.lookup_isSome, AList.mem_keys, AList.keys, List.mem_keys]
  constructor
  · rintro ⟨⟨k', v⟩, mem, rfl⟩
    exact ⟨v, mem⟩
  · rintro ⟨v, mem⟩
    exact ⟨⟨k, v⟩, mem, rfl⟩

theorem exists_entry_snd_iff (s : AList fun _ : κ => β) (v : β) :
    (∃ entry ∈ s.entries, entry.2 = v) ↔ ∃ k, s.lookup k = some v := by
  constructor
  · rintro ⟨⟨k, v'⟩, mem, rfl⟩
    exact ⟨k, AList.mem_lookup_iff.mpr mem⟩
  · rintro ⟨k, found⟩
    exact ⟨⟨k, v⟩, AList.mem_lookup_iff.mp found, rfl⟩

end Lookup

end Foundations
