import Kv.Kvstore.Calls

/-!
What the key-count index answers. On a good kvstore, `cumulativeKeyCountRead`
adds up the keys of the hashtables up to an index, the descent of
`kvstoreFindHashtableIndexByKeyIndex` finds the hashtable that holds the
`target`-th key, and `kvstoreGetNextNonEmptyHashtableIndex` finds the next
hashtable with keys.
-/

set_option linter.dupNamespace false

namespace Kv.Kvstore

open Foundations Kv.Hashtable

variable {α κ : Type} {T : HashtableType α κ} {kvs : Kvstore α}

section Prefix

variable (kvs) in
theorem keysUpTo_eq_prefixSum (didx : Nat) :
    (keysUpTo kvs didx : Int) = prefixSum (treeValues (countedSize kvs)) (didx + 1) := by
  rw [keysUpTo, Nat.cast_sum]
  exact (prefixSum_shift (fun j => (countedSize kvs j : Int)) (didx + 1)).symm

variable (kvs) in
theorem keysUpTo_mono {d e : Nat} (le : d ≤ e) : keysUpTo kvs d ≤ keysUpTo kvs e := by
  have mono := prefixSum_mono (treeValues_nonneg (countedSize kvs)) (Nat.succ_le_succ le)
  rw [← keysUpTo_eq_prefixSum, ← keysUpTo_eq_prefixSum] at mono
  exact_mod_cast mono

theorem countedSize_eq_zero_of_keysUpTo_eq {i j m : Nat} (after : i < m) (upTo : m ≤ j)
    (level : keysUpTo kvs i = keysUpTo kvs j) : countedSize kvs m = 0 := by
  have levelSum : prefixSum (treeValues (countedSize kvs)) (i + 1) = prefixSum (treeValues (countedSize kvs)) (j + 1) := by
    rw [← keysUpTo_eq_prefixSum, ← keysUpTo_eq_prefixSum, level]
  have zero := eq_zero_of_prefixSum_eq (treeValues_nonneg (countedSize kvs)) (show i + 1 < m + 1 by omega)
    (show m + 1 ≤ j + 1 by omega) levelSum
  rw [treeValues, Nat.add_sub_cancel] at zero
  exact_mod_cast zero

theorem countedSize_pos_of_keysUpTo_lt {i : Nat} (before : keysUpTo kvs i < keysUpTo kvs (i + 1)) :
    0 < countedSize kvs (i + 1) := by
  rw [keysUpTo, keysUpTo, Finset.sum_range_succ _ (i + 1)] at before
  omega

end Prefix

section Answers

theorem Good.kvstoreSize_eq (good : Good T kvs) : kvstoreSize kvs = keysUpTo kvs (kvs.numHashtables - 1) := by
  have several := good.tables.several
  rw [kvstoreSize, if_pos several.ne', good.counters.keyCount, keysUpTo, Nat.sub_add_cancel (by omega), Nat.cast_sum]

theorem Good.cumulativeKeyCountRead (good : Good T kvs) {didx : Nat} (lt : didx < kvs.numHashtables) :
    cumulativeKeyCountRead kvs didx = some (keysUpTo kvs didx : Int) := by
  rw [Kv.Kvstore.cumulativeKeyCountRead, if_neg good.tables.several.ne',
    cumulativeKeyCountReadLoop_eq good.counters.tree lt 0, zero_add, keysUpTo_eq_prefixSum]

def HoldsKey (kvs : Kvstore α) (target didx : Nat) : Prop :=
  didx < kvs.numHashtables ∧ target ≤ keysUpTo kvs didx ∧ ∀ d < didx, keysUpTo kvs d < target

theorem Good.kvstoreFindHashtableIndexByKeyIndex (good : Good T kvs) {target : Nat} (positive : 0 < target)
    (le : (target : Int) ≤ kvstoreSize kvs) :
    ∃ didx : Nat, kvstoreFindHashtableIndexByKeyIndex kvs target = some (didx : Int) ∧ HoldsKey kvs target didx := by
  have several := good.tables.several
  have top : kvstoreSize kvs = prefixSum (treeValues (countedSize kvs)) (2 ^ kvs.numHashtablesBits) := by
    rw [good.kvstoreSize_eq, keysUpTo_eq_prefixSum, Nat.sub_add_cancel (by omega), good.tables.numHashtables]
  have agrees := good.counters.tree
  rw [good.tables.numHashtables] at agrees
  -- the descent ends at the last position whose prefix is below the target
  have window := findHashtableIndexLoop_finds agrees (by exact_mod_cast positive) (top ▸ le)
  refine ⟨_, ?_, by rw [good.tables.numHashtables]; exact window.inside, ?_, fun d before => ?_⟩
  · rw [Kv.Kvstore.kvstoreFindHashtableIndexByKeyIndex, if_neg several.ne', if_neg (by omega), if_pos le]
  · have := window.within
    rw [← keysUpTo_eq_prefixSum] at this
    exact_mod_cast this
  · have below := prefixSum_mono (treeValues_nonneg (countedSize kvs)) (show d + 1 ≤ _ from before)
    rw [← keysUpTo_eq_prefixSum] at below
    have := window.above
    exact_mod_cast lt_of_le_of_lt below this

def IsNextNonEmpty (kvs : Kvstore α) (didx : Nat) (answer : Int) : Prop :=
  (∃ next : Nat, answer = next ∧ didx < next ∧ next < kvs.numHashtables ∧ countedSize kvs next ≠ 0 ∧
      ∀ j, didx < j → j < next → countedSize kvs j = 0) ∨
    (answer = kvstoreIndexNotFound ∧ ∀ j, didx < j → j < kvs.numHashtables → countedSize kvs j = 0)

theorem Good.kvstoreGetNextNonEmptyHashtableIndex (good : Good T kvs) {didx : Nat} (lt : didx < kvs.numHashtables) :
    ∃ answer, kvstoreGetNextNonEmptyHashtableIndex kvs didx = some answer ∧ IsNextNonEmpty kvs didx answer := by
  have several := good.tables.several
  have total := good.kvstoreSize_eq
  simp only [Kv.Kvstore.kvstoreGetNextNonEmptyHashtableIndex, if_neg several.ne', good.cumulativeKeyCountRead lt,
    Option.bind_eq_bind, Option.bind_some]
  by_cases within : (keysUpTo kvs didx : Int) + 1 ≤ kvstoreSize kvs
  · -- the key after those up to `didx` is in the first non-empty hashtable after it
    rw [if_pos within]
    obtain ⟨next, find, inside, reaches, before⟩ :=
      good.kvstoreFindHashtableIndexByKeyIndex (show 0 < keysUpTo kvs didx + 1 by omega)
        (by exact_mod_cast within)
    have later : didx < next := by
      by_contra atMost
      have := keysUpTo_mono kvs (show next ≤ didx by omega)
      omega
    obtain ⟨prev, rfl⟩ : ∃ prev, next = prev + 1 := ⟨next - 1, by omega⟩
    -- the keys up to `prev` are those up to `didx`: the hashtables between hold none
    have last := before prev (by omega)
    have first := keysUpTo_mono kvs (show didx ≤ prev by omega)
    refine ⟨prev + 1, by
      rw [show ((keysUpTo kvs didx : Int) + 1).toNat = keysUpTo kvs didx + 1 by omega, find, Nat.cast_succ], .inl
      ⟨prev + 1, rfl, later, inside, (countedSize_pos_of_keysUpTo_lt (by omega)).ne', fun j after earlier => ?_⟩⟩
    exact countedSize_eq_zero_of_keysUpTo_eq after (show j ≤ prev by omega) (by omega)
  · -- every key is in a hashtable up to `didx`
    rw [if_neg within]
    refine ⟨_, rfl, .inr ⟨rfl, fun j after inside => ?_⟩⟩
    have last := keysUpTo_mono kvs (show didx ≤ kvs.numHashtables - 1 by omega)
    rw [total] at within
    exact countedSize_eq_zero_of_keysUpTo_eq after (show j ≤ kvs.numHashtables - 1 by omega) (by omega)

end Answers

end Kv.Kvstore
