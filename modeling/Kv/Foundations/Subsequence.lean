import Mathlib.Data.List.Basic

/-!
Longest common subsequences. `IsLcsLength u v n` says that `n` is the length of
a longest common subsequence of `u` and `v`: some common subsequence has that
length and none is longer. The dynamic programme over prefixes rests on three
facts, proved here once for lists over any type: the empty list has only the
empty subsequence; two lists that end in the same element have a longest common
subsequence one longer than the lists without it; and two lists that end in
different elements have, as longest common subsequence, the longer of those
obtained by dropping the last element of one or of the other. The facts are
first proved for lists that start alike or differently, where `List.Sublist`
has its constructors, and carried to the ends by reversal.
-/

namespace Foundations

variable {α : Type}

def CommonSubseq (s u v : List α) : Prop := s.Sublist u ∧ s.Sublist v

structure IsLcsLength (u v : List α) (n : Nat) : Prop where
  attained : ∃ s, CommonSubseq s u v ∧ s.length = n
  bound : ∀ s, CommonSubseq s u v → s.length ≤ n

namespace CommonSubseq

variable {s u v : List α}

theorem reverse (common : CommonSubseq s u v) : CommonSubseq s.reverse u.reverse v.reverse :=
  ⟨List.reverse_sublist.mpr common.1, List.reverse_sublist.mpr common.2⟩

theorem length_le_left (common : CommonSubseq s u v) : s.length ≤ u.length := common.1.length_le

theorem of_cons_cons {x z : α} {t : List α} (common : CommonSubseq (z :: t) (x :: u) (x :: v)) :
    CommonSubseq t u v :=
  ⟨common.1.of_cons_cons, common.2.of_cons_cons⟩

end CommonSubseq

namespace IsLcsLength

variable {u v : List α} {n : Nat}

theorem unique {m : Nat} (first : IsLcsLength u v n) (second : IsLcsLength u v m) : n = m := by
  obtain ⟨s, common, rfl⟩ := first.attained
  obtain ⟨t, common', rfl⟩ := second.attained
  exact Nat.le_antisymm (second.bound s common) (first.bound t common')

theorem le_length_left (lcs : IsLcsLength u v n) : n ≤ u.length := by
  obtain ⟨s, common, rfl⟩ := lcs.attained
  exact common.length_le_left

theorem nil_left (v : List α) : IsLcsLength [] v 0 where
  attained := ⟨[], ⟨List.nil_sublist _, List.nil_sublist _⟩, rfl⟩
  bound := fun _ common => by rw [List.sublist_nil.mp common.1]; exact Nat.le_refl 0

theorem nil_right (u : List α) : IsLcsLength u [] 0 where
  attained := ⟨[], ⟨List.nil_sublist _, List.nil_sublist _⟩, rfl⟩
  bound := fun _ common => by rw [List.sublist_nil.mp common.2]; exact Nat.le_refl 0

theorem reverse (lcs : IsLcsLength u v n) : IsLcsLength u.reverse v.reverse n where
  attained := by
    obtain ⟨s, common, rfl⟩ := lcs.attained
    exact ⟨s.reverse, common.reverse, List.length_reverse⟩
  bound := fun s common => by
    have back := common.reverse
    rw [List.reverse_reverse, List.reverse_reverse] at back
    rw [← List.length_reverse]
    exact lcs.bound _ back

theorem cons_cons_same (lcs : IsLcsLength u v n) (x : α) : IsLcsLength (x :: u) (x :: v) (n + 1) where
  attained := by
    obtain ⟨s, common, rfl⟩ := lcs.attained
    exact ⟨x :: s, ⟨common.1.cons_cons x, common.2.cons_cons x⟩, rfl⟩
  bound := by
    rintro (_ | ⟨z, t⟩) common
    · exact Nat.zero_le _
    · exact Nat.succ_le_succ (lcs.bound t common.of_cons_cons)

theorem cons_cons_ne {x y : α} {m k : Nat} (differ : x ≠ y) (dropLeft : IsLcsLength u (y :: v) m)
    (dropRight : IsLcsLength (x :: u) v k) : IsLcsLength (x :: u) (y :: v) (max m k) where
  attained := by
    rcases Nat.le_total k m with keep | keep
    · obtain ⟨s, common, rfl⟩ := dropLeft.attained
      exact ⟨s, ⟨common.1.cons x, common.2⟩, (Nat.max_eq_left keep).symm⟩
    · obtain ⟨s, common, rfl⟩ := dropRight.attained
      exact ⟨s, ⟨common.1, common.2.cons y⟩, (Nat.max_eq_right keep).symm⟩
  bound := by
    intro s common
    rcases List.sublist_cons_iff.mp common.1 with inLeft | ⟨t, rfl, _⟩
    · exact Nat.le_trans (dropLeft.bound s ⟨inLeft, common.2⟩) (Nat.le_max_left m k)
    · rcases List.sublist_cons_iff.mp common.2 with inRight | ⟨t', same, _⟩
      · exact Nat.le_trans (dropRight.bound _ ⟨common.1, inRight⟩) (Nat.le_max_right m k)
      · exact absurd (List.cons.inj same).1 differ

theorem concat_same (lcs : IsLcsLength u v n) (x : α) : IsLcsLength (u ++ [x]) (v ++ [x]) (n + 1) := by
  have front := lcs.reverse.cons_cons_same x
  rw [← List.reverse_concat', ← List.reverse_concat'] at front
  simpa using front.reverse

theorem concat_ne {x y : α} {m k : Nat} (differ : x ≠ y) (dropLeft : IsLcsLength u (v ++ [y]) m)
    (dropRight : IsLcsLength (u ++ [x]) v k) : IsLcsLength (u ++ [x]) (v ++ [y]) (max m k) := by
  have left := dropLeft.reverse
  have right := dropRight.reverse
  rw [List.reverse_append, List.reverse_singleton, List.singleton_append] at left right
  simpa using (cons_cons_ne differ left right).reverse

end IsLcsLength

end Foundations
