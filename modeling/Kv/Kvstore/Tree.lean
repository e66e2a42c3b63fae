import Kv.Kvstore.Store

/-!
The three walks over `hashtable_size_index`, against the Fenwick tree of
`Foundations.Fenwick`. While the array agrees with the nodes of the tree over
some values, the walk down from a node adds up the prefix that ends there,
the walk up adds `delta` to exactly the nodes that cover the position, and the
descent from the top finds where the prefix sums reach the target.
-/

namespace Kv.Kvstore

open Foundations

def TreeAgrees (a tree : Nat → Int) (n : Nat) : Prop :=
  ∀ i, 0 < i → i ≤ n → tree i = fenwickNode a i

variable {a tree : Nat → Int} {n : Nat}

section Read

theorem cumulativeKeyCountReadLoop_eq (agrees : TreeAgrees a tree n) {idx : Nat} (le : idx ≤ n) (sum : Int) :
    cumulativeKeyCountReadLoop tree idx sum = sum + prefixSum a idx := by
  induction idx using Nat.strong_induction_on generalizing sum with
  | _ idx ih =>
    rw [cumulativeKeyCountReadLoop]
    split
    · rename_i positive
      have lower := lowbit_pos positive
      rw [ih (idx - lowbit idx) (by omega) (by omega), agrees idx positive le, prefixSum_eq_node_add a idx]
      ring
    · obtain rfl : idx = 0 := by omega
      simp

end Read

section Update

theorem climb_iff {idx p i : Nat} (covers : Covers idx p) (positive : 0 < idx) (other : i ≠ idx) :
    (idx + lowbit idx ≤ i ∧ i ≤ n ∧ Covers i p) ↔ (idx ≤ i ∧ i ≤ n ∧ Covers i p) := by
  constructor
  · rintro ⟨above, le, coversI⟩
    exact ⟨by omega, le, coversI⟩
  · rintro ⟨below, le, coversI⟩
    refine ⟨?_, le, coversI⟩
    by_contra before
    exact covers.not_between positive (by omega) (by omega) coversI

theorem cumulativeKeyCountAddLoop_eq {delta : Int} {p : Nat} (tree : Nat → Int) {idx : Nat} (covers : Covers idx p)
    (enough : delta < 0 → ∀ i, idx ≤ i → i ≤ n → Covers i p → |delta| ≤ tree i) :
    cumulativeKeyCountAddLoop n delta tree idx =
      some fun i => if idx ≤ i ∧ i ≤ n ∧ Covers i p then tree i + delta else tree i := by
  -- the walk climbs, so the induction is on the distance to the end of the array
  induction h : n + 1 - idx using Nat.strong_induction_on generalizing tree idx with
  | _ distance ih =>
    subst h
    have positive : 0 < idx := by have := covers.2; have := covers.1; omega
    rw [cumulativeKeyCountAddLoop]
    split
    · rename_i inTree
      have holds : ¬(delta < 0 ∧ tree idx < |delta|) := fun ⟨negative, small⟩ =>
        absurd (enough negative idx le_rfl inTree.2 covers) (by omega)
      rw [if_neg holds]
      have climbed := lowbit_pos positive
      have enough' : delta < 0 → ∀ i, idx + lowbit idx ≤ i → i ≤ n → Covers i p →
          |delta| ≤ Function.update tree idx (tree idx + delta) i := by
        intro negative i above le coversI
        rw [Function.update_of_ne (by omega)]
        exact enough negative i (by omega) le coversI
      rw [ih _ (by omega) _ (covers.next positive) enough' rfl]
      congr 1
      funext i
      by_cases same : i = idx
      · subst same
        rw [if_neg (fun above => by have := above.1; omega), if_pos ⟨le_rfl, inTree.2, covers⟩,
          Function.update_self]
      · simp only [Function.update_of_ne same, climb_iff covers positive same]
    · rename_i outside
      congr 1
      funext i
      rw [if_neg (by omega)]

end Update

section Descent

structure Window (a : Nat → Int) (n : Nat) (goal : Int) (width result : Nat) : Prop where
  aligned : width ∣ result
  inside : result + width ≤ n
  above : prefixSum a result < goal
  within : goal ≤ prefixSum a (result + width)

theorem findHashtableIndexLoop_step (agrees : TreeAgrees a tree n) {goal target : Int} {k result : Nat}
    (window : Window a n goal (2 ^ (k + 1)) result) (target_eq : target = goal - prefixSum a result) :
    ∃ result', findHashtableIndexLoop tree (2 ^ k) target result =
      findHashtableIndexLoop tree (2 ^ k / 2) (goal - prefixSum a result') result' ∧
      Window a n goal (2 ^ k) result' := by
  have half : 2 ^ (k + 1) = 2 * 2 ^ k := by rw [pow_succ, mul_comm]
  have inside := window.inside
  -- the node at `result + 2^k` holds the keys between the two prefixes
  have node : tree (result + 2 ^ k) = prefixSum a (result + 2 ^ k) - prefixSum a result := by
    rw [agrees _ (by have := Nat.two_pow_pos k; omega) (by omega), fenwickNode_descent a window.aligned]
  have aligned : 2 ^ k ∣ result := (Nat.pow_dvd_pow 2 (Nat.le_succ k)).trans window.aligned
  rw [findHashtableIndexLoop, if_neg (by have := Nat.two_pow_pos k; omega)]
  simp only [node, target_eq]
  split
  · rename_i beyond
    refine ⟨result + 2 ^ k, by congr 1; ring,
      ⟨Nat.dvd_add aligned dvd_rfl, by omega, by omega, ?_⟩⟩
    rw [show result + 2 ^ k + 2 ^ k = result + 2 ^ (k + 1) by rw [half]; omega]
    exact window.within
  · rename_i within
    exact ⟨result, rfl, ⟨aligned, by omega, window.above, by omega⟩⟩

theorem findHashtableIndexLoop_window (agrees : TreeAgrees a tree n) {goal : Int} (k : Nat) :
    ∀ result, Window a n goal (2 ^ k) result →
      Window a n goal 1 (findHashtableIndexLoop tree (2 ^ k / 2) (goal - prefixSum a result) result) := by
  induction k with
  | zero =>
    intro result window
    rw [show 2 ^ 0 / 2 = 0 from rfl, findHashtableIndexLoop, if_pos rfl]
    exact window
  | succ k ih =>
    intro result window
    obtain ⟨result', run, window'⟩ := findHashtableIndexLoop_step agrees window rfl
    rw [show 2 ^ (k + 1) / 2 = 2 ^ k by rw [pow_succ, Nat.mul_div_cancel _ (by omega)], run]
    exact ih result' window'

theorem findHashtableIndexLoop_finds {bits : Nat} (agrees : TreeAgrees a tree (2 ^ bits)) {goal : Int}
    (positive : 0 < goal) (le : goal ≤ prefixSum a (2 ^ bits)) :
    Window a (2 ^ bits) goal 1 (findHashtableIndexLoop tree (2 ^ bits) goal 0) := by
  -- the top node holds the total, which the target does not exceed
  have top : tree (2 ^ bits) = prefixSum a (2 ^ bits) := by
    have node := fenwickNode_descent a (dvd_zero (2 ^ (bits + 1)))
    rw [Nat.zero_add, prefixSum_zero, sub_zero] at node
    rw [agrees _ (Nat.two_pow_pos bits) le_rfl, node]
  have start : Window a (2 ^ bits) goal (2 ^ bits) 0 :=
    ⟨dvd_zero _, by omega, by rw [prefixSum_zero]; exact positive, by rwa [Nat.zero_add]⟩
  have run := findHashtableIndexLoop_window agrees bits 0 start
  rw [prefixSum_zero, sub_zero] at run
  rw [findHashtableIndexLoop, if_neg (by have := Nat.two_pow_pos bits; omega)]
  simp only [Nat.zero_add, top, gt_iff_lt, not_lt.mpr le, if_false]
  exact run

end Descent

end Kv.Kvstore
