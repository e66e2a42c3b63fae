import Mathlib.Algebra.BigOperators.Group.List.Lemmas
import Mathlib.Algebra.Order.Group.Multiset
import Mathlib.Tactic.Abel

/-!
Arrays of slots, each empty or holding a value, and the multiset of values
they hold; and sums over lists under a point update.
-/

namespace Foundations

variable {β γ M : Type}

def slotContent (n : Nat) (s : Nat → Option β) : Multiset β :=
  ((List.range n).filterMap s : List β)

theorem slotContent_zero (s : Nat → Option β) : slotContent 0 s = 0 := rfl

theorem slotContent_succ (n : Nat) (s : Nat → Option β) :
    slotContent (n + 1) s = slotContent n s + ((s n).toList : Multiset β) := by
  simp only [slotContent, List.range_succ, List.filterMap_append, ← Multiset.coe_add]
  congr 2

theorem slotContent_congr {n : Nat} {s s' : Nat → Option β} (h : ∀ q < n, s q = s' q) :
    slotContent n s = slotContent n s' := by
  simp only [slotContent]
  congr 1
  exact List.filterMap_congr fun q mem => h q (List.mem_range.mp mem)

theorem slotContent_update (s : Nat → Option β) {n p : Nat} (hp : p < n) (v : Option β) :
    slotContent n (Function.update s p v) + ((s p).toList : Multiset β) =
      slotContent n s + (v.toList : Multiset β) := by
  induction n with
  | zero => omega
  | succ n ih =>
    rw [slotContent_succ, slotContent_succ]
    rcases Nat.lt_or_ge p n with below | top
    · have other : Function.update s p v n = s n := Function.update_of_ne (by omega) _ _
      rw [other]
      calc slotContent n (Function.update s p v) + ((s n).toList : Multiset β) + ((s p).toList : Multiset β)
          = slotContent n (Function.update s p v) + ((s p).toList : Multiset β) + ((s n).toList : Multiset β) := by
            abel
        _ = slotContent n s + ((s n).toList : Multiset β) + (v.toList : Multiset β) := by
            rw [ih below]
            abel
    · have at_p : p = n := by omega
      subst at_p
      have same : slotContent p (Function.update s p v) = slotContent p s :=
        slotContent_congr fun q hq => Function.update_of_ne (by omega) _ _
      rw [same, Function.update_self]
      abel

theorem slotContent_fill (s : Nat → Option β) {n p : Nat} (hp : p < n) (empty : s p = none) (x : β) :
    slotContent n (Function.update s p (some x)) = x ::ₘ slotContent n s := by
  have h := slotContent_update s hp (some x)
  rw [empty, Option.toList_none, Option.toList_some, Multiset.coe_nil, add_zero,
    Multiset.coe_singleton] at h
  rw [h, ← Multiset.singleton_add, add_comm]

theorem slotContent_take (s : Nat → Option β) {n p : Nat} (hp : p < n) {x : β} (full : s p = some x) :
    slotContent n s = x ::ₘ slotContent n (Function.update s p none) := by
  have h := slotContent_update s hp none
  rw [full, Option.toList_none, Option.toList_some, Multiset.coe_nil, add_zero,
    Multiset.coe_singleton] at h
  rw [← h, ← Multiset.singleton_add, add_comm]

theorem slotContent_eq_zero_iff {n : Nat} {s : Nat → Option β} :
    slotContent n s = 0 ↔ ∀ q < n, s q = none := by
  simp only [slotContent, Multiset.coe_eq_zero, List.filterMap_eq_nil_iff, List.mem_range]

theorem mem_slotContent {n : Nat} {s : Nat → Option β} {x : β} :
    x ∈ slotContent n s ↔ ∃ q < n, s q = some x := by
  simp only [slotContent, Multiset.mem_coe, List.mem_filterMap, List.mem_range]

theorem slotContent_ite (n : Nat) (p : Nat → Bool) (f : Nat → β) :
    slotContent n (fun q => if p q then some (f q) else none) = (((List.range n).filter p).map f : List β) := by
  induction n with
  | zero => rfl
  | succ n ih =>
    rw [slotContent_succ, ih, List.range_succ, List.filter_append, List.map_append, ← Multiset.coe_add]
    by_cases h : p n <;> simp [h]

theorem sum_map_set [AddCommMonoid M] (f : γ → M) (l : List γ) {i : Nat} (hi : i < l.length) (x : γ) :
    ((l.set i x).map f).sum + f l[i] = (l.map f).sum + f x := by
  induction l generalizing i with
  | nil => simp at hi
  | cons y l ih =>
    cases i with
    | zero => simp [add_comm, add_left_comm]
    | succ i =>
      have hi' : i < l.length := by simpa using hi
      simp only [List.set_cons_succ, List.map_cons, List.sum_cons, List.getElem_cons_succ]
      rw [add_assoc, ih hi', add_assoc]

theorem mem_sum_map {f : γ → Multiset β} {l : List γ} {x : β} :
    x ∈ (l.map f).sum ↔ ∃ a ∈ l, x ∈ f a := by
  induction l with
  | nil => simp
  | cons a l ih => simp [ih]

theorem modify_eq_set_getElem (f : γ → γ) {l : List γ} {i : Nat} (hi : i < l.length) :
    l.modify i f = l.set i (f l[i]) := by
  apply List.ext_getElem (by simp)
  intro j h1 h2
  rw [List.getElem_modify, List.getElem_set]
  by_cases h : i = j
  · subst h
    simp
  · simp [h]

end Foundations
