import Mathlib.Algebra.BigOperators.Intervals
import Mathlib.Data.Nat.Prime.Basic
import Mathlib.Algebra.BigOperators.Ring.Finset
import Mathlib.Algebra.Order.BigOperators.Group.Finset
import Mathlib.Tactic.Abel
import Mathlib.Tactic.Ring

/-!
Binary indexed (Fenwick) trees. Over values `a j` at the positions `1, 2, …`,
node `i` of the tree holds the sum over the positions `i - lowbit i + 1 .. i`,
where `lowbit i` is the lowest set bit of `i`. A prefix sum is a walk down by
`lowbit`, an update a walk up by `lowbit` over exactly the nodes that cover
the position, and a search for the position where the prefix sums reach a
target a descent through halving powers of two.
-/

namespace Foundations

def lowbit (i : Nat) : Nat :=
  if i = 0 then 0 else if i % 2 = 1 then 1 else 2 * lowbit (i / 2)
termination_by i
decreasing_by omega

theorem lowbit_two_pow_mul_odd (k c : Nat) : lowbit (2 ^ k * (2 * c + 1)) = 2 ^ k := by
  induction k with
  | zero =>
    rw [lowbit, if_neg (by omega), if_pos (by omega)]
    rfl
  | succ k ih =>
    have even : 2 ^ (k + 1) * (2 * c + 1) = 2 * (2 ^ k * (2 * c + 1)) := by ring
    have positive : 0 < 2 ^ k * (2 * c + 1) := Nat.mul_pos (Nat.two_pow_pos k) (by omega)
    rw [lowbit, if_neg (by omega), if_neg (by omega), even, Nat.mul_div_cancel_left _ (by omega), ih, pow_succ,
      Nat.mul_comm]

theorem lowbit_spec {i : Nat} (pos : 0 < i) : ∃ k c, i = 2 ^ k * (2 * c + 1) ∧ lowbit i = 2 ^ k := by
  induction i using Nat.strong_induction_on with
  | _ i ih =>
    by_cases odd : i % 2 = 1
    · exact ⟨0, i / 2, by omega, by rw [lowbit, if_neg (by omega), if_pos odd]; rfl⟩
    · obtain ⟨k, c, half, -⟩ := ih (i / 2) (by omega) (by omega)
      have whole : i = 2 ^ (k + 1) * (2 * c + 1) := by
        have twice : i = 2 * (i / 2) := by omega
        rw [twice, half]
        ring
      exact ⟨k + 1, c, whole, by rw [whole, lowbit_two_pow_mul_odd]⟩

theorem lowbit_pos {i : Nat} (pos : 0 < i) : 0 < lowbit i := by
  obtain ⟨k, c, -, low⟩ := lowbit_spec pos
  rw [low]
  exact Nat.two_pow_pos k

theorem lowbit_dvd (i : Nat) : lowbit i ∣ i := by
  rcases Nat.eq_zero_or_pos i with rfl | pos
  · exact dvd_zero _
  · obtain ⟨k, c, whole, low⟩ := lowbit_spec pos
    rw [low, whole]
    exact Dvd.intro _ rfl

theorem lowbit_le (i : Nat) : lowbit i ≤ i := by
  rcases Nat.eq_zero_or_pos i with rfl | pos
  · simp [lowbit]
  · exact Nat.le_of_dvd pos (lowbit_dvd i)

theorem pow_dvd_lowbit {x m : Nat} (pos : 0 < x) (dvd : 2 ^ m ∣ x) : 2 ^ m ∣ lowbit x := by
  obtain ⟨k, c, whole, low⟩ := lowbit_spec pos
  rw [low]
  rw [whole] at dvd
  have coprime : Nat.Coprime (2 ^ m) (2 * c + 1) :=
    Nat.Coprime.pow_left m (Odd.coprime_two_left ⟨c, rfl⟩)
  exact coprime.dvd_of_dvd_mul_right dvd

theorem lowbit_add_two_pow {r k : Nat} (dvd : 2 ^ (k + 1) ∣ r) : lowbit (r + 2 ^ k) = 2 ^ k := by
  obtain ⟨c, rfl⟩ := dvd
  have split : 2 ^ (k + 1) * c + 2 ^ k = 2 ^ k * (2 * c + 1) := by ring
  rw [split, lowbit_two_pow_mul_odd]

theorem lowbit_add_le {i r : Nat} (pos : 0 < i) (rpos : 0 < r) (below : r < lowbit i) : lowbit (i + r) ≤ r := by
  obtain ⟨k, c, rfl, low⟩ := lowbit_spec pos
  obtain ⟨t, d, rfl, lowR⟩ := lowbit_spec rpos
  rw [low] at below
  have tk : t < k := by
    by_contra atLeast
    have : 2 ^ k ≤ 2 ^ t := Nat.pow_le_pow_right (by omega) (by omega)
    have : 2 ^ t ≤ 2 ^ t * (2 * d + 1) := Nat.le_mul_of_pos_right _ (by omega)
    omega
  obtain ⟨s, rfl⟩ : ∃ s, k = t + s + 1 := ⟨k - t - 1, by omega⟩
  have split : 2 ^ (t + s + 1) * (2 * c + 1) + 2 ^ t * (2 * d + 1) =
      2 ^ t * (2 * (2 ^ s * (2 * c + 1) + d) + 1) := by ring
  rw [split, lowbit_two_pow_mul_odd]
  exact Nat.le_mul_of_pos_right _ (by omega)

section Tree

variable (a : Nat → Int)

def rangeSum (lo hi : Nat) : Int :=
  ∑ j ∈ Finset.Ioc lo hi, a j

def prefixSum (i : Nat) : Int :=
  rangeSum a 0 i

def fenwickNode (i : Nat) : Int :=
  rangeSum a (i - lowbit i) i

def Covers (i p : Nat) : Prop :=
  i - lowbit i < p ∧ p ≤ i

instance (i p : Nat) : Decidable (Covers i p) :=
  inferInstanceAs (Decidable (_ ∧ _))

theorem rangeSum_add {lo mid hi : Nat} (low : lo ≤ mid) (high : mid ≤ hi) :
    rangeSum a lo mid + rangeSum a mid hi = rangeSum a lo hi :=
  Finset.sum_Ioc_consecutive a low high

theorem prefixSum_eq_node_add (i : Nat) :
    prefixSum a i = fenwickNode a i + prefixSum a (i - lowbit i) := by
  rw [prefixSum, prefixSum, fenwickNode, add_comm, rangeSum_add a (Nat.zero_le _) (Nat.sub_le _ _)]

theorem fenwickNode_descent {r k : Nat} (dvd : 2 ^ (k + 1) ∣ r) :
    fenwickNode a (r + 2 ^ k) = prefixSum a (r + 2 ^ k) - prefixSum a r := by
  rw [fenwickNode, lowbit_add_two_pow dvd, Nat.add_sub_cancel, prefixSum, prefixSum,
    ← rangeSum_add a (Nat.zero_le r) (Nat.le_add_right r _)]
  ring

theorem fenwickNode_top {n : Nat} (top : lowbit n = n) : fenwickNode a n = prefixSum a n := by
  rw [fenwickNode, top, Nat.sub_self, prefixSum]

theorem fenwickNode_congr {b : Nat → Int} (same : ∀ j, 0 < j → a j = b j) (i : Nat) :
    fenwickNode a i = fenwickNode b i := by
  unfold fenwickNode rangeSum
  exact Finset.sum_congr rfl fun j mem => same j (by have := (Finset.mem_Ioc.mp mem).1; omega)

theorem le_fenwickNode (nonneg : ∀ j, 0 ≤ a j) {i p : Nat} (covers : Covers i p) : a p ≤ fenwickNode a i :=
  Finset.single_le_sum (fun j _ => nonneg j) (Finset.mem_Ioc.mpr covers)

theorem fenwickNode_add (p : Nat) (delta : Int) (i : Nat) :
    fenwickNode (fun j => if j = p then a j + delta else a j) i =
      fenwickNode a i + if Covers i p then delta else 0 := by
  have split : ∀ j, (if j = p then a j + delta else a j) = a j + if j = p then delta else 0 := by
    intro j
    split <;> simp
  simp only [fenwickNode, rangeSum, split, Finset.sum_add_distrib, Finset.sum_ite_eq', Finset.mem_Ioc]
  rfl

theorem prefixSum_add (p : Nat) (delta : Int) (i : Nat) :
    prefixSum (fun j => if j = p then a j + delta else a j) i = prefixSum a i + if 0 < p ∧ p ≤ i then delta else 0 := by
  have split : ∀ j, (if j = p then a j + delta else a j) = a j + if j = p then delta else 0 := by
    intro j
    split <;> simp
  simp only [prefixSum, rangeSum, split, Finset.sum_add_distrib, Finset.sum_ite_eq', Finset.mem_Ioc]

@[simp]
theorem prefixSum_zero : prefixSum a 0 = 0 := by
  simp [prefixSum, rangeSum]

theorem prefixSum_succ (i : Nat) : prefixSum a (i + 1) = prefixSum a i + a (i + 1) :=
  Finset.sum_Ioc_succ_top (Nat.zero_le i) a

theorem prefixSum_shift (f : Nat → Int) (m : Nat) : prefixSum (fun i => f (i - 1)) m = ∑ j ∈ Finset.range m, f j := by
  induction m with
  | zero => simp
  | succ m ih => rw [prefixSum_succ, ih, Finset.sum_range_succ, Nat.add_sub_cancel]

section Nonneg

variable {a} (nonneg : ∀ j, 0 ≤ a j)
include nonneg

theorem prefixSum_mono {i j : Nat} (le : i ≤ j) : prefixSum a i ≤ prefixSum a j := by
  have rest : 0 ≤ rangeSum a i j := Finset.sum_nonneg fun k _ => nonneg k
  rw [prefixSum, prefixSum, ← rangeSum_add a (Nat.zero_le i) le]
  omega

theorem eq_zero_of_prefixSum_eq {i j m : Nat} (after : i < m) (upTo : m ≤ j) (level : prefixSum a i = prefixSum a j) :
    a m = 0 := by
  obtain ⟨k, rfl⟩ : ∃ k, m = k + 1 := ⟨m - 1, by omega⟩
  have low := prefixSum_mono nonneg (show i ≤ k by omega)
  have high := prefixSum_mono nonneg upTo
  rw [prefixSum_succ] at high
  have := nonneg (k + 1)
  omega

end Nonneg

end Tree

section PointUpdate

variable {ι β : Type} [DecidableEq ι] [AddCommGroup β]

theorem sum_eq_add_sub_of_eq_off {s : Finset ι} {f g : ι → β} {i : ι} (mem : i ∈ s) (same : ∀ j, j ≠ i → g j = f j) :
    ∑ j ∈ s, g j = ∑ j ∈ s, f j + (g i - f i) := by
  rw [← Finset.add_sum_erase s g mem, ← Finset.add_sum_erase s f mem,
    Finset.sum_congr rfl fun j erased => same j (Finset.ne_of_mem_erase erased)]
  abel

theorem card_filter_eq_add_sub_of_eq_off {s : Finset ι} {p q : ι → Prop} [DecidablePred p] [DecidablePred q] {i : ι}
    (mem : i ∈ s) (same : ∀ j, j ≠ i → (q j ↔ p j)) :
    ((s.filter q).card : Int) = (s.filter p).card + ((if q i then 1 else 0) - if p i then 1 else 0) := by
  rw [Finset.natCast_card_filter, Finset.natCast_card_filter]
  exact sum_eq_add_sub_of_eq_off mem fun j other => by simp only [same j other]

end PointUpdate

section Cover

theorem covers_self {p : Nat} (pos : 0 < p) : Covers p p :=
  ⟨by have := lowbit_pos pos; omega, le_refl p⟩

theorem Covers.next {i p : Nat} (covers : Covers i p) (pos : 0 < i) : Covers (i + lowbit i) p := by
  obtain ⟨k, c, whole, low⟩ := lowbit_spec pos
  -- `i + lowbit i` is a multiple of twice the lowest set bit of `i`
  have dvd : 2 ^ (k + 1) ∣ i + lowbit i := ⟨c + 1, by rw [low, whole]; ring⟩
  have bigger := Nat.le_of_dvd (lowbit_pos (by omega)) (pow_dvd_lowbit (by omega) dvd)
  rw [pow_succ] at bigger
  obtain ⟨below, atMost⟩ := covers
  constructor <;> omega

theorem Covers.not_between {i j p : Nat} (covers : Covers i p) (pos : 0 < i) (after : i < j)
    (before : j < i + lowbit i) : ¬Covers j p := by
  rintro ⟨below, -⟩
  have small := lowbit_add_le pos (show 0 < j - i by omega) (show j - i < lowbit i by omega)
  rw [Nat.add_sub_cancel' after.le] at small
  have := covers.2
  omega

theorem not_covers_of_lt {j p : Nat} (lt : j < p) : ¬Covers j p :=
  fun covers => absurd covers.2 (by omega)

end Cover

end Foundations
