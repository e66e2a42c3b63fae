import Mathlib.Data.Nat.Bitwise

/-!
Spreading the bits of a word apart and packing them back, one stage at a time,
as the bit-interleaving tricks do. A spreading stage ors a `w`-bit word with a
copy shifted left by `s` and keeps the bits of a mask; on a word whose bits sit
in the lower half of every block of `4 * s` positions, it moves the upper
quarter of each block up by `s`. A packing stage does the converse with a right
shift. Each lemma says which bit of the stage's input a bit of its output is, so
a chain of stages reduces to arithmetic on positions, which a finite check
settles.
-/

namespace Foundations

section Masks

theorem testBit_of_low_bits {m w : Nat} (small : m < 2 ^ w) {P : Nat → Prop} [DecidablePred P]
    (low : ∀ j < w, m.testBit j = decide (P j)) (j : Nat) : m.testBit j = decide (j < w ∧ P j) := by
  by_cases inside : j < w
  · rw [low j inside]
    simp [inside]
  · have beyond : m < 2 ^ j := lt_of_lt_of_le small (Nat.pow_le_pow_right (by decide) (by omega))
    rw [Nat.testBit_eq_false_of_lt beyond]
    simp [inside]

end Masks

section Stages

variable {v B s w : Nat}

theorem testBit_spreadStage (i : Nat) (pos : 0 < s)
    (within : ∀ j, v.testBit j = true → j / s / 2 % 2 = 0)
    (mask : ∀ j, B.testBit j = decide (j < w ∧ j / s % 2 = 0)) :
    ((v ||| v <<< s % 2 ^ w) &&& B).testBit i =
      (decide (i < w ∧ i / s % 2 = 0) && v.testBit (i - s * (i / s / 2 % 2))) := by
  rw [Nat.testBit_and, Nat.testBit_or, Nat.testBit_mod_two_pow, Nat.testBit_shiftLeft, mask]
  by_cases selected : i < w ∧ i / s % 2 = 0
  · simp only [selected, decide_true, Bool.true_and, and_self]
    have down : (i - s) / s = i / s - 1 := by simpa using Nat.sub_mul_div i s 1
    have reach : s ≤ i ↔ 1 ≤ i / s := (Nat.one_le_div_iff pos).symm
    rcases Nat.mod_two_eq_zero_or_one (i / s / 2) with lower | upper
    · -- the bit stays; the one `s` below lies in an upper half, which is empty
      rw [lower, Nat.mul_zero, Nat.sub_zero]
      cases below : v.testBit (i - s)
      · simp
      · by_cases far : s ≤ i
        · have empty := within _ below
          rw [down] at empty
          omega
        · simp [far]
    · -- the bit comes from `s` below, and the bit here was empty
      rw [upper, Nat.mul_one]
      have far : s ≤ i := reach.mpr (by generalize i / s = q at upper; omega)
      have empty : v.testBit i = false := by
        cases here : v.testBit i
        · rfl
        · have := within i here
          omega
      simp [empty, far]
  · simp [selected]

theorem testBit_packStage (i : Nat) (pos : 0 < s)
    (within : ∀ j, v.testBit j = true → j / s % 2 = 0)
    (mask : ∀ j, B.testBit j = decide (j < w ∧ j / s / 2 % 2 = 0)) :
    ((v ||| v >>> s) &&& B).testBit i =
      (decide (i < w ∧ i / s / 2 % 2 = 0) && v.testBit (i + s * (i / s % 2))) := by
  rw [Nat.testBit_and, Nat.testBit_or, Nat.testBit_shiftRight, mask]
  by_cases selected : i < w ∧ i / s / 2 % 2 = 0
  · simp only [selected, decide_true, Bool.true_and, and_self]
    have up : (s + i) / s = i / s + 1 := by rw [Nat.add_comm, Nat.add_div_right i pos]
    rcases Nat.mod_two_eq_zero_or_one (i / s) with even | odd
    · -- the bit stays; the one `s` above lies in an odd block, which is empty
      rw [even, Nat.mul_zero, Nat.add_zero]
      cases above : v.testBit (s + i)
      · simp
      · have empty := within _ above
        rw [up] at empty
        omega
    · -- the bit comes from `s` above, and the bit here was empty
      rw [odd, Nat.mul_one, Nat.add_comm s i]
      have empty : v.testBit i = false := by
        cases here : v.testBit i
        · rfl
        · have := within i here
          omega
      simp [empty]
  · simp [selected]

end Stages

def Layout (v : Nat) (P : Nat → Bool) (g : Nat → Nat) (f : Nat → Bool) : Prop :=
  ∀ i, v.testBit i = (P i && f (g i))

namespace Layout

variable {v B s w : Nat} {P : Nat → Bool} {g : Nat → Nat} {f : Nat → Bool}

theorem of_lt {x w : Nat} (small : x < 2 ^ w) : Layout x (fun i => decide (i < w)) id x.testBit := by
  intro i
  by_cases inside : i < w
  · simp [inside]
  · have beyond : x < 2 ^ i := lt_of_lt_of_le small (Nat.pow_le_pow_right (by decide) (by omega))
    simp [inside, Nat.testBit_eq_false_of_lt beyond]

theorem congr {P' : Nat → Bool} {g' : Nat → Nat} (layout : Layout v P g f) (same : ∀ i, P i = P' i)
    (moved : ∀ i, P i = true → g i = g' i) : Layout v P' g' f := by
  intro i
  rw [layout i, ← same i]
  cases selected : P i
  · rfl
  · rw [moved i selected]

theorem congr_below {P' : Nat → Bool} {g' : Nat → Nat} (layout : Layout v P g f) (w : Nat)
    (same : ∀ i, i < w → P i = P' i ∧ (P i = true → g i = g' i))
    (beyond : ∀ i, w ≤ i → P i = false ∧ P' i = false) : Layout v P' g' f := by
  refine layout.congr (fun i => ?_) (fun i selected => ?_)
  · by_cases small : i < w
    · exact (same i small).1
    · rw [(beyond i (by omega)).1, (beyond i (by omega)).2]
  · by_cases small : i < w
    · exact (same i small).2 selected
    · rw [(beyond i (by omega)).1] at selected
      cases selected

theorem spreadStage (layout : Layout v P g f) (pos : 0 < s) (within : ∀ j, P j = true → j / s / 2 % 2 = 0)
    (mask : ∀ j, B.testBit j = decide (j < w ∧ j / s % 2 = 0)) :
    Layout ((v ||| v <<< s % 2 ^ w) &&& B)
      (fun i => decide (i < w ∧ i / s % 2 = 0) && P (i - s * (i / s / 2 % 2)))
      (fun i => g (i - s * (i / s / 2 % 2))) f := by
  have placed : ∀ j, v.testBit j = true → j / s / 2 % 2 = 0 := by
    intro j set
    rw [layout j, Bool.and_eq_true] at set
    exact within j set.1
  intro i
  rw [testBit_spreadStage i pos placed mask, layout, Bool.and_assoc]

theorem packStage (layout : Layout v P g f) (pos : 0 < s) (within : ∀ j, P j = true → j / s % 2 = 0)
    (mask : ∀ j, B.testBit j = decide (j < w ∧ j / s / 2 % 2 = 0)) :
    Layout ((v ||| v >>> s) &&& B)
      (fun i => decide (i < w ∧ i / s / 2 % 2 = 0) && P (i + s * (i / s % 2)))
      (fun i => g (i + s * (i / s % 2))) f := by
  have placed : ∀ j, v.testBit j = true → j / s % 2 = 0 := by
    intro j set
    rw [layout j, Bool.and_eq_true] at set
    exact within j set.1
  intro i
  rw [testBit_packStage i pos placed mask, layout, Bool.and_assoc]

end Layout

end Foundations
