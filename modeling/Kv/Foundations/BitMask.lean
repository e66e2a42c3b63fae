import Mathlib.Data.BitVec

namespace Foundations

variable {w : Nat}

theorem getLsbD_or_shiftLeft_one (v : BitVec w) {p : Nat} (hp : p < w) (q : Nat) :
    (v ||| 1#w <<< p).getLsbD q = (decide (q = p) || v.getLsbD q) := by
  simp only [BitVec.getLsbD_or, BitVec.getLsbD_shiftLeft, BitVec.getLsbD_one]
  by_cases h : q = p
  · subst h
    simp [hp, show 0 < w by omega]
  · by_cases h2 : q < w
    · simp [h, h2]
      omega
    · simp [h, h2]

theorem getLsbD_and_not_shiftLeft_one (v : BitVec w) {p : Nat} (hp : p < w) (q : Nat) :
    (v &&& ~~~(1#w <<< p)).getLsbD q = (!decide (q = p) && v.getLsbD q) := by
  simp only [BitVec.getLsbD_and, BitVec.getLsbD_not, BitVec.getLsbD_shiftLeft, BitVec.getLsbD_one]
  by_cases h : q = p
  · subst h
    simp [hp, show 0 < w by omega]
  · by_cases h2 : q < w
    · simp [h, h2]
      omega
    · simp [h, h2, BitVec.getLsbD_of_ge v q (by omega)]

theorem eq_zero_iff_getLsbD (v : BitVec w) : v = 0 ↔ ∀ i < w, v.getLsbD i = false := by
  constructor
  · rintro rfl i _
    simp
  · intro h
    apply BitVec.eq_of_getLsbD_eq
    intro i hi
    simpa using h i hi

end Foundations
