import Mathlib.Data.Nat.Bitwise
import Mathlib.Algebra.BigOperators.Group.Finset.Basic
import Mathlib.Tactic.Ring

/-!
A number read as a row of lanes: its digits in base `2 ^ w`, the lowest first. A
machine word read as bytes, a vector register read as byte or word lanes and the
fields of a SWAR computation are all such rows. The lemmas say when an operation
on the whole number acts lane by lane: addition and subtraction always do, being
linear; a mask does when every lane fits its width; a right shift followed by a
mask does when the mask keeps none of the bits the shift moved across a lane
boundary. Lanes are read back with `lane`, and read at half the width with
`lane_mul_add` and `lane_double`.
-/

namespace Foundations

def ofLanes (w : Nat) : List Nat → Nat
  | [] => 0
  | x :: xs => x + 2 ^ w * ofLanes w xs

def lane (w v j : Nat) : Nat := v / 2 ^ (w * j) % 2 ^ w

@[simp] theorem ofLanes_nil (w : Nat) : ofLanes w [] = 0 := rfl

@[simp] theorem ofLanes_cons (w x : Nat) (xs : List Nat) : ofLanes w (x :: xs) = x + 2 ^ w * ofLanes w xs := rfl

theorem lane_def (w v j : Nat) : lane w v j = v / 2 ^ (w * j) % 2 ^ w := rfl

section Digits

variable {w s : Nat}

theorem add_two_pow_mul_lt {a c k n : Nat} (ha : a < 2 ^ k) (hc : c < 2 ^ n) : a + 2 ^ k * c < 2 ^ (k + n) := by
  have room : 2 ^ k * (c + 1) ≤ 2 ^ k * 2 ^ n := Nat.mul_le_mul_left _ hc
  rw [Nat.pow_add]
  rw [Nat.mul_succ] at room
  omega

theorem two_pow_split (le : s ≤ w) : 2 ^ w = 2 ^ s * 2 ^ (w - s) := by
  rw [← Nat.pow_add, Nat.add_sub_cancel' le]

theorem shiftRight_lane_add (le : s ≤ w) (x X : Nat) :
    (x + 2 ^ w * X) >>> s = (x >>> s + 2 ^ (w - s) * (X % 2 ^ s)) + 2 ^ w * (X >>> s) := by
  have down : (x + 2 ^ w * X) / 2 ^ s = x / 2 ^ s + 2 ^ (w - s) * X := by
    rw [two_pow_split le, Nat.mul_assoc, Nat.add_mul_div_left _ _ (Nat.two_pow_pos s)]
  have carried : 2 ^ (w - s) * X = 2 ^ (w - s) * (X % 2 ^ s) + 2 ^ w * (X / 2 ^ s) := by
    conv_lhs => rw [← Nat.mod_add_div X (2 ^ s)]
    rw [Nat.mul_add, two_pow_split le]
    ring
  simp only [Nat.shiftRight_eq_div_pow]
  rw [down, carried, Nat.add_assoc]

theorem and_lane_add {a m : Nat} (ha : a < 2 ^ w) (hm : m < 2 ^ w) (A M : Nat) :
    (a + 2 ^ w * A) &&& (m + 2 ^ w * M) = (a &&& m) + 2 ^ w * (A &&& M) := by
  apply Nat.eq_of_testBit_eq
  intro i
  rw [Nat.add_comm a, Nat.add_comm m, Nat.add_comm (a &&& m), Nat.testBit_and,
    Nat.testBit_two_pow_mul_add _ ha, Nat.testBit_two_pow_mul_add _ hm,
    Nat.testBit_two_pow_mul_add _ (Nat.and_lt_two_pow a hm)]
  split <;> rw [Nat.testBit_and]

theorem and_eq_mod_and {k m : Nat} (hm : m < 2 ^ k) (x : Nat) : x &&& m = x % 2 ^ k &&& m := by
  rw [← Nat.mod_eq_of_lt (Nat.and_lt_two_pow x hm), Nat.and_mod_two_pow, Nat.mod_eq_of_lt hm]

theorem add_two_pow_mul_and {k m : Nat} (hm : m < 2 ^ k) (a c : Nat) : (a + 2 ^ k * c) &&& m = a &&& m := by
  rw [and_eq_mod_and hm, and_eq_mod_and hm a, Nat.add_mul_mod_self_left]

theorem or_lane_add {a m : Nat} (ha : a < 2 ^ w) (hm : m < 2 ^ w) (A M : Nat) :
    (a + 2 ^ w * A) ||| (m + 2 ^ w * M) = (a ||| m) + 2 ^ w * (A ||| M) := by
  apply Nat.eq_of_testBit_eq
  intro i
  rw [Nat.add_comm a, Nat.add_comm m, Nat.add_comm (a ||| m), Nat.testBit_or,
    Nat.testBit_two_pow_mul_add _ ha, Nat.testBit_two_pow_mul_add _ hm,
    Nat.testBit_two_pow_mul_add _ (Nat.or_lt_two_pow ha hm)]
  split <;> rw [Nat.testBit_or]

end Digits

section Rows

variable {w : Nat}

theorem ofLanes_lt {xs : List Nat} (fit : ∀ x ∈ xs, x < 2 ^ w) : ofLanes w xs < 2 ^ (w * xs.length) := by
  induction xs with
  | nil => simp
  | cons x xs ih =>
    have rest := ih fun y mem => fit y (List.mem_cons_of_mem x mem)
    rw [ofLanes_cons, List.length_cons, Nat.mul_succ, Nat.add_comm (w * xs.length)]
    exact add_two_pow_mul_lt (fit x List.mem_cons_self) rest

theorem ofLanes_replicate_lt {e : Nat} (fit : e < 2 ^ w) (s : Nat) : ofLanes w (List.replicate s e) < 2 ^ (w * s) := by
  have bound : ofLanes w (List.replicate s e) < 2 ^ (w * (List.replicate s e).length) := ofLanes_lt fun x mem => by rw [List.eq_of_mem_replicate mem]; exact fit
  rwa [List.length_replicate] at bound

theorem ofLanes_eq_zero {xs : List Nat} (zero : ∀ x ∈ xs, x = 0) : ofLanes w xs = 0 := by
  induction xs with
  | nil => rfl
  | cons x xs ih =>
    rw [ofLanes_cons, zero x List.mem_cons_self, ih fun y mem => zero y (List.mem_cons_of_mem x mem), Nat.mul_zero]

theorem eq_zero_of_ofLanes_eq_zero {xs : List Nat} (zero : ofLanes w xs = 0) : ∀ x ∈ xs, x = 0 := by
  induction xs with
  | nil => intro x mem; cases mem
  | cons y ys ih =>
    rw [ofLanes_cons, Nat.add_eq_zero_iff, Nat.mul_eq_zero] at zero
    obtain ⟨first, power | rest⟩ := zero
    · exact absurd power (Nat.two_pow_pos w).ne'
    · intro x mem
      rcases List.mem_cons.mp mem with same | later
      · exact same ▸ first
      · exact ih rest x later

theorem ofLanes_cons_mod {s : Nat} (le : s ≤ w) (x : Nat) (xs : List Nat) :
    ofLanes w (x :: xs) % 2 ^ s = x % 2 ^ s := by
  rw [ofLanes_cons, two_pow_split le, Nat.mul_assoc, Nat.add_mul_mod_self_left]

theorem lane_ofLanes {xs : List Nat} (fit : ∀ x ∈ xs, x < 2 ^ w) (j : Nat) :
    lane w (ofLanes w xs) j = xs.getD j 0 := by
  induction xs generalizing j with
  | nil => simp [lane_def]
  | cons x xs ih =>
    have head := fit x List.mem_cons_self
    have rest : (x + 2 ^ w * ofLanes w xs) / 2 ^ w = ofLanes w xs := by
      rw [Nat.add_mul_div_left _ _ (Nat.two_pow_pos w), Nat.div_eq_of_lt head, Nat.zero_add]
    cases j with
    | zero => simp [lane_def, Nat.add_mul_mod_self_left, Nat.mod_eq_of_lt head]
    | succ j =>
      -- the lanes above the first are the lanes of the rest
      rw [lane_def, ofLanes_cons, Nat.mul_succ, Nat.add_comm (w * j), Nat.pow_add, ← Nat.div_div_eq_div_mul, rest,
        ← lane_def, ih fun y mem => fit y (List.mem_cons_of_mem x mem)]
      rfl

theorem ofLanes_map_add {α : Type} (l : List α) (f g : α → Nat) :
    ofLanes w (l.map f) + ofLanes w (l.map g) = ofLanes w (l.map fun a => f a + g a) := by
  induction l with
  | nil => rfl
  | cons a l ih =>
    simp only [List.map_cons, ofLanes_cons]
    rw [← ih, Nat.mul_add]
    omega

theorem ofLanes_map_add_sub {α : Type} {l : List α} {f g : α → Nat} (le : ∀ a ∈ l, g a ≤ f a) :
    ofLanes w (l.map g) + ofLanes w (l.map fun a => f a - g a) = ofLanes w (l.map f) := by
  rw [ofLanes_map_add]
  congr 1
  exact List.map_congr_left fun a mem => by have := le a mem; omega

theorem ofLanes_map_le {α : Type} {l : List α} {f g : α → Nat} (le : ∀ a ∈ l, g a ≤ f a) :
    ofLanes w (l.map g) ≤ ofLanes w (l.map f) := by
  rw [← ofLanes_map_add_sub le]
  exact Nat.le_add_right _ _

theorem ofLanes_map_sum {α : Type} (l : List α) (f : Nat → α → Nat) (n : Nat) :
    ∑ k ∈ Finset.range n, ofLanes w (l.map (f k)) = ofLanes w (l.map fun a => ∑ k ∈ Finset.range n, f k a) := by
  induction n with
  | zero =>
    simp only [Finset.range_zero, Finset.sum_empty]
    induction l with
    | nil => rfl
    | cons a l ih => rw [List.map_cons, ofLanes_cons, ← ih, Nat.mul_zero, Nat.add_zero]
  | succ n ih => simp only [Finset.sum_range_succ, ih, ofLanes_map_add]

theorem ofLanes_shiftRight_and {s m : Nat} (le : s ≤ w) (mask : m < 2 ^ (w - s)) {xs : List Nat}
    (fit : ∀ x ∈ xs, x < 2 ^ w) :
    ofLanes w xs >>> s &&& ofLanes w (List.replicate xs.length m) = ofLanes w (xs.map fun x => x >>> s &&& m) := by
  have wide : m < 2 ^ w := lt_of_lt_of_le mask (Nat.pow_le_pow_right (by decide) (Nat.sub_le w s))
  induction xs with
  | nil => simp
  | cons x xs ih =>
    have shifted : x >>> s < 2 ^ (w - s) := by
      rw [Nat.shiftRight_eq_div_pow, Nat.div_lt_iff_lt_mul (Nat.two_pow_pos s), Nat.mul_comm, ← two_pow_split le]
      exact fit x List.mem_cons_self
    have low : x >>> s + 2 ^ (w - s) * (ofLanes w xs % 2 ^ s) < 2 ^ w := by
      have within := add_two_pow_mul_lt shifted (Nat.mod_lt (ofLanes w xs) (Nat.two_pow_pos s))
      rwa [Nat.sub_add_cancel le] at within
    rw [ofLanes_cons, List.length_cons, List.replicate_succ, ofLanes_cons, List.map_cons, ofLanes_cons,
      shiftRight_lane_add le, and_lane_add low wide, add_two_pow_mul_and mask,
      ih fun y mem => fit y (List.mem_cons_of_mem x mem)]

theorem ofLanes_and_replicate {m : Nat} (mask : m < 2 ^ w) {xs : List Nat} (fit : ∀ x ∈ xs, x < 2 ^ w) :
    ofLanes w xs &&& ofLanes w (List.replicate xs.length m) = ofLanes w (xs.map (· &&& m)) := by
  simpa using ofLanes_shiftRight_and (Nat.zero_le w) (by simpa using mask) fit

theorem ofLanes_mod_le {s r : Nat} (le : s ≤ w) {xs : List Nat} (carry : ∀ x ∈ xs, x % 2 ^ s ≤ r) :
    ofLanes w xs % 2 ^ s ≤ r := by
  cases xs with
  | nil => simp
  | cons x xs =>
    rw [ofLanes_cons_mod le]
    exact carry x List.mem_cons_self

theorem ofLanes_add_shiftRight_and {s m r : Nat} (le : s ≤ w) (mask : m < 2 ^ (w - s)) {xs : List Nat}
    (carry : ∀ x ∈ xs, x % 2 ^ s ≤ r) (fit : ∀ x ∈ xs, x + x >>> s + 2 ^ (w - s) * r < 2 ^ w) :
    (ofLanes w xs + ofLanes w xs >>> s) &&& ofLanes w (List.replicate xs.length m) =
      ofLanes w (xs.map fun x => (x + x >>> s) &&& m) := by
  have wide : m < 2 ^ w := lt_of_lt_of_le mask (Nat.pow_le_pow_right (by decide) (Nat.sub_le w s))
  induction xs with
  | nil => simp
  | cons x xs ih =>
    have received : ofLanes w xs % 2 ^ s ≤ r := ofLanes_mod_le le fun y mem => carry y (List.mem_cons_of_mem x mem)
    have low : x + x >>> s + 2 ^ (w - s) * (ofLanes w xs % 2 ^ s) < 2 ^ w :=
      lt_of_le_of_lt (Nat.add_le_add_left (Nat.mul_le_mul_left _ received) _) (fit x List.mem_cons_self)
    have regroup : x + 2 ^ w * ofLanes w xs + (x >>> s + 2 ^ (w - s) * (ofLanes w xs % 2 ^ s) +
        2 ^ w * (ofLanes w xs >>> s)) = (x + x >>> s + 2 ^ (w - s) * (ofLanes w xs % 2 ^ s)) +
        2 ^ w * (ofLanes w xs + ofLanes w xs >>> s) := by
      rw [Nat.mul_add]
      omega
    rw [ofLanes_cons, List.length_cons, List.replicate_succ, ofLanes_cons, List.map_cons, ofLanes_cons,
      shiftRight_lane_add le, regroup, and_lane_add low wide, add_two_pow_mul_and mask,
      ih (fun y mem => carry y (List.mem_cons_of_mem x mem)) fun y mem => fit y (List.mem_cons_of_mem x mem)]

end Rows

section Reading

variable {w : Nat}

theorem lane_lt (w v j : Nat) : lane w v j < 2 ^ w := Nat.mod_lt _ (Nat.two_pow_pos w)

theorem lane_and (a b j : Nat) : lane w (a &&& b) j = lane w a j &&& lane w b j := by
  simp only [lane_def, ← Nat.shiftRight_eq_div_pow]
  rw [Nat.shiftRight_and_distrib, Nat.and_mod_two_pow]

theorem lane_or (a b j : Nat) : lane w (a ||| b) j = lane w a j ||| lane w b j := by
  simp only [lane_def, ← Nat.shiftRight_eq_div_pow]
  rw [Nat.shiftRight_or_distrib, Nat.or_mod_two_pow]

theorem lane_xor (a b j : Nat) : lane w (a ^^^ b) j = lane w a j ^^^ lane w b j := by
  simp only [lane_def, ← Nat.shiftRight_eq_div_pow]
  rw [Nat.shiftRight_xor_distrib, Nat.xor_mod_two_pow]

theorem testBit_lane (v j i : Nat) : (lane w v j).testBit i = (decide (i < w) && v.testBit (i + w * j)) := by
  rw [lane_def, Nat.testBit_mod_two_pow, Nat.testBit_div_two_pow]

theorem testBit_ofLanes (pos : 0 < w) {xs : List Nat} (fit : ∀ x ∈ xs, x < 2 ^ w) (k : Nat) :
    (ofLanes w xs).testBit k = (xs.getD (k / w) 0).testBit (k % w) := by
  rw [← lane_ofLanes fit, testBit_lane, Nat.mod_add_div k w, decide_eq_true (Nat.mod_lt k pos), Bool.true_and]

theorem testBit_ofLanes_replicate (pos : 0 < w) {e : Nat} (fit : e < 2 ^ w) (s k : Nat) :
    (ofLanes w (List.replicate s e)).testBit k = (decide (k / w < s) && e.testBit (k % w)) := by
  have fits : ∀ x ∈ List.replicate s e, x < 2 ^ w := fun x mem => by rw [List.eq_of_mem_replicate mem]; exact fit
  rw [testBit_ofLanes pos fits, List.getD_eq_getElem?_getD, List.getElem?_replicate]
  by_cases inside : k / w < s
  · simp [inside]
  · simp [inside]

theorem lane_complement {n x j : Nat} (small : x < 2 ^ n) (inside : w * (j + 1) ≤ n) :
    lane w (2 ^ n - 1 - x) j = 2 ^ w - 1 - lane w x j := by
  have whole : 2 ^ n - 1 - x = 2 ^ n - (x + 1) := by omega
  have part : 2 ^ w - 1 - lane w x j = 2 ^ w - (lane w x j + 1) := by omega
  apply Nat.eq_of_testBit_eq
  intro i
  rw [whole, part, testBit_lane, Nat.testBit_two_pow_sub_succ small, Nat.testBit_two_pow_sub_succ (lane_lt w x j),
    testBit_lane]
  by_cases low : i < w
  · have below : i + w * j < n := by rw [Nat.mul_succ] at inside; omega
    simp [low, below]
  · simp [low]

theorem lane_mul_add {k r : Nat} (q : Nat) (inside : r < k) (v : Nat) :
    lane w v (k * q + r) = lane w (lane (k * w) v q) r := by
  have split : 2 ^ (k * w) = 2 ^ (w * r) * 2 ^ (k * w - w * r) := by
    rw [← Nat.pow_add]
    congr 1
    have : w * r ≤ k * w := by rw [Nat.mul_comm]; exact Nat.mul_le_mul_right w inside.le
    omega
  have fits : 2 ^ w ∣ 2 ^ (k * w - w * r) := by
    apply Nat.pow_dvd_pow
    have : w * (r + 1) ≤ w * k := Nat.mul_le_mul_left w inside
    rw [Nat.mul_succ, Nat.mul_comm w k] at this
    omega
  simp only [lane_def]
  rw [split, Nat.mod_mul_right_div_self, Nat.mod_mod_of_dvd _ fits, Nat.div_div_eq_div_mul, ← Nat.pow_add]
  congr 3
  ring

theorem lane_double (v q : Nat) : lane (2 * w) v q = lane w v (2 * q) + 2 ^ w * lane w v (2 * q + 1) := by
  simp only [lane_def]
  rw [Nat.two_mul w, Nat.pow_add, Nat.mod_mul, Nat.div_div_eq_div_mul, ← Nat.pow_add]
  congr 4
  · rw [← Nat.two_mul, Nat.mul_comm 2 w, Nat.mul_assoc]
  · rw [Nat.mul_succ, ← Nat.two_mul, Nat.mul_comm 2 w, Nat.mul_assoc]

end Reading

section Pairs

/-! Two numbers interleaved in lanes of two bits, one number in the low bit of every lane and one in the high bit.
With the other bit of every lane set, adding one carries from lane to lane exactly as in the number alone, so the
interleaved number is incremented in place and the carry out of the top lane is lost; adding a row of threes
decrements it the same way. -/

def pairLanes (d s a : Nat) : Nat := ofLanes 2 ((List.range s).map fun i => d * (a.testBit i).toNat)

variable {d : Nat}

@[simp] theorem pairLanes_zero (d a : Nat) : pairLanes d 0 a = 0 := rfl

theorem pairLanes_succ (d s a : Nat) : pairLanes d (s + 1) a = d * (a % 2) + 2 ^ 2 * pairLanes d s (a / 2) := by
  have low : (a.testBit 0).toNat = a % 2 := by
    rw [Nat.testBit_zero]
    rcases Nat.mod_two_eq_zero_or_one a with even | odd
    · rw [even]; rfl
    · rw [odd]; rfl
  rw [pairLanes, List.range_succ_eq_map, List.map_cons, List.map_map, ofLanes_cons, low, pairLanes]
  congr 3
  apply List.map_congr_left
  intro i _
  simp only [Function.comp_apply, Nat.testBit_add_one]

theorem pairLanes_fit (weight : d < 2 ^ 2) (s a : Nat) :
    ∀ x ∈ (List.range s).map (fun i => d * (a.testBit i).toNat), x < 2 ^ 2 := by
  intro x mem
  obtain ⟨i, -, rfl⟩ := List.mem_map.mp mem
  cases (a.testBit i)
  · simp
  · simpa using weight

theorem pairLanes_lt (weight : d < 2 ^ 2) (s a : Nat) : pairLanes d s a < 2 ^ (2 * s) := by
  have bound := ofLanes_lt (pairLanes_fit weight s a)
  rw [List.length_map, List.length_range] at bound
  exact bound

theorem testBit_pairLanes (weight : d < 2 ^ 2) (s a k : Nat) :
    (pairLanes d s a).testBit k = (decide (k / 2 < s) && d.testBit (k % 2) && a.testBit (k / 2)) := by
  rw [pairLanes, testBit_ofLanes (by decide) (pairLanes_fit weight s a), List.getD_eq_getElem?_getD,
    List.getElem?_map]
  by_cases inside : k / 2 < s
  · rw [List.getElem?_range inside]
    cases bit : a.testBit (k / 2) <;> simp [inside, bit]
  · rw [List.getElem?_eq_none (by simpa using inside)]
    simp [inside]

theorem pairLanes_and_mask (weight : d < 2 ^ 2) (s a : Nat) :
    pairLanes d s a &&& ofLanes 2 (List.replicate s d) = pairLanes d s a := by
  induction s generalizing a with
  | zero => simp
  | succ s ih =>
    have bit : d * (a % 2) &&& d = d * (a % 2) := by
      rcases Nat.mod_two_eq_zero_or_one a with even | odd
      · rw [even, Nat.mul_zero, Nat.zero_and]
      · rw [odd, Nat.mul_one, Nat.and_self]
    have small : d * (a % 2) < 2 ^ 2 := by rcases Nat.mod_two_eq_zero_or_one a with h | h <;> rw [h] <;> omega
    rw [pairLanes_succ, List.replicate_succ, ofLanes_cons, and_lane_add small weight, bit, ih]

theorem ofLanes_replicate_three_add_one (s : Nat) : ofLanes 2 (List.replicate s 3) + 1 = 2 ^ (2 * s) := by
  induction s with
  | zero => rfl
  | succ s ih =>
    rw [List.replicate_succ, ofLanes_cons, Nat.mul_succ, Nat.pow_add]
    omega

theorem two_mul_add_sub_one_mod {c N : Nat} (small : c < N) :
    (2 * c + 2 * N - 1) % (2 * N) = 2 * ((c + N - 1) % N) + 1 := by
  rcases Nat.eq_zero_or_pos c with zero | pos
  · subst zero
    rw [Nat.mod_eq_of_lt (by omega), Nat.mod_eq_of_lt (by omega)]
    omega
  · rw [show 2 * c + 2 * N - 1 = (2 * c - 1) + 2 * N by omega, Nat.add_mod_right, Nat.mod_eq_of_lt (by omega),
      show c + N - 1 = (c - 1) + N by omega, Nat.add_mod_right, Nat.mod_eq_of_lt (by omega)]
    omega

section Weight

variable (pair : d = 1 ∨ d = 2)
include pair

theorem weight_lt : d < 2 ^ 2 := by omega

theorem pairLanes_add_fill_and (s a : Nat) :
    (pairLanes d s a + ofLanes 2 (List.replicate s (3 - d))) &&& ofLanes 2 (List.replicate s d) = pairLanes d s a := by
  induction s generalizing a with
  | zero => simp
  | succ s ih =>
    have lane : (d * (a % 2) + (3 - d)) &&& d = d * (a % 2) := by
      rcases pair with rfl | rfl <;> rcases Nat.mod_two_eq_zero_or_one a with h | h <;> rw [h] <;> decide
    have regroup : d * (a % 2) + 2 ^ 2 * pairLanes d s (a / 2) + (3 - d + 2 ^ 2 * ofLanes 2 (List.replicate s (3 - d))) =
        (d * (a % 2) + (3 - d)) + 2 ^ 2 * (pairLanes d s (a / 2) + ofLanes 2 (List.replicate s (3 - d))) := by ring
    have small : d * (a % 2) + (3 - d) < 2 ^ 2 := by
      rcases Nat.mod_two_eq_zero_or_one a with h | h <;> rw [h] <;> omega
    rw [pairLanes_succ, List.replicate_succ, ofLanes_cons, List.replicate_succ, ofLanes_cons, regroup,
      and_lane_add small (weight_lt pair), lane, ih]

theorem pairLanes_or_fill (s a : Nat) :
    pairLanes d s a ||| ofLanes 2 (List.replicate s (3 - d)) = pairLanes d s a + ofLanes 2 (List.replicate s (3 - d)) := by
  induction s generalizing a with
  | zero => simp
  | succ s ih =>
    have lane : d * (a % 2) ||| (3 - d) = d * (a % 2) + (3 - d) := by
      rcases pair with rfl | rfl <;> rcases Nat.mod_two_eq_zero_or_one a with h | h <;> rw [h] <;> decide
    have small : d * (a % 2) < 2 ^ 2 := by rcases Nat.mod_two_eq_zero_or_one a with h | h <;> rw [h] <;> omega
    rw [pairLanes_succ, List.replicate_succ, ofLanes_cons, or_lane_add small (by omega), lane, ih]
    ring

theorem pairLanes_add_fill_succ {s a : Nat} (small : a < 2 ^ s) :
    (pairLanes d s a + ofLanes 2 (List.replicate s (3 - d)) + 1) &&& ofLanes 2 (List.replicate s d) =
      pairLanes d s ((a + 1) % 2 ^ s) := by
  induction s generalizing a with
  | zero => simp
  | succ s ih =>
    have half : a / 2 < 2 ^ s := by rw [Nat.pow_succ] at small; omega
    rw [pairLanes_succ, List.replicate_succ, ofLanes_cons, List.replicate_succ, ofLanes_cons]
    rcases Nat.mod_two_eq_zero_or_one a with even | odd
    · -- the low lane takes the one, and nothing carries
      have next : (a + 1) % 2 ^ (s + 1) = 2 * (a / 2) + 1 := by rw [Nat.mod_eq_of_lt (by omega)]; omega
      have regroup : d * (a % 2) + 2 ^ 2 * pairLanes d s (a / 2) + (3 - d + 2 ^ 2 * ofLanes 2 (List.replicate s (3 - d))) + 1 =
          (4 - d) + 2 ^ 2 * (pairLanes d s (a / 2) + ofLanes 2 (List.replicate s (3 - d))) := by
        rw [even, Nat.mul_zero]
        omega
      have lane : (4 - d) &&& d = d := by rcases pair with rfl | rfl <;> decide
      rw [regroup, and_lane_add (by omega) (weight_lt pair), lane, pairLanes_add_fill_and pair, next, pairLanes_succ,
        show (2 * (a / 2) + 1) % 2 = 1 by omega, show (2 * (a / 2) + 1) / 2 = a / 2 by omega, Nat.mul_one]
    · -- the low lane overflows and the carry goes on into the rest
      have next : (a + 1) % 2 ^ (s + 1) = 2 * ((a / 2 + 1) % 2 ^ s) := by
        rw [show a + 1 = 2 * (a / 2 + 1) by omega, Nat.pow_succ, Nat.mul_comm (2 ^ s) 2, Nat.mul_mod_mul_left]
      have regroup : d * (a % 2) + 2 ^ 2 * pairLanes d s (a / 2) + (3 - d + 2 ^ 2 * ofLanes 2 (List.replicate s (3 - d))) + 1 =
          0 + 2 ^ 2 * (pairLanes d s (a / 2) + ofLanes 2 (List.replicate s (3 - d)) + 1) := by
        rw [odd, Nat.mul_one]
        rcases pair with rfl | rfl <;> omega
      rw [regroup, and_lane_add (by omega) (weight_lt pair), Nat.zero_and, ih half, next, pairLanes_succ,
        Nat.mul_mod_right, Nat.mul_zero, Nat.mul_div_cancel_left _ (by decide)]

theorem pairLanes_add_threes {s a : Nat} (small : a < 2 ^ s) :
    (pairLanes d s a + ofLanes 2 (List.replicate s 3)) &&& ofLanes 2 (List.replicate s d) =
      pairLanes d s ((a + 2 ^ s - 1) % 2 ^ s) := by
  induction s generalizing a with
  | zero => simp
  | succ s ih =>
    have half : a / 2 < 2 ^ s := by rw [Nat.pow_succ] at small; omega
    rw [pairLanes_succ, List.replicate_succ, ofLanes_cons, List.replicate_succ, ofLanes_cons]
    rcases Nat.mod_two_eq_zero_or_one a with even | odd
    · -- the low lane borrows from the rest
      have next : (a + 2 ^ (s + 1) - 1) % 2 ^ (s + 1) = 2 * ((a / 2 + 2 ^ s - 1) % 2 ^ s) + 1 := by
        rw [show a = 2 * (a / 2) by omega, Nat.pow_succ, Nat.mul_comm (2 ^ s) 2, two_mul_add_sub_one_mod half,
          show 2 * (a / 2) / 2 = a / 2 by omega]
      have regroup : d * (a % 2) + 2 ^ 2 * pairLanes d s (a / 2) + (3 + 2 ^ 2 * ofLanes 2 (List.replicate s 3)) =
          3 + 2 ^ 2 * (pairLanes d s (a / 2) + ofLanes 2 (List.replicate s 3)) := by
        rw [even, Nat.mul_zero]
        ring
      have lane : 3 &&& d = d := by rcases pair with rfl | rfl <;> decide
      rw [regroup, and_lane_add (by decide) (weight_lt pair), lane, ih half, next, pairLanes_succ,
        show (2 * ((a / 2 + 2 ^ s - 1) % 2 ^ s) + 1) % 2 = 1 by omega,
        show (2 * ((a / 2 + 2 ^ s - 1) % 2 ^ s) + 1) / 2 = (a / 2 + 2 ^ s - 1) % 2 ^ s by omega, Nat.mul_one]
    · -- the low lane pays for itself, and the rest is left with a carry past its top
      have next : (a + 2 ^ (s + 1) - 1) % 2 ^ (s + 1) = 2 * (a / 2) := by
        rw [show a + 2 ^ (s + 1) - 1 = 2 * (a / 2) + 2 ^ (s + 1) by omega, Nat.add_mod_right,
          Nat.mod_eq_of_lt (by rw [Nat.pow_succ]; omega)]
      have top := ofLanes_replicate_three_add_one s
      have regroup : d * (a % 2) + 2 ^ 2 * pairLanes d s (a / 2) + (3 + 2 ^ 2 * ofLanes 2 (List.replicate s 3)) =
          (d - 1) + 2 ^ 2 * (pairLanes d s (a / 2) + 2 ^ (2 * s) * 1) := by
        rw [odd, Nat.mul_one, ← top]
        rcases pair with rfl | rfl <;> omega
      have lane : (d - 1) &&& d = 0 := by rcases pair with rfl | rfl <;> decide
      rw [regroup, and_lane_add (by omega) (weight_lt pair), lane,
        add_two_pow_mul_and (ofLanes_replicate_lt (weight_lt pair) s),
        pairLanes_and_mask (weight_lt pair), next, pairLanes_succ, Nat.mul_mod_right, Nat.mul_zero,
        Nat.mul_div_cancel_left _ (by decide), Nat.zero_add]

end Weight

end Pairs

section Sums

variable {M : Type} [AddCommMonoid M]

theorem sum_range_mul_add (f : Nat → M) (m n : Nat) :
    ∑ g ∈ Finset.range m, ∑ k ∈ Finset.range n, f (n * g + k) = ∑ j ∈ Finset.range (m * n), f j := by
  induction m with
  | zero => simp
  | succ m ih => rw [Finset.sum_range_succ, ih, Nat.succ_mul, Finset.sum_range_add, Nat.mul_comm n m]

end Sums

end Foundations
