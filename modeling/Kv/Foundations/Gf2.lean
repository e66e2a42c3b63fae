import Mathlib.Logic.Function.Iterate
import Mathlib.Algebra.Group.Nat.Defs

/-!
Maps of 64-bit words that are linear over GF(2), the field of two elements:
they take xor to xor. Such a map is given by a matrix, the images of the 64 unit
words read from memory one after another, and the product of the matrix with a
word xors the columns that the set bits of the word select, lowest bit first. A
matrix whose columns are the images of its own columns represents the map
applied twice, which is how a power of a map is reached by squaring.
-/

namespace Foundations

theorem uint64_eq_of_getLsbD {x y : UInt64} (bits : ∀ i < 64, x.toBitVec.getLsbD i = y.toBitVec.getLsbD i) :
    x = y :=
  UInt64.toBitVec_inj.mp (BitVec.eq_of_getLsbD_eq bits)

/-- Bit `i` of a word shifted down by `k` places is bit `k + i`. -/
theorem uint64_getLsbD_shiftRight (v n : UInt64) (k : Nat) (amount : n.toNat = k) (small : k < 64) (i : Nat) :
    (v >>> n).toBitVec.getLsbD i = v.toBitVec.getLsbD (k + i) := by
  have reduced : (n.toBitVec % 64).toNat = k := by
    rw [BitVec.toNat_umod, ← amount]
    exact Nat.mod_eq_of_lt (show n.toNat < 64 by omega)
  simp only [UInt64.toBitVec_shiftRight, BitVec.ushiftRight_eq', BitVec.getLsbD_ushiftRight, reduced]

/-- Bit `i` of a word shifted up by `k` places is bit `i - k`, when `k ≤ i`. -/
theorem uint64_getLsbD_shiftLeft (v n : UInt64) (k : Nat) (amount : n.toNat = k) (small : k < 64) (i : Nat) :
    (v <<< n).toBitVec.getLsbD i = (decide (i < 64) && !decide (i < k) && v.toBitVec.getLsbD (i - k)) := by
  have reduced : (n.toBitVec % 64).toNat = k := by
    rw [BitVec.toNat_umod, ← amount]
    exact Nat.mod_eq_of_lt (show n.toNat < 64 by omega)
  simp only [UInt64.toBitVec_shiftLeft, BitVec.shiftLeft_eq', BitVec.getLsbD_shiftLeft, reduced]

theorem uint64_xor_xor_xor_comm (a b c d : UInt64) : (a ^^^ b) ^^^ (c ^^^ d) = (a ^^^ c) ^^^ (b ^^^ d) := by
  rw [UInt64.xor_assoc, ← UInt64.xor_assoc b, UInt64.xor_comm b c, UInt64.xor_assoc c, ← UInt64.xor_assoc]

/-- A word split into its lowest bit and the rest. -/
theorem uint64_split_low (v : UInt64) : v = (v &&& (1 : UInt64)) ^^^ ((v >>> (1 : UInt64)) <<< (1 : UInt64)) :=
  uint64_eq_of_getLsbD fun i below => by
    simp only [UInt64.toBitVec_xor, UInt64.toBitVec_and, UInt64.toBitVec_shiftLeft, UInt64.toBitVec_shiftRight,
      BitVec.getLsbD_xor, BitVec.getLsbD_and]
    rcases i with _ | i
    · simp
    · simp [below, Nat.add_comm 1 i]

theorem uint64_and_one_cases (v : UInt64) : v &&& (1 : UInt64) = 0 ∨ v &&& (1 : UInt64) = 1 := by
  have low : (v &&& (1 : UInt64)).toNat ≤ 1 := by
    rw [UInt64.toNat_and]
    exact Nat.and_le_right
  rcases Nat.le_one_iff_eq_zero_or_eq_one.mp low with zero | one
  · exact .inl (UInt64.toNat_inj.mp zero)
  · exact .inr (UInt64.toNat_inj.mp one)

/-- The lowest bit of a word, as the test `v & 1` reads it. -/
theorem uint64_and_one_eq_zero_iff (v : UInt64) : v &&& (1 : UInt64) = 0 ↔ v.toBitVec.getLsbD 0 = false := by
  have bit : (v &&& (1 : UInt64)).toBitVec.getLsbD 0 = v.toBitVec.getLsbD 0 := by
    simp [UInt64.toBitVec_and]
  constructor
  · intro zero
    rw [← bit, zero]
    rfl
  · intro clear
    rcases uint64_and_one_cases v with zero | one
    · exact zero
    · rw [one, clear] at bit
      exact absurd bit (by decide)

theorem uint64_and_allOnes (x : UInt64) : x &&& 0xffffffffffffffff = x := by
  rw [show (0xffffffffffffffff : UInt64) = -1 by decide, UInt64.and_neg_one]

theorem uint64_and_one_toNat (v : UInt64) : (v &&& (1 : UInt64)).toNat = v.toNat % 2 := by
  rw [UInt64.toNat_and, show (1 : UInt64).toNat = 1 from rfl, Nat.and_one_is_mod]

theorem uint64_shiftRight_one_toNat (v : UInt64) : (v >>> (1 : UInt64)).toNat = v.toNat / 2 := by
  rw [UInt64.toNat_shiftRight, Nat.shiftRight_eq_div_pow]
  rfl

theorem iterate_shiftRight_toNat (k : Nat) (w : UInt64) :
    ((fun w : UInt64 => w >>> 1)^[k] w).toNat = w.toNat / 2 ^ k := by
  induction k generalizing w with
  | zero => simp
  | succ k ih =>
    have one : (1 : UInt64).toNat % 64 = 1 := rfl
    rw [Function.iterate_succ_apply', UInt64.toNat_shiftRight, ih, one, Nat.shiftRight_eq_div_pow,
      Nat.div_div_eq_div_mul, Nat.pow_one, ← Nat.pow_succ]

/-- Halving `k` times is one shift by `k`, for a shift the hardware does not reduce. -/
theorem iterate_shiftRight_eq (k : UInt64) (small : k.toNat < 64) (w : UInt64) :
    (fun w : UInt64 => w >>> 1)^[k.toNat] w = w >>> k := by
  apply UInt64.toNat_inj.mp
  rw [iterate_shiftRight_toNat, UInt64.toNat_shiftRight, Nat.mod_eq_of_lt small, Nat.shiftRight_eq_div_pow]

/-- Sixty-four halvings clear any word. -/
theorem iterate_shiftRight_sixtyFour (v : UInt64) : (fun w : UInt64 => w >>> 1)^[64] v = 0 := by
  apply UInt64.toNat_inj.mp
  rw [iterate_shiftRight_toNat, Nat.div_eq_of_lt v.toNat_lt]
  rfl

/-- A map of 64-bit words that takes xor to xor: linear over GF(2). -/
def XorLinear (f : UInt64 → UInt64) : Prop := ∀ x y, f (x ^^^ y) = f x ^^^ f y

namespace XorLinear

variable {f g : UInt64 → UInt64}

theorem map_zero (lin : XorLinear f) : f 0 = 0 := by
  have twice := lin 0 0
  rwa [UInt64.xor_self, UInt64.xor_self] at twice

theorem comp (outer : XorLinear g) (inner : XorLinear f) : XorLinear (g ∘ f) := fun x y => by
  show g (f (x ^^^ y)) = g (f x) ^^^ g (f y)
  rw [inner, outer]

theorem iterate (lin : XorLinear f) (n : Nat) : XorLinear f^[n] := by
  induction n with
  | zero => exact fun _ _ => rfl
  | succ n ih => exact fun x y => by rw [Function.iterate_succ_apply', Function.iterate_succ_apply',
      Function.iterate_succ_apply', ih, lin]

end XorLinear

theorem xorLinear_shiftRight (k : UInt64) : XorLinear (· >>> k) := fun _ _ => UInt64.shiftRight_xor

theorem xorLinear_shiftLeft (k : UInt64) : XorLinear (· <<< k) := fun _ _ => UInt64.shiftLeft_xor

/-- The unit word with bit `i` set, reached by doubling 1. -/
def unitWord (i : Nat) : UInt64 := (fun w : UInt64 => w <<< 1)^[i] 1

theorem unitWord_succ (i : Nat) : unitWord (i + 1) = unitWord i <<< (1 : UInt64) :=
  Function.iterate_succ_apply' (fun w : UInt64 => w <<< 1) i 1

theorem unitWord_getLsbD {j : Nat} (small : j < 64) (t : Nat) : (unitWord j).toBitVec.getLsbD t = decide (t = j) := by
  induction j generalizing t with
  | zero =>
    by_cases bottom : t = 0
    · subst bottom
      rfl
    · rw [decide_eq_false bottom]
      exact BitVec.getLsbD_one.trans (by simp [bottom])
  | succ j ih =>
    rw [unitWord_succ, UInt64.toBitVec_shiftLeft, BitVec.shiftLeft_eq', BitVec.getLsbD_shiftLeft]
    have amount : ((1 : UInt64).toBitVec % 64).toNat = 1 := rfl
    rw [amount, ih (by omega)]
    by_cases inside : t < 64
    · by_cases bottom : t < 1
      · simp [bottom, show t ≠ j + 1 by omega]
      · simp [inside, bottom]
        omega
    · simp [inside, show t ≠ j + 1 by omega]

/-- The product of a GF(2) matrix, its columns read from `mat` one after another, with the low `k` bits of a word:
the xor of the columns those bits select, taken lowest bit first. -/
def gf2Times : Nat → (Nat → UInt64) → UInt64 → UInt64
  | 0, _, _ => 0
  | k + 1, mat, vec => (if vec &&& 1 = 0 then 0 else mat 0) ^^^ gf2Times k (fun i => mat (i + 1)) (vec >>> 1)

/-- The columns of a matrix are the images of the unit words under `f`. -/
def Represents (mat : Nat → UInt64) (f : UInt64 → UInt64) : Prop := ∀ i < 64, mat i = f (unitWord i)

/-- The product over `k + j` bits splits at bit `k`: the rest of the word, shifted down, meets the columns from `k`
on. -/
theorem gf2Times_add (k j : Nat) (mat : Nat → UInt64) (vec : UInt64) :
    gf2Times (k + j) mat vec =
      gf2Times k mat vec ^^^ gf2Times j (fun i => mat (i + k)) ((fun w : UInt64 => w >>> 1)^[k] vec) := by
  induction k generalizing mat vec with
  | zero => simp [gf2Times]
  | succ k ih =>
    rw [Nat.add_right_comm, gf2Times, gf2Times, ih, UInt64.xor_assoc, Function.iterate_succ_apply]
    rfl

/-- The product only reads the bits of the word below `k`. -/
theorem gf2Times_congr {k : Nat} (mat : Nat → UInt64) {v w : UInt64}
    (agree : ∀ i < k, v.toBitVec.getLsbD i = w.toBitVec.getLsbD i) : gf2Times k mat v = gf2Times k mat w := by
  induction k generalizing mat v w with
  | zero => rfl
  | succ k ih =>
    have low : (v &&& 1 = 0) ↔ (w &&& 1 = 0) := by
      rw [uint64_and_one_eq_zero_iff, uint64_and_one_eq_zero_iff, agree 0 (by omega)]
    have rest : ∀ i < k, (v >>> 1).toBitVec.getLsbD i = (w >>> 1).toBitVec.getLsbD i := by
      intro i below
      rw [uint64_getLsbD_shiftRight v 1 1 rfl (by decide), uint64_getLsbD_shiftRight w 1 1 rfl (by decide)]
      exact agree _ (by omega)
    rw [gf2Times, gf2Times, ih _ rest, if_congr low rfl rfl]

theorem gf2Times_zero (k : Nat) (mat : Nat → UInt64) : gf2Times k mat 0 = 0 := by
  induction k generalizing mat with
  | zero => rfl
  | succ k ih =>
    rw [gf2Times, if_pos (by decide), show (0 : UInt64) >>> 1 = 0 by decide, ih, UInt64.xor_zero]

/-- A product with a word whose bits from `k` up are clear is the image of the word under a linear map whose images
of the first `k` unit words are the columns. -/
theorem gf2Times_eq_apply {f : UInt64 → UInt64} (lin : XorLinear f) {k : Nat} {mat : Nat → UInt64}
    (cols : ∀ i < k, mat i = f (unitWord i)) {vec : UInt64}
    (fits : (fun w : UInt64 => w >>> 1)^[k] vec = 0) : gf2Times k mat vec = f vec := by
  induction k generalizing f mat vec with
  | zero =>
    simp only [Function.iterate_zero, id_eq] at fits
    rw [fits, lin.map_zero]
    rfl
  | succ k ih =>
    -- the lowest bit selects the first column; the rest of the word, shifted down, goes through the map that
    -- shifts it back up first, whose columns are the remaining ones
    have upper : ∀ i < k, mat (i + 1) = (f ∘ (· <<< (1 : UInt64))) (unitWord i) := by
      intro i below
      rw [Function.comp_apply, ← unitWord_succ, cols (i + 1) (by omega)]
    have low : (if vec &&& (1 : UInt64) = 0 then 0 else mat 0) = f (vec &&& 1) := by
      rcases uint64_and_one_cases vec with zero | one
      · rw [if_pos zero, zero, lin.map_zero]
      · rw [if_neg (by rw [one]; decide), one]
        exact cols 0 (by omega)
    rw [Function.iterate_succ_apply] at fits
    rw [gf2Times, low, ih (lin.comp (xorLinear_shiftLeft 1)) upper fits, Function.comp_apply, ← lin,
      ← uint64_split_low]

theorem Represents.gf2Times_eq {mat : Nat → UInt64} {f : UInt64 → UInt64} (rep : Represents mat f)
    (lin : XorLinear f) (vec : UInt64) : gf2Times 64 mat vec = f vec :=
  gf2Times_eq_apply lin rep (iterate_shiftRight_sixtyFour vec)

/-- A matrix whose columns are the products of a matrix of `f` with its own columns represents `f` applied
twice. -/
theorem Represents.square {mat sq : Nat → UInt64} {f : UInt64 → UInt64} (rep : Represents mat f)
    (lin : XorLinear f) (squared : ∀ i < 64, sq i = gf2Times 64 mat (mat i)) : Represents sq (f ∘ f) :=
  fun i below => by
    rw [squared i below, rep.gf2Times_eq lin, rep i below]
    rfl

end Foundations
