import Mathlib.Algebra.Order.Group.Nat

/-!
IEEE 754 binary64 values by their 64-bit words: the sign, the biased exponent
and the fraction, the comparisons of C on them, and the two conversions
between doubles and integers that C performs implicitly: an integer to the
nearest double (ties to even), and a double to an integer by truncation.
-/

namespace Foundations

structure Binary64 where
  bits : Nat
  lt : bits < 2 ^ 64
  deriving DecidableEq

namespace Binary64

def fractionBits (x : Binary64) : Nat :=
  x.bits % 2 ^ 52

def exponentBits (x : Binary64) : Nat :=
  x.bits / 2 ^ 52 % 2 ^ 11

def sign (x : Binary64) : Bool :=
  decide (2 ^ 63 ≤ x.bits)

def isNaN (x : Binary64) : Bool :=
  x.exponentBits == 2047 && x.fractionBits != 0

def isInf (x : Binary64) : Bool :=
  x.exponentBits == 2047 && x.fractionBits == 0

def scaled (x : Binary64) : Nat :=
  if x.exponentBits = 0 then x.fractionBits else (2 ^ 52 + x.fractionBits) * 2 ^ (x.exponentBits - 1)

def key (x : Binary64) : Int :=
  let magnitude : Nat := if x.isInf then 2 ^ 2100 else x.scaled
  if x.sign then -(magnitude : Int) else magnitude

def beq (x y : Binary64) : Bool :=
  !x.isNaN && !y.isNaN && x.key == y.key

def blt (x y : Binary64) : Bool :=
  !x.isNaN && !y.isNaN && decide (x.key < y.key)

def ble (x y : Binary64) : Bool :=
  !x.isNaN && !y.isNaN && decide (x.key ≤ y.key)

def make (sign : Bool) (exponent fraction : Nat) : Binary64 where
  bits := ((if sign then 1 else 0) * 2 ^ 11 + exponent % 2 ^ 11) * 2 ^ 52 + fraction % 2 ^ 52
  lt := by
    have := Nat.mod_lt exponent (show 0 < 2 ^ 11 by decide)
    have := Nat.mod_lt fraction (show 0 < 2 ^ 52 by decide)
    split <;> omega

def posZero : Binary64 :=
  make false 0 0

def negZero : Binary64 :=
  make true 0 0

def negate (x : Binary64) : Binary64 :=
  make (!x.sign) x.exponentBits x.fractionBits

def ofSignificand (q k : Nat) : Binary64 :=
  let (q, k) := if q = 2 ^ 53 then (2 ^ 52, k + 1) else (q, k)
  if 2047 ≤ k + 1023 then make false 2047 0 else make false (k + 1023) (q - 2 ^ 52)

def ofNat (m : Nat) : Binary64 :=
  if m = 0 then posZero
  else
    let k := Nat.log2 m
    if k ≤ 52 then ofSignificand (m * 2 ^ (52 - k)) k
    else
      let shift := k - 52
      let q := m / 2 ^ shift
      let r := m % 2 ^ shift
      let half := 2 ^ (shift - 1)
      ofSignificand (if half < r ∨ (r = half ∧ q % 2 = 1) then q + 1 else q) k

def ofInt (n : Int) : Binary64 :=
  if n < 0 then negate (ofNat n.natAbs) else ofNat n.natAbs

def truncate (x : Binary64) : Int :=
  let magnitude : Int := (x.scaled / 2 ^ 1074 : Nat)
  if x.sign then -magnitude else magnitude

section Fields

variable {x y : Binary64}

theorem bits_eq_fields (x : Binary64) :
    x.bits = ((if x.sign then 1 else 0) * 2 ^ 11 + x.exponentBits) * 2 ^ 52 + x.fractionBits := by
  have bound := x.lt
  unfold sign exponentBits fractionBits
  split <;> simp_all <;> omega

theorem ext_fields (sign : x.sign = y.sign) (exponent : x.exponentBits = y.exponentBits)
    (fraction : x.fractionBits = y.fractionBits) : x = y := by
  have same : x.bits = y.bits := by rw [bits_eq_fields x, bits_eq_fields y, sign, exponent, fraction]
  cases x
  cases y
  simp only at same
  subst same
  rfl

theorem exponentBits_lt (x : Binary64) : x.exponentBits < 2048 :=
  Nat.mod_lt _ (by decide)

theorem fractionBits_lt (x : Binary64) : x.fractionBits < 2 ^ 52 :=
  Nat.mod_lt _ (by decide)

@[simp] theorem make_sign (s : Bool) (e f : Nat) : (make s e f).sign = s := by
  have := Nat.mod_lt e (show 0 < 2 ^ 11 by decide)
  have := Nat.mod_lt f (show 0 < 2 ^ 52 by decide)
  cases s <;> simp only [make, sign, if_true, if_false, Bool.false_eq_true, decide_eq_true_eq,
    decide_eq_false_iff_not] <;> omega

@[simp] theorem make_exponentBits (s : Bool) (e f : Nat) : (make s e f).exponentBits = e % 2 ^ 11 := by
  have := Nat.mod_lt f (show 0 < 2 ^ 52 by decide)
  cases s <;> simp only [make, exponentBits, if_true, if_false, Bool.false_eq_true] <;> omega

@[simp] theorem make_fractionBits (s : Bool) (e f : Nat) : (make s e f).fractionBits = f % 2 ^ 52 := by
  cases s <;> simp only [make, fractionBits, if_true, if_false, Bool.false_eq_true] <;> omega

end Fields

section Key

variable {x y : Binary64}

theorem significand_mul_two_pow_inj {a b p q : Nat} (aLow : 2 ^ 52 ≤ a) (aHigh : a < 2 ^ 53) (bLow : 2 ^ 52 ≤ b)
    (bHigh : b < 2 ^ 53) (same : a * 2 ^ p = b * 2 ^ q) : a = b ∧ p = q := by
  -- the larger power would double the other significand past 2^53
  have noGap : ∀ {a b p d : Nat}, a < 2 ^ 53 → 2 ^ 52 ≤ b → a * 2 ^ p = b * 2 ^ (p + d) → d = 0 := by
    intro a b p d aHigh bLow same
    rw [Nat.pow_add, ← Nat.mul_assoc, Nat.mul_comm _ (2 ^ p), Nat.mul_comm b, Nat.mul_assoc] at same
    have cancel := Nat.eq_of_mul_eq_mul_left (Nat.two_pow_pos p) same
    by_contra positive
    have : 2 ≤ 2 ^ d := Nat.le_self_pow positive 2
    have : 2 ^ 52 * 2 ≤ b * 2 ^ d := Nat.mul_le_mul bLow this
    omega
  rcases Nat.le_total p q with le | le
  · obtain ⟨d, rfl⟩ := Nat.exists_eq_add_of_le le
    have zero := noGap aHigh bLow same
    subst zero
    exact ⟨Nat.eq_of_mul_eq_mul_right (Nat.two_pow_pos p) same, rfl⟩
  · obtain ⟨d, rfl⟩ := Nat.exists_eq_add_of_le le
    have zero := noGap bHigh aLow same.symm
    subst zero
    exact ⟨Nat.eq_of_mul_eq_mul_right (Nat.two_pow_pos q) same, rfl⟩

theorem scaled_lt (x : Binary64) : x.scaled < 2 ^ 2100 := by
  have e := x.exponentBits_lt
  have f := x.fractionBits_lt
  have top : (2 : Nat) ^ 2100 = 2 ^ 53 * 2 ^ 2047 := by rw [← Nat.pow_add]
  rw [top]
  unfold scaled
  split
  · have : 2 ^ 53 ≤ 2 ^ 53 * 2 ^ 2047 := Nat.le_mul_of_pos_right _ (Nat.two_pow_pos _)
    omega
  · exact Nat.mul_lt_mul_of_lt_of_le (by omega) (Nat.pow_le_pow_right (by decide) (by omega)) (Nat.two_pow_pos _)

theorem scaled_eq_zero_iff : x.scaled = 0 ↔ x.exponentBits = 0 ∧ x.fractionBits = 0 := by
  unfold scaled
  split
  · simp_all
  · have positive : 0 < (2 ^ 52 + x.fractionBits) * 2 ^ (x.exponentBits - 1) :=
      Nat.mul_pos (by omega) (Nat.two_pow_pos _)
    omega

theorem scaled_inj (same : x.scaled = y.scaled) :
    x.exponentBits = y.exponentBits ∧ x.fractionBits = y.fractionBits := by
  have xf := x.fractionBits_lt
  have yf := y.fractionBits_lt
  unfold scaled at same
  by_cases xSub : x.exponentBits = 0 <;> by_cases ySub : y.exponentBits = 0 <;>
    simp only [xSub, ySub, if_true, if_false] at same
  · -- two subnormals: the magnitude is the fraction
    exact ⟨by rw [xSub, ySub], same⟩
  · -- a subnormal is below every normal value
    have : 2 ^ 52 ≤ (2 ^ 52 + y.fractionBits) * 2 ^ (y.exponentBits - 1) :=
      (Nat.le_add_right _ _).trans (Nat.le_mul_of_pos_right _ (Nat.two_pow_pos _))
    omega
  · have : 2 ^ 52 ≤ (2 ^ 52 + x.fractionBits) * 2 ^ (x.exponentBits - 1) :=
      (Nat.le_add_right _ _).trans (Nat.le_mul_of_pos_right _ (Nat.two_pow_pos _))
    omega
  · -- two normals: the significands are 53 bits wide
    obtain ⟨significand, exponent⟩ := significand_mul_two_pow_inj (by omega) (by omega) (by omega) (by omega) same
    exact ⟨by omega, by omega⟩

theorem fields_of_isInf (inf : x.isInf = true) : x.exponentBits = 2047 ∧ x.fractionBits = 0 := by
  simpa [isInf] using inf

theorem key_natAbs (x : Binary64) : x.key.natAbs = if x.isInf then 2 ^ 2100 else x.scaled := by
  unfold key
  by_cases negative : x.sign <;>
    simp only [negative, if_true, Bool.false_eq_true, if_false, Int.natAbs_neg, Int.natAbs_natCast]

theorem key_eq_sign_natAbs (x : Binary64) : x.key = if x.sign then -(x.key.natAbs : Int) else x.key.natAbs := by
  rw [key_natAbs]
  rfl

theorem sign_eq_of_key_eq (same : x.key = y.key) (nonzero : x.key ≠ 0) : x.sign = y.sign := by
  have magnitude := congrArg Int.natAbs same
  rw [key_eq_sign_natAbs x, key_eq_sign_natAbs y, magnitude] at same
  rw [key_eq_sign_natAbs x, magnitude] at nonzero
  cases xSign : x.sign <;> cases ySign : y.sign <;>
    simp only [xSign, ySign, Bool.false_eq_true, if_true, if_false] at same nonzero ⊢ <;> omega

theorem scaled_eq_zero_of_key_eq_zero (zero : x.key = 0) : x.scaled = 0 := by
  have magnitude := key_natAbs x
  rw [zero] at magnitude
  split at magnitude
  · exact absurd magnitude (Nat.two_pow_pos _).ne
  · exact magnitude.symm

theorem key_inj (same : x.key = y.key) :
    x = y ∨ (x.scaled = 0 ∧ y.scaled = 0) := by
  by_cases zero : x.key = 0
  · exact .inr ⟨scaled_eq_zero_of_key_eq_zero zero, scaled_eq_zero_of_key_eq_zero (same ▸ zero)⟩
  have signs := sign_eq_of_key_eq same zero
  have magnitude := congrArg Int.natAbs same
  rw [key_natAbs, key_natAbs] at magnitude
  have xLt := x.scaled_lt
  have yLt := y.scaled_lt
  left
  cases xInf : x.isInf <;> cases yInf : y.isInf <;> simp only [xInf, yInf, Bool.false_eq_true, if_true, if_false] at magnitude
  · -- two finite values of one magnitude
    obtain ⟨exponent, fraction⟩ := scaled_inj magnitude
    exact ext_fields signs exponent fraction
  · omega
  · omega
  · -- two infinities of one sign
    obtain ⟨xExp, xFrac⟩ := fields_of_isInf xInf
    obtain ⟨yExp, yFrac⟩ := fields_of_isInf yInf
    exact ext_fields signs (xExp.trans yExp.symm) (xFrac.trans yFrac.symm)

end Key

section Conversions

variable {x y : Binary64}

@[simp] theorem negate_sign (x : Binary64) : x.negate.sign = !x.sign :=
  make_sign _ _ _

@[simp] theorem negate_exponentBits (x : Binary64) : x.negate.exponentBits = x.exponentBits := by
  simp only [negate, make_exponentBits]
  exact Nat.mod_eq_of_lt x.exponentBits_lt

@[simp] theorem negate_fractionBits (x : Binary64) : x.negate.fractionBits = x.fractionBits := by
  simp only [negate, make_fractionBits]
  exact Nat.mod_eq_of_lt x.fractionBits_lt

@[simp] theorem negate_scaled (x : Binary64) : x.negate.scaled = x.scaled := by
  simp only [scaled, negate_exponentBits, negate_fractionBits]

@[simp] theorem negate_isNaN (x : Binary64) : x.negate.isNaN = x.isNaN := by
  simp only [isNaN, negate_exponentBits, negate_fractionBits]

theorem ofSignificand_eq (q k : Nat) :
    ∃ e f, ofSignificand q k = make false e f ∧ 0 < e ∧ e < 2048 ∧ (e = 2047 → f = 0) := by
  unfold ofSignificand
  -- the carry into the exponent does not matter here
  generalize (if q = 2 ^ 53 then (2 ^ 52, k + 1) else (q, k)) = rounded
  obtain ⟨q, k⟩ := rounded
  dsimp only
  split
  · exact ⟨2047, 0, rfl, by decide, by decide, fun _ => rfl⟩
  · exact ⟨_, _, rfl, by omega, by omega, fun _ => by omega⟩

theorem ofSignificand_fields (q k : Nat) :
    (ofSignificand q k).sign = false ∧ 0 < (ofSignificand q k).exponentBits ∧ (ofSignificand q k).isNaN = false := by
  obtain ⟨e, f, eq, pos, lt, top⟩ := ofSignificand_eq q k
  have eMod : e % 2 ^ 11 = e := Nat.mod_eq_of_lt lt
  rw [eq]
  refine ⟨make_sign _ _ _, by rw [make_exponentBits, eMod]; exact pos, ?_⟩
  simp only [isNaN, make_exponentBits, make_fractionBits, eMod, Bool.and_eq_false_iff, beq_eq_false_iff_ne,
    bne_eq_false_iff_eq]
  by_cases atTop : e = 2047
  · exact .inr (by rw [top atTop]; rfl)
  · exact .inl atTop

@[simp] theorem ofNat_zero : ofNat 0 = posZero := by
  simp [ofNat]

theorem ofNat_eq_ofSignificand {m : Nat} (nonzero : m ≠ 0) : ∃ q k, ofNat m = ofSignificand q k := by
  unfold ofNat
  simp only [nonzero, if_false]
  split
  · exact ⟨_, _, rfl⟩
  · exact ⟨_, _, rfl⟩

theorem ofNat_fields (m : Nat) :
    (ofNat m).sign = false ∧ (ofNat m).isNaN = false ∧ ((ofNat m).scaled = 0 ↔ m = 0) := by
  by_cases zero : m = 0
  · subst zero
    exact ⟨rfl, rfl, by simp [scaled, posZero]⟩
  · obtain ⟨q, k, eq⟩ := ofNat_eq_ofSignificand zero
    obtain ⟨sign, exponent, nan⟩ := ofSignificand_fields q k
    rw [eq, scaled_eq_zero_iff]
    exact ⟨sign, nan, by omega⟩

theorem ofInt_fields (n : Int) :
    (ofInt n).sign = decide (n < 0) ∧ (ofInt n).isNaN = false ∧ ((ofInt n).scaled = 0 ↔ n = 0) := by
  obtain ⟨sign, nan, zero⟩ := ofNat_fields n.natAbs
  unfold ofInt
  split
  · refine ⟨by simp [*], by rw [negate_isNaN, nan], by rw [negate_scaled, zero]; omega⟩
  · refine ⟨by simp [*], nan, by rw [zero]; omega⟩

@[simp] theorem ofInt_zero : ofInt 0 = posZero := by
  simp [ofInt]

theorem ofInt_ne_negZero (n : Int) : ofInt n ≠ negZero := by
  intro eq
  obtain ⟨sign, -, zero⟩ := ofInt_fields n
  have negative : decide (n < 0) = true := by rw [← sign, eq]; rfl
  have scaledZero : (ofInt n).scaled = 0 := by rw [eq]; rfl
  have := zero.mp scaledZero
  simp only [decide_eq_true_eq] at negative
  omega

theorem key_nonneg (positive : x.sign = false) : 0 ≤ x.key := by
  unfold key
  simp only [positive, Bool.false_eq_true, if_false]
  split <;> omega

theorem key_nonpos (negative : x.sign = true) : x.key ≤ 0 := by
  unfold key
  simp only [negative, if_true]
  split <;> omega

theorem key_eq_zero_of_scaled (zero : x.scaled = 0) (finite : x.isInf = false) : x.key = 0 := by
  unfold key
  simp [zero, finite]

theorem truncate_of_scaled (zero : x.scaled = 0) : x.truncate = 0 := by
  unfold truncate
  simp [zero]

theorem eq_zero_of_scaled (zero : x.scaled = 0) : x = posZero ∨ x = negZero := by
  obtain ⟨exponent, fraction⟩ := scaled_eq_zero_iff.mp zero
  cases sign : x.sign
  · exact .inl (ext_fields (by rw [sign]; rfl) (by rw [exponent]; rfl) (by rw [fraction]; rfl))
  · exact .inr (ext_fields (by rw [sign]; rfl) (by rw [exponent]; rfl) (by rw [fraction]; rfl))

theorem posZero_ne_negZero : posZero ≠ negZero := by
  decide

theorem beq_iff : beq x y = true ↔ x.isNaN = false ∧ y.isNaN = false ∧ x.key = y.key := by
  simp [beq, and_assoc]

theorem blt_eq_false_of_ble (le : ble x y = true) : blt y x = false := by
  simp only [ble, Bool.and_eq_true, Bool.not_eq_true', decide_eq_true_eq] at le
  simp only [blt, Bool.and_eq_false_iff, Bool.not_eq_false', decide_eq_false_iff_not, not_lt]
  exact .inr le.2

end Conversions

end Binary64

end Foundations
