import Kv.Foundations.Binary64

/-!
The arithmetic of binary64 in the default rounding mode: every operation on
finite operands computes its exact result and rounds it to the nearest double,
ties to the even significand, with infinity past the largest finite value.
The exact results are rationals whose magnitude times 2^1074 is `n / d`, so
`roundScaled` rounds such a quotient to a multiple of the unit of its binade
and `ofScaled` writes the multiple back as a word.
-/

namespace Foundations

namespace Binary64

def ofScaled (s : Bool) (m : Nat) : Binary64 :=
  if m < 2 ^ 52 then make s 0 m
  else
    let e := Nat.log2 m - 52
    if 2046 ≤ e then make s 2047 0 else make s (e + 1) (m / 2 ^ e - 2 ^ 52)

def unitExponent (m : Nat) : Nat :=
  if m < 2 ^ 53 then 0 else Nat.log2 m - 52

def roundScaled (n d : Nat) : Nat :=
  let unit := d * 2 ^ unitExponent (n / d)
  let q := n / unit
  let r := n % unit
  (if unit < 2 * r ∨ (2 * r = unit ∧ q % 2 = 1) then q + 1 else q) * 2 ^ unitExponent (n / d)

def roundToDouble (s : Bool) (n d : Nat) : Binary64 :=
  ofScaled s (roundScaled n d)

def infinity (s : Bool) : Binary64 :=
  make s 2047 0

def defaultNaN : Binary64 :=
  make true 2047 (2 ^ 51)

def quiet (x : Binary64) : Binary64 :=
  make x.sign 2047 (x.fractionBits ||| 2 ^ 51)

def add (x y : Binary64) : Binary64 :=
  if x.isNaN then quiet x
  else if y.isNaN then quiet y
  else if x.isInf then (if y.isInf && x.sign != y.sign then defaultNaN else x)
  else if y.isInf then y
  else
    let sum := x.key + y.key
    if sum = 0 then (if x.sign && y.sign then negZero else posZero)
    else roundToDouble (decide (sum < 0)) sum.natAbs 1

def sub (x y : Binary64) : Binary64 :=
  if x.isNaN then quiet x else if y.isNaN then quiet y else add x y.negate

def mul (x y : Binary64) : Binary64 :=
  if x.isNaN then quiet x
  else if y.isNaN then quiet y
  else if x.isInf || y.isInf then
    (if x.scaled = 0 || y.scaled = 0 then defaultNaN else infinity (x.sign != y.sign))
  else roundToDouble (x.sign != y.sign) (x.scaled * y.scaled) (2 ^ 1074)

def div (x y : Binary64) : Binary64 :=
  if x.isNaN then quiet x
  else if y.isNaN then quiet y
  else if x.isInf then (if y.isInf then defaultNaN else infinity (x.sign != y.sign))
  else if y.isInf then make (x.sign != y.sign) 0 0
  else if y.scaled = 0 then (if x.scaled = 0 then defaultNaN else infinity (x.sign != y.sign))
  else roundToDouble (x.sign != y.sign) (x.scaled * 2 ^ 1074) y.scaled

example : add ⟨0x3FB999999999999A, by decide⟩ ⟨0x3FC999999999999A, by decide⟩ =
    ⟨0x3FD3333333333334, by decide⟩ := by
  decide +kernel

example : div (ofNat 1) (ofNat 3) = ⟨0x3FD5555555555555, by decide⟩ ∧
    div (ofNat 2) (ofNat 3) = ⟨0x3FE5555555555555, by decide⟩ := by
  decide +kernel

section Quotients

/-! Quotients of naturals below 2^53, computed as doubles, against 1.0, whose magnitude times
2^1074 is 2^1074: a quotient at most 1 rounds to at most 1.0, one at least 1 to at least 1.0. -/

theorem make_finite {e f : Nat} (finite : e < 2047) (small : f < 2 ^ 52) :
    (make false e f).isNaN = false ∧ (make false e f).isInf = false ∧
      (make false e f).scaled = if e = 0 then f else (2 ^ 52 + f) * 2 ^ (e - 1) := by
  have eMod : e % 2 ^ 11 = e := Nat.mod_eq_of_lt (by omega)
  have fMod : f % 2 ^ 52 = f := Nat.mod_eq_of_lt small
  simp only [isNaN, isInf, scaled, make_exponentBits, make_fractionBits, eMod, fMod, and_true]
  constructor <;> simp [Nat.ne_of_lt finite]

theorem significand_bounds {m : Nat} (big : 2 ^ 52 ≤ m) :
    52 ≤ m.log2 ∧ 2 ^ 52 ≤ m / 2 ^ (m.log2 - 52) ∧ m / 2 ^ (m.log2 - 52) < 2 ^ 53 := by
  have nonzero : m ≠ 0 := by omega
  have top : 52 ≤ m.log2 := (Nat.le_log2 nonzero).mpr big
  have lower := Nat.log2_self_le nonzero
  have upper : m < 2 ^ (m.log2 + 1) := Nat.lt_log2_self
  have split : 2 ^ m.log2 = 2 ^ 52 * 2 ^ (m.log2 - 52) := by
    rw [← Nat.pow_add]
    congr 1
    omega
  have splitUp : 2 ^ (m.log2 + 1) = 2 ^ 53 * 2 ^ (m.log2 - 52) := by
    rw [← Nat.pow_add]
    congr 1
    omega
  refine ⟨top, (Nat.le_div_iff_mul_le (Nat.two_pow_pos _)).mpr (by omega),
    (Nat.div_lt_iff_lt_mul (Nat.two_pow_pos _)).mpr (by omega)⟩

theorem ofNat_exact {m : Nat} (small : m < 2 ^ 53) :
    (ofNat m).sign = false ∧ (ofNat m).isNaN = false ∧ (ofNat m).isInf = false ∧
      (ofNat m).scaled = m * 2 ^ 1074 := by
  by_cases zero : m = 0
  · subst zero
    rw [ofNat_zero]
    exact ⟨rfl, rfl, rfl, by simp [posZero, scaled]⟩
  have lower := Nat.log2_self_le zero
  have upper : m < 2 ^ (m.log2 + 1) := Nat.lt_log2_self
  have digits : m.log2 ≤ 52 := Nat.lt_succ_iff.mp ((Nat.log2_lt zero).mpr small)
  -- the significand m * 2^(52 - k) lies in [2^52, 2^53)
  have shiftLow : 2 ^ m.log2 * 2 ^ (52 - m.log2) = 2 ^ 52 := by
    rw [← Nat.pow_add]
    congr 1
    omega
  have shiftHigh : 2 ^ (m.log2 + 1) * 2 ^ (52 - m.log2) = 2 ^ 53 := by
    rw [← Nat.pow_add]
    congr 1
    omega
  have qLow : 2 ^ 52 ≤ m * 2 ^ (52 - m.log2) := shiftLow ▸ Nat.mul_le_mul_right _ lower
  have qHigh : m * 2 ^ (52 - m.log2) < 2 ^ 53 :=
    shiftHigh ▸ Nat.mul_lt_mul_of_pos_right upper (Nat.two_pow_pos _)
  have word : ofNat m = make false (m.log2 + 1023) (m * 2 ^ (52 - m.log2) - 2 ^ 52) := by
    simp only [ofNat, zero, if_false, digits, if_true, ofSignificand,
      if_neg (show m * 2 ^ (52 - m.log2) ≠ 2 ^ 53 by omega)]
    rw [if_neg (by omega)]
  obtain ⟨nan, inf, magnitude⟩ := make_finite (show m.log2 + 1023 < 2047 by omega)
    (show m * 2 ^ (52 - m.log2) - 2 ^ 52 < 2 ^ 52 by omega)
  refine ⟨by rw [word, make_sign], by rw [word, nan], by rw [word, inf], ?_⟩
  rw [word, magnitude, if_neg (by omega), Nat.add_sub_cancel' qLow, Nat.mul_assoc, ← Nat.pow_add,
    show 52 - m.log2 + (m.log2 + 1023 - 1) = 1074 by omega]

theorem isNaN_ofScaled (m : Nat) : (ofScaled false m).isNaN = false := by
  unfold ofScaled
  split
  · exact (make_finite (by decide) ‹_›).1
  · dsimp only
    split
    · rfl
    · have bounds := significand_bounds (m := m) (by omega)
      exact (make_finite (by omega) (by omega)).1

theorem key_ofScaled_le {m : Nat} (below : m ≤ 2 ^ 1074) : (ofScaled false m).key ≤ m := by
  unfold ofScaled
  split
  · obtain ⟨-, inf, magnitude⟩ := make_finite (e := 0) (f := m) (by decide) ‹_›
    simp [key, inf, magnitude]
  · have ⟨top, low, high⟩ := significand_bounds (m := m) (by omega)
    have digits : m.log2 ≤ 1074 := Nat.lt_succ_iff.mp ((Nat.log2_lt (by omega)).mpr (by omega))
    dsimp only
    rw [if_neg (by omega)]
    obtain ⟨-, inf, magnitude⟩ := make_finite (show m.log2 - 52 + 1 < 2047 by omega)
      (show m / 2 ^ (m.log2 - 52) - 2 ^ 52 < 2 ^ 52 by omega)
    simp only [key, make_sign, inf, magnitude, Bool.false_eq_true, if_false, Nat.add_sub_cancel,
      Nat.add_sub_cancel' low]
    exact_mod_cast Nat.div_mul_le_self m _

theorem le_key_ofScaled {m : Nat} (above : 2 ^ 1074 ≤ m) : ((2 ^ 1074 : Nat) : Int) ≤ (ofScaled false m).key := by
  obtain ⟨top, low, high⟩ := significand_bounds (m := m) (by omega)
  have digits : 1074 ≤ m.log2 := (Nat.le_log2 (by omega)).mpr above
  unfold ofScaled
  rw [if_neg (by omega)]
  dsimp only
  split
  · -- past the largest exponent: infinity, whose key is 2^2100
    have inf : (make false 2047 0).isInf = true := by decide
    simp only [key, inf, if_true, make_sign, Bool.false_eq_true, if_false]
    exact Int.ofNat_le.mpr (Nat.pow_le_pow_right (by decide) (by decide))
  · obtain ⟨-, inf, magnitude⟩ := make_finite (show m.log2 - 52 + 1 < 2047 by omega)
      (show m / 2 ^ (m.log2 - 52) - 2 ^ 52 < 2 ^ 52 by omega)
    simp only [key, make_sign, inf, magnitude, Bool.false_eq_true, if_false, Nat.add_sub_cancel,
      Nat.add_sub_cancel' low]
    -- 2^52 significant bits at the unit 2^(k - 52) make 2^k, and k is at least 1074
    have lead : 2 ^ 1074 ≤ 2 ^ 52 * 2 ^ (m.log2 - 52) := by
      rw [← Nat.pow_add]
      exact Nat.pow_le_pow_right (by decide) (by omega)
    exact Int.ofNat_le.mpr (lead.trans (Nat.mul_le_mul_right _ low))

theorem roundScaled_le {n d : Nat} (pos : 0 < d) (below : n ≤ 2 ^ 1074 * d) : roundScaled n d ≤ 2 ^ 1074 := by
  rcases Nat.lt_or_eq_of_le below with strict | exact
  · -- below 2^1074 the unit is at most 2^1021, and the quotient in units stays below 2^1074 in them
    have quotient : n / d < 2 ^ 1074 := (Nat.div_lt_iff_lt_mul pos).mpr strict
    have small : unitExponent (n / d) ≤ 1074 := by
      unfold unitExponent
      split
      · omega
      · have : (n / d).log2 < 1074 := (Nat.log2_lt (by omega)).mpr quotient
        omega
    simp only [roundScaled]
    generalize unitExponent (n / d) = e at small ⊢
    have whole : 2 ^ (1074 - e) * 2 ^ e = 2 ^ 1074 := by
      rw [← Nat.pow_add]
      congr 1
      omega
    have units : n / (d * 2 ^ e) < 2 ^ (1074 - e) := by
      refine (Nat.div_lt_iff_lt_mul (Nat.mul_pos pos (Nat.two_pow_pos _))).mpr ?_
      calc n < 2 ^ 1074 * d := strict
        _ = 2 ^ (1074 - e) * (d * 2 ^ e) := by rw [← whole, Nat.mul_comm d, Nat.mul_assoc]
    have roundedUp : (n / (d * 2 ^ e) + 1) * 2 ^ e ≤ 2 ^ 1074 :=
      (Nat.mul_le_mul_right _ (Nat.succ_le_of_lt units)).trans_eq whole
    split
    · exact roundedUp
    · exact (Nat.mul_le_mul_right _ (Nat.le_succ _)).trans roundedUp
  · -- the quotient is 2^1074 itself, 2^52 units of 2^1022
    have quotient : n / d = 2 ^ 1074 := by rw [exact, Nat.mul_div_cancel _ pos]
    have unitExp : unitExponent (2 ^ 1074) = 1022 := by
      have notSmall : ¬2 ^ 1074 < 2 ^ 53 := Nat.not_lt.mpr (Nat.pow_le_pow_right (by decide) (by decide))
      simp only [unitExponent, Nat.log2_two_pow, notSmall, if_false]
    have regroup : 2 ^ 1074 * d = 2 ^ 52 * (d * 2 ^ 1022) := by
      rw [Nat.mul_comm d, ← Nat.mul_assoc, ← Nat.pow_add]
    have units : n / (d * 2 ^ 1022) = 2 ^ 52 := by
      rw [exact, regroup, Nat.mul_div_cancel _ (Nat.mul_pos pos (Nat.two_pow_pos _))]
    have noRest : n % (d * 2 ^ 1022) = 0 := by
      rw [exact, regroup, Nat.mul_mod_left]
    simp only [roundScaled, quotient, unitExp, units, noRest]
    rw [if_neg (by omega)]
    exact Nat.le_of_eq (by rw [← Nat.pow_add])

theorem le_roundScaled {n d : Nat} (pos : 0 < d) (above : 2 ^ 1074 * d ≤ n) : 2 ^ 1074 ≤ roundScaled n d := by
  have quotient : 2 ^ 1074 ≤ n / d := (Nat.le_div_iff_mul_le pos).mpr above
  obtain ⟨top, low, -⟩ := significand_bounds (m := n / d) (by omega)
  have digits : 1074 ≤ (n / d).log2 := (Nat.le_log2 (by omega)).mpr quotient
  have unitExp : unitExponent (n / d) = (n / d).log2 - 52 := by
    simp only [unitExponent, if_neg (show ¬n / d < 2 ^ 53 by omega)]
  have truncated : n / d / 2 ^ ((n / d).log2 - 52) * 2 ^ ((n / d).log2 - 52) ≤ roundScaled n d := by
    simp only [roundScaled, unitExp, ← Nat.div_div_eq_div_mul]
    split
    · exact Nat.mul_le_mul_right _ (Nat.le_succ _)
    · exact le_refl _
  have lead : 2 ^ 1074 ≤ 2 ^ 52 * 2 ^ ((n / d).log2 - 52) := by
    rw [← Nat.pow_add]
    exact Nat.pow_le_pow_right (by decide) (by omega)
  exact lead.trans ((Nat.mul_le_mul_right _ low).trans truncated)

theorem div_ofNat {a b : Nat} (aSmall : a < 2 ^ 53) (bPos : 0 < b) (bSmall : b < 2 ^ 53) :
    div (ofNat a) (ofNat b) = roundToDouble false (a * 2 ^ 1074 * 2 ^ 1074) (b * 2 ^ 1074) := by
  obtain ⟨aSign, aNaN, aInf, aScaled⟩ := ofNat_exact aSmall
  obtain ⟨bSign, bNaN, bInf, bScaled⟩ := ofNat_exact bSmall
  have bNonzero : b * 2 ^ 1074 ≠ 0 := Nat.ne_of_gt (Nat.mul_pos bPos (Nat.two_pow_pos _))
  simp only [div, aNaN, bNaN, aInf, bInf, aSign, bSign, aScaled, bScaled, bNonzero, Bool.false_eq_true,
    if_false, bne_self_eq_false]

theorem ble_div_ofNat {a b c e : Nat} (ab : a ≤ b) (ec : e ≤ c) (bPos : 0 < b) (ePos : 0 < e)
    (bSmall : b < 2 ^ 53) (cSmall : c < 2 ^ 53) :
    ble (div (ofNat a) (ofNat b)) (div (ofNat c) (ofNat e)) = true := by
  rw [div_ofNat (by omega) bPos bSmall, div_ofNat cSmall ePos (by omega)]
  have atMost := roundScaled_le (n := a * 2 ^ 1074 * 2 ^ 1074) (d := b * 2 ^ 1074)
    (Nat.mul_pos bPos (Nat.two_pow_pos _))
    (by rw [Nat.mul_comm (2 ^ 1074) (b * 2 ^ 1074)]; exact Nat.mul_le_mul_right _ (Nat.mul_le_mul_right _ ab))
  have atLeast := le_roundScaled (n := c * 2 ^ 1074 * 2 ^ 1074) (d := e * 2 ^ 1074)
    (Nat.mul_pos ePos (Nat.two_pow_pos _))
    (by rw [Nat.mul_comm (2 ^ 1074) (e * 2 ^ 1074)]; exact Nat.mul_le_mul_right _ (Nat.mul_le_mul_right _ ec))
  have left := key_ofScaled_le atMost
  have right := le_key_ofScaled atLeast
  simp only [ble, roundToDouble, isNaN_ofScaled, Bool.not_false, Bool.true_and]
  exact decide_eq_true (by omega)

end Quotients

end Binary64

end Foundations
