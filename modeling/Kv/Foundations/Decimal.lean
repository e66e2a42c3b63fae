import Mathlib.Data.Nat.Digits.Lemmas

/-!
Decimal numerals as ASCII bytes, most significant digit first: the numeral of a
number, and the number a string of digits is read as. A numeral that starts with
a nonzero digit is the numeral of the number it reads as; that is what makes a
strict parser canonical.
-/

namespace Foundations

def digitByte (d : Nat) : UInt8 := UInt8.ofNat (48 + d)

def decimal (n : Nat) : List UInt8 :=
  if n = 0 then [digitByte 0] else (Nat.digits 10 n).reverse.map digitByte

def IsDigitByte (c : UInt8) : Prop := 48 ≤ c.toNat ∧ c.toNat ≤ 57

instance : DecidablePred IsDigitByte := fun _ => inferInstanceAs (Decidable (_ ∧ _))

def readDigits (v : Nat) (ds : List UInt8) : Nat :=
  ds.foldl (fun v c => v * 10 + (c.toNat - 48)) v

section Digits

variable {n r d : Nat}

theorem digitByte_toNat (digit : d < 10) : (digitByte d).toNat = 48 + d := by
  rw [digitByte, UInt8.toNat_ofNat_of_lt' (show 48 + d < 256 by omega)]

theorem digitByte_sub {c : UInt8} (digit : IsDigitByte c) : digitByte (c.toNat - 48) = c := by
  apply UInt8.toNat_inj.mp
  rw [digitByte_toNat (by unfold IsDigitByte at digit; omega)]
  unfold IsDigitByte at digit
  omega

theorem isDigitByte_digitByte (digit : d < 10) : IsDigitByte (digitByte d) := by
  unfold IsDigitByte
  rw [digitByte_toNat digit]
  omega

theorem decimal_of_lt (digit : d < 10) : decimal d = [digitByte d] := by
  unfold decimal
  split
  · next zero => rw [zero]
  · next pos => rw [Nat.digits_of_lt 10 d pos digit]; rfl

theorem decimal_push (pos : 0 < n) (digit : r < 10) : decimal (n * 10 + r) = decimal n ++ [digitByte r] := by
  have split : Nat.digits 10 (n * 10 + r) = r :: Nat.digits 10 n := by
    rw [Nat.digits_def' (by omega) (by omega)]
    congr 2 <;> omega
  unfold decimal
  rw [if_neg (by omega), if_neg (by omega), split, List.reverse_cons, List.map_append]
  rfl

theorem decimal_push_pair (pos : 0 < n) (pair : r < 100) :
    decimal (n * 100 + r) = decimal n ++ [digitByte (r / 10), digitByte (r % 10)] := by
  have tens : n * 100 + r = (n * 10 + r / 10) * 10 + r % 10 := by omega
  rw [tens, decimal_push (by omega) (by omega), decimal_push pos (by omega), List.append_assoc]
  rfl

theorem decimal_ne_nil (n : Nat) : decimal n ≠ [] := by
  unfold decimal
  split
  · simp
  · next pos => simpa using Nat.digits_ne_nil_iff_ne_zero.mpr pos

theorem isDigitByte_of_mem_decimal {d : UInt8} (mem : d ∈ decimal n) : IsDigitByte d := by
  unfold decimal at mem
  split at mem
  · rw [List.mem_singleton.mp mem]
    exact isDigitByte_digitByte (by omega)
  · obtain ⟨k, digit, rfl⟩ := List.mem_map.mp mem
    exact isDigitByte_digitByte (Nat.digits_lt_base (by omega) (List.mem_reverse.mp digit))

theorem decimal_lead (pos : 0 < n) : ∃ c rest, decimal n = c :: rest ∧ 49 ≤ c.toNat ∧ c.toNat ≤ 57 := by
  induction n using Nat.strong_induction_on with
  | _ n ih =>
    by_cases small : n < 10
    · have byte := digitByte_toNat small
      exact ⟨digitByte n, [], decimal_of_lt small, by omega, by omega⟩
    · -- the leading digit is the one of `n / 10`
      have pushed := decimal_push (show 0 < n / 10 by omega) (show n % 10 < 10 by omega)
      rw [Nat.div_add_mod'] at pushed
      obtain ⟨c, rest, front, lead⟩ := ih (n / 10) (by omega) (by omega)
      exact ⟨c, rest ++ [digitByte (n % 10)], by rw [pushed, front, List.cons_append], lead⟩

theorem length_decimal_le_iff {k : Nat} (pos : 0 < k) : (decimal n).length ≤ k ↔ n < 10 ^ k := by
  unfold decimal
  split
  · next zero =>
    subst zero
    simp only [List.length_singleton]
    have : 0 < 10 ^ k := by positivity
    omega
  · rw [List.length_map, List.length_reverse]
    exact Nat.digits_length_le_iff (by omega) n

theorem lt_length_decimal_iff {k : Nat} (pos : 0 < k) : k < (decimal n).length ↔ 10 ^ k ≤ n := by
  rw [← Nat.not_le, length_decimal_le_iff pos, Nat.not_lt]

theorem length_decimal_eq (k : Nat) (low : 10 ^ k ≤ n) (high : n < 10 ^ (k + 1)) :
    (decimal n).length = k + 1 := by
  have atMost : (decimal n).length ≤ k + 1 := (length_decimal_le_iff (by omega)).mpr high
  rcases Nat.eq_zero_or_pos k with rfl | pos
  · have := List.length_pos_of_ne_nil (decimal_ne_nil n)
    omega
  · have more : k < (decimal n).length := (lt_length_decimal_iff pos).mpr low
    omega

theorem length_decimal_div {n : Nat} (big : 10 ≤ n) : (decimal n).length = (decimal (n / 10)).length + 1 := by
  have pushed := decimal_push (show 0 < n / 10 by omega) (show n % 10 < 10 by omega)
  rw [Nat.div_add_mod'] at pushed
  rw [pushed, List.length_append, List.length_singleton]

theorem length_decimal_div_pow (k : Nat) {n : Nat} (big : 10 ^ k ≤ n) :
    (decimal n).length = (decimal (n / 10 ^ k)).length + k := by
  induction k generalizing n with
  | zero => simp
  | succ k ih =>
    have tenth : 10 ^ k ≤ n / 10 := by
      rw [Nat.le_div_iff_mul_le (by omega), ← Nat.pow_succ]
      exact big
    rw [length_decimal_div (by have := Nat.one_le_pow k 10 (by omega); rw [Nat.pow_succ] at big; omega),
      ih tenth, Nat.div_div_eq_div_mul, show 10 * 10 ^ k = 10 ^ (k + 1) by rw [Nat.pow_succ']]
    omega

end Digits

section Reading

theorem readDigits_append (v : Nat) (ds : List UInt8) (c : UInt8) :
    readDigits v (ds ++ [c]) = readDigits v ds * 10 + (c.toNat - 48) := by
  rw [readDigits, List.foldl_append]
  rfl

theorem le_readDigits (v : Nat) (ds : List UInt8) : v ≤ readDigits v ds := by
  induction ds using List.reverseRecOn with
  | nil => exact Nat.le_refl v
  | append_singleton ds c ih =>
    rw [readDigits_append]
    omega

theorem readDigits_eq_mul_add (v : Nat) (ds : List UInt8) : readDigits v ds = v * 10 ^ ds.length + readDigits 0 ds := by
  induction ds using List.reverseRecOn with
  | nil => simp [readDigits]
  | append_singleton ds c ih =>
    rw [readDigits_append, readDigits_append, ih, List.length_append, List.length_singleton, Nat.pow_succ]
    ring

theorem readDigits_append_digits (v : Nat) (xs ys : List UInt8) :
    readDigits v (xs ++ ys) = readDigits v xs * 10 ^ ys.length + readDigits 0 ys := by
  have after : readDigits v (xs ++ ys) = readDigits (readDigits v xs) ys := List.foldl_append
  rw [after, readDigits_eq_mul_add]

theorem readDigits_zeros (k : Nat) (ds : List UInt8) : readDigits 0 (List.replicate k 48 ++ ds) = readDigits 0 ds := by
  have zeros : readDigits 0 (List.replicate k 48) = 0 := by
    induction k with
    | zero => rfl
    | succ k ih => rw [List.replicate_succ', readDigits_append, ih]; rfl
  rw [readDigits_append_digits, zeros, Nat.zero_mul, Nat.zero_add]

theorem readDigits_lt {ds : List UInt8} (digits : ∀ d ∈ ds, IsDigitByte d) : readDigits 0 ds < 10 ^ ds.length := by
  induction ds using List.reverseRecOn with
  | nil => simp [readDigits]
  | append_singleton ds c ih =>
    have digit := digits c (by simp)
    have before := ih fun d mem => digits d (List.mem_append_left _ mem)
    unfold IsDigitByte at digit
    rw [readDigits_append, List.length_append, List.length_singleton, Nat.pow_succ]
    omega

theorem readDigits_decimal (n : Nat) : readDigits 0 (decimal n) = n := by
  induction n using Nat.strong_induction_on with
  | _ n ih =>
    by_cases small : n < 10
    · rw [decimal_of_lt small, ← List.nil_append [digitByte n], readDigits_append, digitByte_toNat small]
      simp [readDigits]
    · have pushed := decimal_push (show 0 < n / 10 by omega) (show n % 10 < 10 by omega)
      rw [Nat.div_add_mod'] at pushed
      rw [pushed, readDigits_append, ih _ (by omega), digitByte_toNat (by omega)]
      omega

theorem decimal_readDigits {c : UInt8} {ds : List UInt8} (lead : 49 ≤ c.toNat ∧ c.toNat ≤ 57)
    (digits : ∀ d ∈ ds, IsDigitByte d) : decimal (readDigits (c.toNat - 48) ds) = c :: ds := by
  induction ds using List.reverseRecOn with
  | nil =>
    rw [readDigits, List.foldl_nil, decimal_of_lt (by omega), digitByte_sub ⟨by omega, lead.2⟩]
  | append_singleton ds d ih =>
    have digit := digits d (by simp)
    have before := ih fun e mem => digits e (List.mem_append_left _ mem)
    have pos : 0 < readDigits (c.toNat - 48) ds :=
      Nat.lt_of_lt_of_le (by omega) (le_readDigits (c.toNat - 48) ds)
    unfold IsDigitByte at digit
    rw [readDigits_append, decimal_push pos (by omega), before, digitByte_sub ⟨digit.1, digit.2⟩]
    rfl

end Reading

end Foundations
