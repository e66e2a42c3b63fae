import Kv.Foundations.Decimal
import Kv.Foundations.Bytes

/-!
The conversions between long longs and their decimal text in util.c:
digits10, ull2string and ll2string, which write the digits two at a time from
the end of the buffer, and string2llScalar, the strict parser. Text is bytes.
A write through an index that C would wrap below zero is `none`, as is a write
past the buffer. string2ll is string2llScalar here; the AVX-512 variant that the
dispatch picks on some CPUs is String2llAvx512's, which returns the same.
-/

namespace Kv.Util

open Foundations

def ullongMax : Nat := 2 ^ 64 - 1

def llongMax : Nat := 2 ^ 63 - 1

def longStrSize : Nat := 21

/-- The number of decimal digits of `v`. -/
def digits10 (v : Nat) : Nat :=
  if v < 10 then 1
  else if v < 100 then 2
  else if v < 1000 then 3
  else if v < 1000000000000 then
    if v < 100000000 then
      if v < 1000000 then
        if v < 10000 then 4 else 5 + (if v ≥ 100000 then 1 else 0)
      else 7 + (if v ≥ 10000000 then 1 else 0)
    else if v < 10000000000 then 9 + (if v ≥ 1000000000 then 1 else 0)
    else 11 + (if v ≥ 100000000000 then 1 else 0)
  else 12 + digits10 (v / 1000000000000)
termination_by v
decreasing_by omega

def digitsTable (k : Nat) : UInt8 := digitByte (if k % 2 = 0 then k / 2 / 10 else k / 2 % 10)

def writeAt (dst : List UInt8) (pos : Int) (byte : UInt8) : Option (List UInt8) :=
  if pos < 0 then none else writeBytes dst pos.toNat [byte]

def ull2stringLoop (dst : List UInt8) (value : Nat) (next : Int) : Option (List UInt8) :=
  if 100 ≤ value then do
    let i := value % 100 * 2
    let dst ← writeAt dst next (digitsTable (i + 1))
    let dst ← writeAt dst (next - 1) (digitsTable i)
    ull2stringLoop dst (value / 100) (next - 2)
  else if value < 10 then writeAt dst next (digitByte value)
  else do
    let i := value * 2
    let dst ← writeAt dst next (digitsTable (i + 1))
    writeAt dst (next - 1) (digitsTable i)
termination_by value
decreasing_by omega

/-- ull2string into a buffer of `dstlen` bytes: the `length` bytes it returns the length of, none for an
access outside the buffer, and no bytes when the digits and the terminating zero do not fit. -/
def ull2string (dstlen value : Nat) : Option (List UInt8) :=
  let length := digits10 value
  if length ≥ dstlen then some []
  else do
    let dst ← writeBytes (List.replicate dstlen 0) length [0]
    let dst ← ull2stringLoop dst value ((length : Int) - 1)
    some (dst.take length)

/-- ll2string: the sign, then the digits of the magnitude (-svalue, or LLONG_MAX + 1 for LLONG_MIN). -/
def ll2string (dstlen : Nat) (svalue : Int64) : Option (List UInt8) :=
  if svalue.toInt < 0 then
    if dstlen < 2 then some []
    else do
      let digits ← ull2string (dstlen - 1) svalue.toInt.natAbs
      if digits = [] then some [] else some (45 :: digits)
  else ull2string dstlen svalue.toInt.toNat

def string2llLoop (v : Nat) : List UInt8 → Option (Nat × List UInt8)
  | [] => some (v, [])
  | c :: rest =>
    if IsDigitByte c then
      if v > ullongMax / 10 then none
      else if v * 10 > ullongMax - (c.toNat - 48) then none
      else string2llLoop (v * 10 + (c.toNat - 48)) rest
    else some (v, c :: rest)

/-- string2llScalar: the long long the bytes strictly represent, or none where it returns 0. -/
def string2llScalar (s : List UInt8) : Option Int64 :=
  if s.length = 0 ∨ s.length ≥ longStrSize then none
  -- the first and only digit
  else if s.length = 1 ∧ IsDigitByte (s.headD 0) then some (Int64.ofNat ((s.headD 0).toNat - 48))
  else
    let negative := s.headD 0 = 45
    let p := if negative then s.tail else s
    if negative ∧ p = [] then none
    else
      match p with
      | c :: rest =>
        -- the first digit is 1 to 9, otherwise the string should just be 0
        if 49 ≤ c.toNat ∧ c.toNat ≤ 57 then
          match string2llLoop (c.toNat - 48) rest with
          | some (v, []) =>
            if negative then (if v > llongMax + 1 then none else some (Int64.ofInt (-(v : Int))))
            else (if v > llongMax then none else some (Int64.ofNat v))
          | _ => none
        else none
      | [] => none

def string2ll (s : List UInt8) : Option Int64 := string2llScalar s

section Writing

theorem digits10_eq_length (v : Nat) : digits10 v = (decimal v).length := by
  induction v using Nat.strong_induction_on with
  | _ v ih =>
    rw [digits10]
    -- each branch bounds `v` between two powers of ten
    by_cases one : v < 10
    · rw [if_pos one, decimal_of_lt one]
      rfl
    rw [if_neg one]
    by_cases two : v < 100
    · rw [if_pos two, length_decimal_eq 1 (by omega) (by omega)]
    rw [if_neg two]
    by_cases three : v < 1000
    · rw [if_pos three, length_decimal_eq 2 (by omega) (by omega)]
    rw [if_neg three]
    by_cases twelve : v < 1000000000000
    · rw [if_pos twelve]
      by_cases eight : v < 100000000
      · rw [if_pos eight]
        by_cases six : v < 1000000
        · rw [if_pos six]
          by_cases four : v < 10000
          · rw [if_pos four, length_decimal_eq 3 (by omega) (by omega)]
          · rw [if_neg four]
            split
            · rw [length_decimal_eq 5 (by omega) (by omega)]
            · rw [length_decimal_eq 4 (by omega) (by omega)]
        · rw [if_neg six]
          split
          · rw [length_decimal_eq 7 (by omega) (by omega)]
          · rw [length_decimal_eq 6 (by omega) (by omega)]
      · rw [if_neg eight]
        by_cases ten : v < 10000000000
        · rw [if_pos ten]
          split
          · rw [length_decimal_eq 9 (by omega) (by omega)]
          · rw [length_decimal_eq 8 (by omega) (by omega)]
        · rw [if_neg ten]
          split
          · rw [length_decimal_eq 11 (by omega) (by omega)]
          · rw [length_decimal_eq 10 (by omega) (by omega)]
    · -- twelve digits at a time
      rw [if_neg twelve, ih _ (by omega), length_decimal_div_pow 12 (show 10 ^ 12 ≤ v by omega),
        show (10 : Nat) ^ 12 = 1000000000000 by norm_num]
      omega

theorem digitsTable_tens (r : Nat) : digitsTable (r * 2) = digitByte (r / 10) := by
  rw [digitsTable, if_pos (by omega)]
  congr 1
  omega

theorem digitsTable_units (r : Nat) : digitsTable (r * 2 + 1) = digitByte (r % 10) := by
  rw [digitsTable, if_neg (by omega)]
  congr 1
  omega

theorem writeAt_cons (pre post : List UInt8) (old new : UInt8) {pos : Int} (at_ : pos = pre.length) :
    writeAt (pre ++ old :: post) pos new = some (pre ++ new :: post) := by
  rw [writeAt, if_neg (by omega), at_, Int.toNat_natCast, writeBytes_cons]

theorem exists_append_pair {l : List UInt8} (two : 2 ≤ l.length) : ∃ init a b, l = init ++ [a, b] := by
  rcases l.eq_nil_or_concat with rfl | ⟨rest, b, rfl⟩
  · simp at two
  rcases rest.eq_nil_or_concat with rfl | ⟨init, a, rfl⟩
  · simp at two
  exact ⟨init, a, b, by simp⟩

theorem writeAt_pair (pre post : List UInt8) (a b tens units : UInt8) {next : Int} (at_ : next = pre.length + 1) :
    ((writeAt (pre ++ [a, b] ++ post) next units).bind fun dst => writeAt dst (next - 1) tens) =
      some (pre ++ [tens, units] ++ post) := by
  have first := writeAt_cons (pre ++ [a]) post b units (by simp; omega)
  have second := writeAt_cons pre (units :: post) a tens (show next - 1 = pre.length by omega)
  simp only [List.append_assoc, List.cons_append, List.nil_append] at first second ⊢
  rw [first, Option.bind_some, second]

theorem ull2stringLoop_spec (value : Nat) (pre old post : List UInt8) (size : old.length = (decimal value).length) :
    ull2stringLoop (pre ++ old ++ post) value ((pre.length + old.length : Nat) - 1 : Int) =
      some (pre ++ decimal value ++ post) := by
  induction value using Nat.strong_induction_on generalizing old post with
  | _ value ih =>
    rw [ull2stringLoop]
    by_cases many : 100 ≤ value
    · -- two digits at the end, then the numeral of `value / 100` before them
      rw [if_pos many]
      have pushed := decimal_push_pair (show 0 < value / 100 by omega) (show value % 100 < 100 by omega)
      rw [Nat.div_add_mod'] at pushed
      obtain ⟨old', a, b, rfl⟩ := exists_append_pair (show 2 ≤ old.length by rw [size, pushed]; simp)
      have size' : old'.length = (decimal (value / 100)).length := by
        rw [pushed] at size
        simp at size
        exact size
      have pair := writeAt_pair (pre ++ old') post a b (digitsTable (value % 100 * 2))
        (digitsTable (value % 100 * 2 + 1))
        (show ((pre.length + (old' ++ [a, b]).length : Nat) - 1 : Int) = ((pre ++ old').length : Int) + 1 by simp; omega)
      simp only [Option.bind_eq_bind, List.append_assoc] at pair ⊢
      rw [← Option.bind_assoc, pair, Option.bind_some,
        show ((pre.length + (old' ++ [a, b]).length : Nat) - 1 - 2 : Int) = ((pre.length + old'.length : Nat) - 1 : Int)
          by simp; omega, ← List.append_assoc pre old', ih _ (by omega) old' _ size', digitsTable_tens,
        digitsTable_units, pushed]
      simp
    rw [if_neg many]
    by_cases one : value < 10
    · -- the last digit alone
      rw [if_pos one]
      rw [decimal_of_lt one] at size ⊢
      obtain ⟨a, rfl⟩ : ∃ a, old = [a] := List.length_eq_one_iff.mp size
      rw [List.append_assoc, List.singleton_append, writeAt_cons pre post a _ (by simp)]
      simp
    · -- the last two digits, as a pair of the table
      rw [if_neg one]
      have pushed := decimal_push (show 0 < value / 10 by omega) (show value % 10 < 10 by omega)
      rw [Nat.div_add_mod', decimal_of_lt (show value / 10 < 10 by omega)] at pushed
      rw [pushed] at size ⊢
      obtain ⟨init, a, b, rfl⟩ := exists_append_pair (show 2 ≤ old.length by rw [size]; simp)
      have empty : init = [] := by simpa using size
      subst empty
      have pair := writeAt_pair pre post a b (digitsTable (value * 2)) (digitsTable (value * 2 + 1))
        (show ((pre.length + ([] ++ [a, b]).length : Nat) - 1 : Int) = (pre.length : Int) + 1 by simp; omega)
      simp only [Option.bind_eq_bind, List.nil_append] at pair ⊢
      rw [pair, digitsTable_tens, digitsTable_units]
      simp

theorem ull2string_eq {dstlen value : Nat} (fits : (decimal value).length < dstlen) :
    ull2string dstlen value = some (decimal value) := by
  set length := (decimal value).length with lengthEq
  have split : List.replicate dstlen (0 : UInt8) = List.replicate length 0 ++ List.replicate (dstlen - length) 0 := by
    rw [← List.replicate_add]
    congr 1
    omega
  -- the terminating zero at `length`, then the digits before it
  have zero : writeBytes (List.replicate dstlen 0) length [0] =
      some (List.replicate length 0 ++ [0] ++ List.replicate (dstlen - length - 1) 0) := by
    rw [split, writeBytes_append (by simp) (by simp; omega), List.drop_replicate]
    rfl
  have digits := ull2stringLoop_spec value [] (List.replicate length 0)
    ([0] ++ List.replicate (dstlen - length - 1) 0) (by simp [lengthEq])
  simp only [List.nil_append, List.length_nil, Nat.zero_add, List.length_replicate] at digits
  unfold ull2string
  rw [digits10_eq_length, ← lengthEq, if_neg (by omega)]
  simp only [Option.bind_eq_bind, zero, Option.bind_some, List.append_assoc, digits]
  rw [lengthEq, List.take_left]

theorem length_decimal_natAbs (v : Int64) : (decimal v.toInt.natAbs).length ≤ 19 := by
  have below := Int64.toInt_lt v
  have above := Int64.le_toInt v
  exact (length_decimal_le_iff (by omega)).mpr (by omega)

theorem ll2string_eq {dstlen : Nat} (fits : longStrSize ≤ dstlen) (v : Int64) :
    ll2string dstlen v =
      some (if v.toInt < 0 then 45 :: decimal v.toInt.natAbs else decimal v.toInt.toNat) := by
  have short := length_decimal_natAbs v
  unfold longStrSize at fits
  unfold ll2string
  split
  · next negative =>
    rw [if_neg (by omega), ull2string_eq (by omega)]
    simp [decimal_ne_nil]
  · next nonneg =>
    have same : v.toInt.toNat = v.toInt.natAbs := by omega
    rw [same, ull2string_eq (by omega)]

end Writing

section Parsing

theorem string2llLoop_spec {v n : Nat} {ds : List UInt8} (parsed : string2llLoop v ds = some (n, [])) :
    (∀ d ∈ ds, IsDigitByte d) ∧ n = readDigits v ds := by
  induction ds generalizing v with
  | nil =>
    simp only [string2llLoop, Option.some.injEq, Prod.mk.injEq, and_true] at parsed
    exact ⟨by simp, parsed.symm⟩
  | cons c rest ih =>
    rw [string2llLoop] at parsed
    by_cases digit : IsDigitByte c
    · rw [if_pos digit] at parsed
      -- past the two overflow checks, the loop goes on from the value times ten plus the digit
      split at parsed
      · cases parsed
      split at parsed
      · cases parsed
      obtain ⟨digits, value⟩ := ih parsed
      exact ⟨fun d mem => (List.mem_cons.mp mem).elim (· ▸ digit) (digits d), value⟩
    · rw [if_neg digit] at parsed
      cases parsed

theorem string2llLoop_numeral {c : UInt8} {rest : List UInt8} {n : Nat} (lead : 49 ≤ c.toNat ∧ c.toNat ≤ 57)
    (parsed : string2llLoop (c.toNat - 48) rest = some (n, [])) : decimal n = c :: rest ∧ 0 < n := by
  obtain ⟨digits, rfl⟩ := string2llLoop_spec parsed
  exact ⟨decimal_readDigits lead digits, Nat.lt_of_lt_of_le (by omega) (le_readDigits _ rest)⟩

theorem string2llScalar_canonical {s : List UInt8} {v : Int64} (parsed : string2llScalar s = some v) :
    s = if v.toInt < 0 then 45 :: decimal v.toInt.natAbs else decimal v.toInt.toNat := by
  unfold string2llScalar at parsed
  by_cases sized : s.length = 0 ∨ s.length ≥ longStrSize
  · rw [if_pos sized] at parsed
    cases parsed
  rw [if_neg sized] at parsed
  obtain ⟨c0, s', rfl⟩ : ∃ c0 s', s = c0 :: s' := List.exists_cons_of_ne_nil fun empty => sized (.inl (by simp [empty]))
  simp only [List.headD_cons, List.tail_cons, List.length_cons] at parsed
  by_cases single : s'.length + 1 = 1 ∧ IsDigitByte c0
  · -- a single digit
    simp only [single] at parsed
    obtain ⟨one, digit⟩ := single
    cases parsed
    obtain rfl : s' = [] := List.eq_nil_of_length_eq_zero (by omega)
    have value : (Int64.ofNat (c0.toNat - 48)).toInt = ((c0.toNat - 48 : Nat) : Int) :=
      Int64.toInt_ofNat_of_lt (by unfold IsDigitByte at digit; omega)
    unfold IsDigitByte at digit
    rw [value, if_neg (by omega), Int.toNat_natCast, decimal_of_lt (by omega), digitByte_sub ⟨digit.1, digit.2⟩]
  simp only [single] at parsed
  unfold llongMax at parsed
  by_cases neg : c0 = 45
  · -- a minus sign, then the digits of the magnitude
    subst neg
    simp only [if_true, true_and] at parsed
    cases s' with
    | nil => simp at parsed
    | cons c rest =>
      simp only [reduceCtorEq, if_false] at parsed
      by_cases lead : 49 ≤ c.toNat ∧ c.toNat ≤ 57
      · simp only [lead, and_self, if_true] at parsed
        cases loop : string2llLoop (c.toNat - 48) rest with
        | none => simp [loop] at parsed
        | some r =>
          obtain ⟨n, left⟩ := r
          cases left with
          | cons => simp [loop] at parsed
          | nil =>
            simp only [loop] at parsed
            by_cases big : n > 2 ^ 63 - 1 + 1
            · simp only [big, if_true, reduceCtorEq] at parsed
            simp only [big, if_false, Option.some.injEq] at parsed
            subst parsed
            obtain ⟨numeral, pos⟩ := string2llLoop_numeral lead loop
            rw [Int64.toInt_ofInt_of_le (by omega) (by omega), if_pos (by omega), Int.natAbs_neg, Int.natAbs_natCast,
              numeral]
      · simp [lead] at parsed
  · -- the digits of the value
    simp only [neg, if_false, false_and] at parsed
    by_cases lead : 49 ≤ c0.toNat ∧ c0.toNat ≤ 57
    · simp only [lead, and_self, if_true] at parsed
      cases loop : string2llLoop (c0.toNat - 48) s' with
      | none => simp [loop] at parsed
      | some r =>
        obtain ⟨n, left⟩ := r
        cases left with
        | cons => simp [loop] at parsed
        | nil =>
          simp only [loop] at parsed
          by_cases big : n > 2 ^ 63 - 1
          · simp only [big, if_true, reduceCtorEq] at parsed
          simp only [big, if_false, Option.some.injEq] at parsed
          subst parsed
          obtain ⟨numeral, pos⟩ := string2llLoop_numeral lead loop
          rw [Int64.toInt_ofNat_of_lt (by omega), if_neg (by omega), Int.toNat_natCast, numeral]
    · simp [lead] at parsed

theorem string2llLoop_of_le {v : Nat} {ds : List UInt8} (digits : ∀ d ∈ ds, IsDigitByte d)
    (bound : readDigits v ds ≤ ullongMax) : string2llLoop v ds = some (readDigits v ds, []) := by
  induction ds generalizing v with
  | nil => rfl
  | cons c rest ih =>
    have digit := digits c (List.mem_cons_self ..)
    have reads : readDigits v (c :: rest) = readDigits (v * 10 + (c.toNat - 48)) rest := rfl
    -- the value after this digit is at most the final one
    have step : v * 10 + (c.toNat - 48) ≤ ullongMax := le_trans (le_readDigits _ rest) (reads ▸ bound)
    unfold ullongMax at step
    rw [string2llLoop, if_pos digit, if_neg (by unfold ullongMax; omega), if_neg (by unfold ullongMax; omega), reads]
    exact ih (fun d mem => digits d (List.mem_cons_of_mem c mem)) (reads ▸ bound)

theorem string2llLoop_digits {v : Nat} {ds : List UInt8} (digits : ∀ d ∈ ds, IsDigitByte d) (start : v ≤ ullongMax) :
    string2llLoop v ds = if readDigits v ds ≤ ullongMax then some (readDigits v ds, []) else none := by
  induction ds generalizing v with
  | nil =>
    show string2llLoop v [] = if v ≤ ullongMax then some (v, []) else none
    rw [if_pos start]
    rfl
  | cons c rest ih =>
    have digit := digits c List.mem_cons_self
    have reads : readDigits v (c :: rest) = readDigits (v * 10 + (c.toNat - 48)) rest := rfl
    have after := le_readDigits (v * 10 + (c.toNat - 48)) rest
    rw [string2llLoop, if_pos digit, reads]
    unfold IsDigitByte at digit
    unfold ullongMax at start after ⊢
    by_cases room : v * 10 + (c.toNat - 48) ≤ 2 ^ 64 - 1
    · -- both checks pass, and the loop goes on from the value with this digit
      rw [if_neg (by omega), if_neg (by omega)]
      exact ih (fun d mem => digits d (List.mem_cons_of_mem c mem)) room
    · -- one of the checks fails, as the reading is past ULLONG_MAX
      rw [if_neg (show ¬readDigits (v * 10 + (c.toNat - 48)) rest ≤ 2 ^ 64 - 1 by omega)]
      split_ifs
      · rfl
      · rfl
      · omega

theorem string2llLoop_decimal {n : Nat} (pos : 0 < n) (bound : n ≤ ullongMax) :
    ∃ c rest, decimal n = c :: rest ∧ (49 ≤ c.toNat ∧ c.toNat ≤ 57) ∧
      string2llLoop (c.toNat - 48) rest = some (n, []) := by
  obtain ⟨c, rest, front, lead⟩ := decimal_lead pos
  have reads : readDigits (c.toNat - 48) rest = n := by
    have whole := readDigits_decimal n
    rwa [front, readDigits, List.foldl_cons, Nat.zero_mul, Nat.zero_add] at whole
  have digits : ∀ d ∈ rest, IsDigitByte d := fun d mem =>
    isDigitByte_of_mem_decimal (front ▸ List.mem_cons_of_mem c mem)
  refine ⟨c, rest, front, lead, ?_⟩
  rw [string2llLoop_of_le digits (reads ▸ bound), reads]

theorem string2llScalar_ll2string (v : Int64) :
    string2llScalar (if v.toInt < 0 then 45 :: decimal v.toInt.natAbs else decimal v.toInt.toNat) = some v := by
  have below := Int64.toInt_lt v
  have above := Int64.le_toInt v
  have short := length_decimal_natAbs v
  unfold string2llScalar longStrSize
  by_cases negative : v.toInt < 0
  · -- a minus sign, then the numeral of a magnitude up to LLONG_MAX + 1
    rw [if_pos negative]
    obtain ⟨c, rest, front, lead, loop⟩ :=
      string2llLoop_decimal (show 0 < v.toInt.natAbs by omega) (by unfold ullongMax; omega)
    rw [front, List.length_cons] at short
    rw [front]
    simp only [List.length_cons, List.headD_cons, List.tail_cons, if_true, reduceCtorEq, and_false, if_false, false_or, loop]
    rw [if_neg (by omega), if_neg (fun single => absurd single.1 (by omega)), if_pos lead,
      if_neg (by unfold llongMax; omega)]
    congr 1
    apply Int64.toInt_inj.mp
    rw [Int64.toInt_ofInt_of_le (by omega) (by omega)]
    omega
  · rw [if_neg negative]
    by_cases single : v.toInt < 10
    · -- one digit
      rw [decimal_of_lt (show v.toInt.toNat < 10 by omega)]
      have byte := digitByte_toNat (show v.toInt.toNat < 10 by omega)
      rw [if_neg (by simp), if_pos ⟨rfl, by unfold IsDigitByte; simp only [List.headD_cons]; omega⟩]
      congr 1
      apply Int64.toInt_inj.mp
      rw [List.headD_cons, byte, Int64.toInt_ofNat_of_lt (by omega)]
      omega
    · -- the numeral of a value from 10 to LLONG_MAX
      have two := (lt_length_decimal_iff (k := 1) (by omega)).mpr (show 10 ^ 1 ≤ v.toInt.toNat by omega)
      obtain ⟨c, rest, front, lead, loop⟩ :=
        string2llLoop_decimal (show 0 < v.toInt.toNat by omega) (by unfold ullongMax; omega)
      have digitsShort : (decimal v.toInt.toNat).length ≤ 19 := by
        rw [show v.toInt.toNat = v.toInt.natAbs by omega]
        exact short
      rw [front] at two digitsShort ⊢
      have notSign : c ≠ 45 := fun sign => by rw [sign] at lead; simp at lead
      simp only [List.length_cons] at two digitsShort
      simp only [List.length_cons, List.headD_cons, notSign, if_false, false_and, loop]
      rw [if_neg (by omega), if_neg (by omega), if_pos lead, if_neg (by unfold llongMax; omega)]
      congr 1
      apply Int64.toInt_inj.mp
      rw [Int64.toInt_ofNat_of_lt (by omega)]
      omega

/-- string2ll and ll2string are inverse on canonical text: string2ll reads back every long long that ll2string
writes into a buffer of LONG_STR_SIZE bytes or more, and ll2string writes back exactly the text of every value
that string2ll accepts. -/
theorem string2ll_ll2string_inverse :
    (∀ dstlen, longStrSize ≤ dstlen → ∀ v : Int64, ∃ text, ll2string dstlen v = some text ∧ string2ll text = some v) ∧
      (∀ s v, string2ll s = some v → ∀ dstlen, longStrSize ≤ dstlen → ll2string dstlen v = some s) := by
  constructor
  · intro dstlen fits v
    exact ⟨_, ll2string_eq fits v, string2llScalar_ll2string v⟩
  · intro s v parsed dstlen fits
    rw [ll2string_eq fits v, ← string2llScalar_canonical parsed]

theorem string2ll_ll2string_inverse_llongMin :
    (∃ text, ll2string 21 (-9223372036854775808) = some text ∧ string2ll text = some (-9223372036854775808)) ∧
      ll2string 21 0 = some [48] :=
  ⟨string2ll_ll2string_inverse.1 21 (by decide) _,
    string2ll_ll2string_inverse.2 [48] 0 (by decide) 21 (by decide)⟩

end Parsing

end Kv.Util
