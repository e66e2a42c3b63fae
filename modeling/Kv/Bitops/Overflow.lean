import Kv.Bitops.Bitfield
import Kv.Util.Conversions

/-!
The overflow checks of BITFIELD in bitops.c, checkUnsignedBitfieldOverflow and
checkSignedBitfieldOverflow, and the SET and INCRBY branch of bitfieldGeneric
that uses them. A check is modelled with a non-NULL `limit`, as bitfieldGeneric
calls it: it returns the check's value and what it stores in `*limit`, none
when it stores nothing. What the command is meant to do is `bitfieldTarget`:
the result over unbounded integers, kept when the field holds it, and
otherwise wrapped, saturated or refused.
-/

namespace Kv.Bitops

open Foundations

inductive BfOverflow
  | wrap
  | sat
  | fail
  deriving DecidableEq, Repr

/-- checkUnsignedBitfieldOverflow. -/
def checkUnsignedBitfieldOverflow (value : UInt64) (incr : Int64) (bits : Nat) (owtype : BfOverflow) :
    Int × Option UInt64 :=
  let max : UInt64 := if bits = 64 then UInt64.ofNat (2 ^ 64 - 1) else ((1 : UInt64) <<< bits.toUInt64) - 1
  let maxincr : Int64 := (max - value).toInt64
  let minincr : Int64 := (-value).toInt64
  -- handle_wrap
  let wrapped : UInt64 := (value + incr.toUInt64) &&& ~~~((-1 : UInt64) <<< bits.toUInt64)
  if value > max ∨ (incr > 0 ∧ incr > maxincr) then
    match owtype with
    | .wrap => (1, some wrapped)
    | .sat => (1, some max)
    | .fail => (1, none)
  else if incr < 0 ∧ incr < minincr then
    match owtype with
    | .wrap => (1, some wrapped)
    | .sat => (-1, some 0)
    | .fail => (-1, none)
  else (0, none)

/-- checkSignedBitfieldOverflow. -/
def checkSignedBitfieldOverflow (value incr : Int64) (bits : Nat) (owtype : BfOverflow) : Int × Option Int64 :=
  let max : Int64 := if bits = 64 then Int64.maxValue else ((1 : Int64) <<< (bits - 1).toInt64) - 1
  let min : Int64 := -max - 1
  -- max and min less value, subtracted as unsigned to avoid undefined behaviour
  let maxincr : Int64 := (max.toUInt64 - value.toUInt64).toInt64
  let minincr : Int64 := (min.toUInt64 - value.toUInt64).toInt64
  -- handle_wrap: the sum as unsigned, with the field's sign bit propagated above it
  let msb : UInt64 := (1 : UInt64) <<< (bits - 1).toUInt64
  let c : UInt64 := value.toUInt64 + incr.toUInt64
  let mask : UInt64 := (-1 : UInt64) <<< bits.toUInt64
  let wrapped : Int64 := (if bits < 64 then (if c &&& msb ≠ 0 then c ||| mask else c &&& ~~~mask) else c).toInt64
  if value > max ∨ (bits ≠ 64 ∧ incr > maxincr) ∨ (value ≥ 0 ∧ incr > 0 ∧ incr > maxincr) then
    match owtype with
    | .wrap => (1, some wrapped)
    | .sat => (1, some max)
    | .fail => (1, none)
  else if value < min ∨ (bits ≠ 64 ∧ incr < minincr) ∨ (value < 0 ∧ incr < 0 ∧ incr < minincr) then
    match owtype with
    | .wrap => (1, some wrapped)
    | .sat => (-1, some min)
    | .fail => (-1, none)
  else (0, none)

def fieldMin (sign : Bool) (bits : Nat) : Int := if sign then -2 ^ (bits - 1) else 0

def fieldMax (sign : Bool) (bits : Nat) : Int := if sign then 2 ^ (bits - 1) - 1 else 2 ^ bits - 1

def bitfieldTarget (sign : Bool) (bits : Nat) (owtype : BfOverflow) (r : Int) : Option Int :=
  if fieldMin sign bits ≤ r ∧ r ≤ fieldMax sign bits then some r
  else
    match owtype with
    | .wrap => some (if sign then toSignedBits bits (r % 2 ^ bits).toNat else r % 2 ^ bits)
    | .sat => some (if fieldMax sign bits < r then fieldMax sign bits else fieldMin sign bits)
    | .fail => none

inductive BitfieldOpcode
  | get
  | set
  | incrby
  deriving DecidableEq, Repr

structure BitfieldOp where
  offset : Nat
  i64 : Int64
  opcode : BitfieldOpcode
  owtype : BfOverflow
  bits : Nat
  sign : Bool
  deriving DecidableEq, Repr

/-- The SET and INCRBY branch of bitfieldGeneric's loop for a signed field of the string `s`: the reply, none for
the null reply, and the string after the operation. -/
def bitfieldSignedWrite (s : List UInt8) (op : BitfieldOp) : Option (Option Int × List UInt8) := do
  let oldval ← getSignedBitfield s op.offset op.bits
  let check := if op.opcode = .incrby then checkSignedBitfieldOverflow oldval op.i64 op.bits op.owtype
    else checkSignedBitfieldOverflow op.i64 0 op.bits op.owtype
  let overflow := check.1
  -- `wrapped` is read only where the check stored it
  let newval := if overflow ≠ 0 then check.2.getD 0 else if op.opcode = .incrby then oldval + op.i64 else op.i64
  let retval := if op.opcode = .incrby then newval else oldval
  -- on an overflow with FAIL nothing is written and the reply is null
  if overflow ≠ 0 ∧ op.owtype = .fail then some (none, s)
  else do
    let s ← setSignedBitfield s op.offset op.bits newval
    some (some retval.toInt, s)

/-- The SET and INCRBY branch of bitfieldGeneric's loop for an unsigned field of the string `s`. -/
def bitfieldUnsignedWrite (s : List UInt8) (op : BitfieldOp) : Option (Option Int × List UInt8) := do
  let oldval ← getUnsignedBitfield s op.offset op.bits
  let check := if op.opcode = .incrby then checkUnsignedBitfieldOverflow oldval op.i64 op.bits op.owtype
    else checkUnsignedBitfieldOverflow op.i64.toUInt64 0 op.bits op.owtype
  let overflow := check.1
  -- `wrapped` starts at 0, which it keeps where the check does not store it
  let newval := if overflow ≠ 0 then check.2.getD 0
    else if op.opcode = .incrby then oldval + op.i64.toUInt64 else op.i64.toUInt64
  let retval := if op.opcode = .incrby then newval else oldval
  if overflow ≠ 0 ∧ op.owtype = .fail then some (none, s)
  else do
    let s ← setUnsignedBitfield s op.offset op.bits newval
    some (some retval.toInt64.toInt, s)

def bitfieldTypeErr : String :=
  "Invalid bitfield type. Use something like i16 u8. Note that u64 is not supported but i64 is."

/-- getBitfieldTypeFromArgument: the sign and width of a type, i or u and then 1 to 64 bits, unsigned 64 bits
refused. The first byte of an empty argument is its terminating zero. -/
def getBitfieldTypeFromArgument (p : List UInt8) : Except String (Bool × Nat) :=
  if p.head? ≠ some 105 ∧ p.head? ≠ some 117 then .error bitfieldTypeErr
  else
    let sign := decide (p.head? = some 105)
    match Util.string2ll (p.drop 1) with
    | none => .error bitfieldTypeErr
    | some llbits =>
      if llbits < 1 ∨ (sign = true ∧ llbits > 64) ∨ (sign = false ∧ llbits > 63) then .error bitfieldTypeErr
      else .ok (sign, llbits.toInt.toNat)

theorem getBitfieldTypeFromArgument_width (p : List UInt8) :
    (∀ sign bits, getBitfieldTypeFromArgument p = .ok (sign, bits) →
      0 < bits ∧ bits ≤ 64 ∧ (sign = false → bits < 64)) ∧
    (∀ e, getBitfieldTypeFromArgument p = .error e → e = bitfieldTypeErr) := by
  unfold getBitfieldTypeFromArgument
  split
  · simp
  · split
    · simp
    · next llbits _ =>
      dsimp only
      split
      · simp
      · next valid =>
        have one : (1 : Int64).toInt = 1 := by decide
        have signedMax : (64 : Int64).toInt = 64 := by decide
        have unsignedMax : (63 : Int64).toInt = 63 := by decide
        simp only [Int64.lt_iff_toInt_lt, GT.gt, one, signedMax, unsignedMax] at valid
        refine ⟨fun sign bits ok => ?_, fun e err => by cases err⟩
        cases ok
        -- the width is checked against the sign's own bound
        cases signed : decide (p.head? = some 105)
        · simp only [signed, Bool.false_eq_true, true_and, false_and, false_or] at valid
          exact ⟨by omega, by omega, fun _ => by omega⟩
        · simp only [signed, Bool.true_eq_false, true_and, false_and, or_false] at valid
          exact ⟨by omega, by omega, fun unsigned => by cases unsigned⟩

example : getBitfieldTypeFromArgument [105, 54, 52] = .ok (true, 64) := rfl

example : getBitfieldTypeFromArgument [117, 54, 52] = .error bitfieldTypeErr := rfl

section Words

theorem toNat_unsignedMax {bits : Nat} (narrow : bits < 64) :
    (((1 : UInt64) <<< bits.toUInt64) - 1).toNat = 2 ^ bits - 1 := by
  have one := toNat_one_shiftLeft narrow
  have positive := Nat.two_pow_pos bits
  rw [UInt64.toNat_sub_of_le _ _ (by rw [UInt64.le_iff_toNat_le, one]; exact positive), one]
  rfl

theorem toInt_signedMax {bits : Nat} (pos : 0 < bits) (narrow : bits < 64) :
    (((1 : Int64) <<< (bits - 1).toInt64) - 1).toInt = 2 ^ (bits - 1) - 1 := by
  have pow : (2 : Int) ^ (bits - 1) < 2 ^ 63 := by exact_mod_cast Nat.pow_lt_pow_right (by omega) (by omega)
  have positive : (0 : Int) < 2 ^ (bits - 1) := by exact_mod_cast Nat.two_pow_pos (bits - 1)
  have shift : ((1 : Int64) <<< (bits - 1).toInt64).toInt = 2 ^ (bits - 1) := by
    have msb : (BitVec.ofNat 64 (bits - 1)).msb = false := by
      rw [BitVec.msb_eq_false_iff_two_mul_lt, BitVec.toNat_ofNat]
      omega
    have m64 : (64#64).msb = false := by decide
    rw [← Int64.toInt_toBitVec, Int64.toBitVec_shiftLeft]
    simp [BitVec.smod, msb, m64, Nat.mod_eq_of_lt (show bits - 1 < 64 by omega), Nat.shiftLeft_eq]
    exact Int.bmod_eq_of_le_mul_two (x := 2 ^ (bits - 1)) (y := 18446744073709551616) (by omega) (by omega)
  rw [Int64.toInt_sub, shift, Int64.toInt_one]
  exact Int.bmod_eq_of_le_mul_two (x := 2 ^ (bits - 1) - 1) (y := 18446744073709551616) (by omega) (by omega)

theorem toInt_max {bits : Nat} (pos : 0 < bits) (wide : bits ≤ 64) :
    (if bits = 64 then Int64.maxValue else ((1 : Int64) <<< (bits - 1).toInt64) - 1).toInt = 2 ^ (bits - 1) - 1 := by
  split
  · next sixtyFour =>
    subst sixtyFour
    rfl
  · exact toInt_signedMax pos (by omega)

theorem toNat_fieldMask {bits : Nat} (narrow : bits < 64) :
    (~~~((-1 : UInt64) <<< bits.toUInt64)).toNat = 2 ^ bits - 1 := by
  have pow : 2 ^ bits ≤ 2 ^ 64 := Nat.pow_le_pow_right (by omega) (by omega)
  have ones : (2 ^ (64 - bits) - 1) <<< bits = 2 ^ 64 - 2 ^ bits := by
    rw [Nat.shiftLeft_eq, Nat.sub_mul, ← Nat.pow_add, Nat.sub_add_cancel (by omega), Nat.one_mul]
  rw [UInt64.toNat_not, toNat_ones_shiftLeft narrow, ones]
  change 2 ^ 64 - 1 - (2 ^ 64 - 2 ^ bits) = 2 ^ bits - 1
  omega

theorem toNat_add_toUInt64 (value : UInt64) (incr : Int64) :
    ((value + incr.toUInt64).toNat : Int) = (value.toNat + incr.toInt) % 2 ^ 64 := by
  have cast : ((2 ^ 64 : Nat) : Int) = 2 ^ 64 := by norm_num
  rw [UInt64.toNat_add, Int.natCast_emod, Nat.cast_add, toNat_toUInt64 incr, cast, Int.add_emod,
    Int.emod_emod_of_dvd _ (dvd_refl _), ← Int.add_emod]

theorem toNat_add_toUInt64_mod (value : UInt64) (incr : Int64) {bits : Nat} (wide : bits ≤ 64) :
    (((value + incr.toUInt64).toNat % 2 ^ bits : Nat) : Int) = (value.toNat + incr.toInt) % 2 ^ bits := by
  have dvd : (2 : Int) ^ bits ∣ 2 ^ 64 := pow_dvd_pow 2 wide
  have cast : ((2 ^ bits : Nat) : Int) = 2 ^ bits := by norm_num
  rw [Int.natCast_emod, toNat_add_toUInt64, cast]
  exact Int.emod_emod_of_dvd _ dvd

end Words

section Unsigned

variable {value : UInt64} {incr : Int64} {bits : Nat}

theorem unsignedTests (narrow : bits < 64) (valid : value.toNat ≤ 2 ^ bits - 1 ∨ incr = 0) :
    ((value > ((1 : UInt64) <<< bits.toUInt64) - 1 ∨
        (incr > 0 ∧ incr > ((((1 : UInt64) <<< bits.toUInt64) - 1) - value).toInt64)) ↔
      2 ^ bits - 1 < (value.toNat : Int) + incr.toInt) ∧
    (incr < 0 ∧ incr < (-value).toInt64 ↔ (value.toNat : Int) + incr.toInt < 0) := by
  have maxEq := toNat_unsignedMax narrow
  have cast : ((2 ^ bits : Nat) : Int) = 2 ^ bits := by norm_num
  have positive := Nat.two_pow_pos bits
  have room : 2 ^ bits ≤ 2 ^ 63 := Nat.pow_le_pow_right (by omega) (by omega)
  simp only [GT.gt, UInt64.lt_iff_toNat_lt, Int64.lt_iff_toInt_lt, Int64.toInt_zero, maxEq]
  rcases valid with held | zero
  · -- INCRBY: `maxincr` and `minincr` are exact
    have maxincr : ((((1 : UInt64) <<< bits.toUInt64) - 1) - value).toInt64.toInt = 2 ^ bits - 1 - value.toNat := by
      rw [toInt_toInt64, UInt64.toNat_sub_of_le _ _ (by rw [UInt64.le_iff_toNat_le, maxEq]; exact held), maxEq,
        if_pos (by omega)]
      omega
    have minincr : (-value).toInt64.toInt = -value.toNat := by
      have size : UInt64.size = 2 ^ 64 := rfl
      rw [toInt_toInt64, UInt64.toNat_neg, size]
      by_cases zero : value.toNat = 0
      · rw [zero, Nat.sub_zero, Nat.mod_self, if_pos (by omega)]
        simp
      · rw [Nat.mod_eq_of_lt (by omega), if_neg (by omega)]
        omega
    rw [maxincr, minincr]
    omega
  · -- SET: an increment of zero passes neither increment test
    subst zero
    simp only [Int64.toInt_zero, Int.add_zero, lt_self_iff_false, false_and, or_false, false_iff, Int.not_lt]
    rw [← cast]
    omega

theorem toNat_unsignedWrapped (value : UInt64) (incr : Int64) (narrow : bits < 64) :
    (((value + incr.toUInt64) &&& ~~~((-1 : UInt64) <<< bits.toUInt64)).toNat : Int) =
      ((value.toNat : Int) + incr.toInt) % 2 ^ bits := by
  rw [UInt64.toNat_and, toNat_fieldMask narrow, Nat.and_two_pow_sub_one_eq_mod,
    toNat_add_toUInt64_mod value incr (by omega)]

theorem checkUnsignedBitfieldOverflow_spec (value : UInt64) (incr : Int64) (owtype : BfOverflow) (narrow : bits < 64)
    (valid : value.toNat ≤ 2 ^ bits - 1 ∨ incr = 0) :
    (checkUnsignedBitfieldOverflow value incr bits owtype).1 =
        (if 2 ^ bits - 1 < (value.toNat : Int) + incr.toInt then 1
        else if (value.toNat : Int) + incr.toInt < 0 then (if owtype = .wrap then 1 else -1) else 0) ∧
      ((checkUnsignedBitfieldOverflow value incr bits owtype).2.map fun limit => (limit.toNat : Int)) =
        (if 0 ≤ (value.toNat : Int) + incr.toInt ∧ (value.toNat : Int) + incr.toInt ≤ 2 ^ bits - 1 then none
        else bitfieldTarget false bits owtype ((value.toNat : Int) + incr.toInt)) := by
  obtain ⟨above, below⟩ := unsignedTests narrow valid
  have maxEq := toNat_unsignedMax narrow
  have cast : ((2 ^ bits : Nat) : Int) = 2 ^ bits := by norm_num
  have positive := Nat.two_pow_pos bits
  have wrapped := toNat_unsignedWrapped value incr narrow
  unfold checkUnsignedBitfieldOverflow bitfieldTarget fieldMin fieldMax
  simp only [if_neg (show bits ≠ 64 by omega), Bool.false_eq_true, if_false]
  by_cases exceeds : 2 ^ bits - 1 < (value.toNat : Int) + incr.toInt
  · have outside : ¬(0 ≤ (value.toNat : Int) + incr.toInt ∧ (value.toNat : Int) + incr.toInt ≤ 2 ^ bits - 1) := by
      omega
    rw [if_pos (above.mpr exceeds)]
    simp only [if_pos exceeds, if_neg outside]
    cases owtype
    · exact ⟨rfl, by rw [Option.map_some, wrapped]⟩
    · exact ⟨rfl, by rw [Option.map_some, maxEq, Option.some.injEq]; omega⟩
    · exact ⟨rfl, rfl⟩
  · rw [if_neg (mt above.mp exceeds)]
    by_cases under : (value.toNat : Int) + incr.toInt < 0
    · have outside : ¬(0 ≤ (value.toNat : Int) + incr.toInt ∧ (value.toNat : Int) + incr.toInt ≤ 2 ^ bits - 1) := by
        omega
      rw [if_pos (below.mpr under)]
      simp only [if_neg exceeds, if_pos under, if_neg outside]
      cases owtype
      · exact ⟨rfl, by rw [Option.map_some, wrapped]⟩
      · exact ⟨rfl, rfl⟩
      · exact ⟨rfl, rfl⟩
    · have inside : 0 ≤ (value.toNat : Int) + incr.toInt ∧ (value.toNat : Int) + incr.toInt ≤ 2 ^ bits - 1 := by
        omega
      rw [if_neg (mt below.mp under)]
      simp only [if_neg exceeds, if_neg under, if_pos inside]
      exact ⟨trivial, rfl⟩

end Unsigned

section Signed

variable {value incr : Int64} {bits : Nat}

theorem bmod_of_high {x : Int} (low : 2 ^ 63 ≤ x) (high : x < 2 ^ 64) : x.bmod 18446744073709551616 = x - 2 ^ 64 := by
  rw [Int.bmod_def, Int.emod_eq_of_lt (by omega) (by omega), if_neg (by omega)]
  omega

theorem toNat_add_toUInt64_toUInt64 (value incr : Int64) :
    ((value.toUInt64 + incr.toUInt64).toNat : Int) = (value.toInt + incr.toInt) % 2 ^ 64 := by
  rw [toNat_add_toUInt64, toNat_toUInt64 value, Int.add_emod, Int.emod_emod_of_dvd _ (dvd_refl _), ← Int.add_emod]

theorem bmod_of_small {x : Int} (low : -2 ^ 63 ≤ x) (high : x < 2 ^ 63) : x.bmod 18446744073709551616 = x :=
  Int.bmod_eq_of_le_mul_two (by omega) (by omega)

theorem toInt_neg_sub_one {max : Int64} (pos : 0 < bits) (wide : bits ≤ 64)
    (maxEq : max.toInt = 2 ^ (bits - 1) - 1) : (-max - 1).toInt = -2 ^ (bits - 1) := by
  have pow : (2 : Int) ^ (bits - 1) ≤ 2 ^ 63 := by exact_mod_cast Nat.pow_le_pow_right (by omega) (by omega)
  have positive : (0 : Int) < 2 ^ (bits - 1) := by exact_mod_cast Nat.two_pow_pos (bits - 1)
  rw [Int64.toInt_sub, Int64.toInt_neg, maxEq, Int64.toInt_one,
    bmod_of_small (x := -(2 ^ (bits - 1) - 1)) (by omega) (by omega),
    bmod_of_small (x := -(2 ^ (bits - 1) - 1) - 1) (by omega) (by omega)]
  omega

theorem signedTests {max : Int64} (pos : 0 < bits) (wide : bits ≤ 64) (maxEq : max.toInt = 2 ^ (bits - 1) - 1)
    (valid : (-2 ^ (bits - 1) ≤ value.toInt ∧ value.toInt ≤ 2 ^ (bits - 1) - 1) ∨
      (incr = 0 ∧ (bits = 64 ∨ 2 ^ (bits - 1) - 1 - 2 ^ 63 < value.toInt))) :
    ((value > max ∨ (bits ≠ 64 ∧ incr > max - value) ∨ (value ≥ 0 ∧ incr > 0 ∧ incr > max - value)) ↔
      2 ^ (bits - 1) - 1 < value.toInt + incr.toInt) ∧
    (¬ 2 ^ (bits - 1) - 1 < value.toInt + incr.toInt →
      ((value < -max - 1 ∨ (bits ≠ 64 ∧ incr < -max - 1 - value) ∨
          (value < 0 ∧ incr < 0 ∧ incr < -max - 1 - value)) ↔
        value.toInt + incr.toInt < -2 ^ (bits - 1))) := by
  have minEq := toInt_neg_sub_one pos wide maxEq
  have pow : (2 : Int) ^ (bits - 1) ≤ 2 ^ 63 := by exact_mod_cast Nat.pow_le_pow_right (by omega) (by omega)
  have positive : (0 : Int) < 2 ^ (bits - 1) := by exact_mod_cast Nat.two_pow_pos (bits - 1)
  have valueBelow := Int64.toInt_lt value
  have valueAbove := Int64.le_toInt value
  have incrBelow := Int64.toInt_lt incr
  have incrAbove := Int64.le_toInt incr
  simp only [GT.gt, ge_iff_le, Int64.lt_iff_toInt_lt, Int64.le_iff_toInt_le, Int64.toInt_sub (-max - 1), minEq,
    Int64.toInt_sub max, maxEq, Int64.toInt_zero]
  rcases valid with ⟨low, high⟩ | ⟨rfl, valid⟩
  · by_cases narrow : bits = 64
    · -- 64 bits: only the tests guarded by the signs are made, and where they are made the differences are exact
      subst narrow
      by_cases sign : 0 ≤ value.toInt
      · rw [bmod_of_small (x := 2 ^ (64 - 1) - 1 - value.toInt) (by omega) (by omega)]
        omega
      · rw [bmod_of_small (x := -2 ^ (64 - 1) - value.toInt) (by omega) (by omega)]
        omega
    · -- below 64 bits both differences are exact
      have smaller : (2 : Int) ^ (bits - 1) ≤ 2 ^ 62 := by exact_mod_cast Nat.pow_le_pow_right (by omega) (by omega)
      rw [bmod_of_small (x := 2 ^ (bits - 1) - 1 - value.toInt) (by omega) (by omega),
        bmod_of_small (x := -2 ^ (bits - 1) - value.toInt) (by omega) (by omega)]
      omega
  · simp only [Int64.toInt_zero]
    by_cases narrow : bits = 64
    · -- 64 bits hold every long long
      subst narrow
      omega
    · have above := valid.resolve_left narrow
      have smaller : (2 : Int) ^ (bits - 1) ≤ 2 ^ 62 := by exact_mod_cast Nat.pow_le_pow_right (by omega) (by omega)
      by_cases high : value.toInt ≤ 2 ^ (bits - 1) - 1
      · rw [bmod_of_small (x := 2 ^ (bits - 1) - 1 - value.toInt) (by omega) (by omega),
          bmod_of_small (x := -2 ^ (bits - 1) - value.toInt) (by omega) (by omega)]
        omega
      · -- above the field: the first test is the value's own
        omega

theorem and_not_or_self (c m : UInt64) : (c &&& ~~~m) ||| m = c ||| m := by
  apply UInt64.toBitVec_inj.mp
  apply BitVec.eq_of_getLsbD_eq
  intro i lt
  simp only [UInt64.toBitVec_or, UInt64.toBitVec_and, UInt64.toBitVec_not, BitVec.getLsbD_or, BitVec.getLsbD_and,
    BitVec.getLsbD_not]
  cases c.toBitVec.getLsbD i <;> cases m.toBitVec.getLsbD i <;> simp [lt]

theorem and_not_and_of_apart (c m msb : UInt64) (apart : m &&& msb = 0) : c &&& ~~~m &&& msb = c &&& msb := by
  apply UInt64.toBitVec_inj.mp
  apply BitVec.eq_of_getLsbD_eq
  intro i lt
  have bit := congrArg (fun x : UInt64 => x.toBitVec.getLsbD i) apart
  simp only [UInt64.toBitVec_and, BitVec.getLsbD_and, UInt64.toBitVec_zero, BitVec.getLsbD_zero] at bit
  simp only [UInt64.toBitVec_and, UInt64.toBitVec_not, BitVec.getLsbD_and, BitVec.getLsbD_not]
  cases hc : c.toBitVec.getLsbD i <;> cases hm : m.toBitVec.getLsbD i <;> cases hs : msb.toBitVec.getLsbD i <;>
    simp_all

theorem ones_shiftLeft_and_msb (pos : 0 < bits) (narrow : bits < 64) :
    ((-1 : UInt64) <<< bits.toUInt64) &&& ((1 : UInt64) <<< (bits - 1).toUInt64) = 0 := by
  apply UInt64.toNat_inj.mp
  rw [UInt64.toNat_and, toNat_ones_shiftLeft narrow, toNat_one_shiftLeft (by omega), Nat.and_two_pow,
    Nat.testBit_shiftLeft]
  simp
  omega

theorem signedWrap_eq (c : UInt64) (pos : 0 < bits) (narrow : bits < 64) :
    (if c &&& ((1 : UInt64) <<< (bits - 1).toUInt64) ≠ 0 then c ||| ((-1 : UInt64) <<< bits.toUInt64)
      else c &&& ~~~((-1 : UInt64) <<< bits.toUInt64)).toInt64 =
    signExtendBitfield (c &&& ~~~((-1 : UInt64) <<< bits.toUInt64)) bits := by
  rw [signExtendBitfield, and_not_and_of_apart _ _ _ (ones_shiftLeft_and_msb pos narrow), and_not_or_self]
  simp only [narrow, true_and]
  split <;> rfl

theorem toInt_signedWrapped (value incr : Int64) (pos : 0 < bits) (wide : bits ≤ 64) :
    (if bits < 64 then
        (if (value.toUInt64 + incr.toUInt64) &&& ((1 : UInt64) <<< (bits - 1).toUInt64) ≠ 0 then
          (value.toUInt64 + incr.toUInt64) ||| ((-1 : UInt64) <<< bits.toUInt64)
        else (value.toUInt64 + incr.toUInt64) &&& ~~~((-1 : UInt64) <<< bits.toUInt64))
      else value.toUInt64 + incr.toUInt64).toInt64.toInt =
    toSignedBits bits ((value.toInt + incr.toInt) % 2 ^ bits).toNat := by
  have sum := toNat_add_toUInt64_toUInt64 value incr
  generalize value.toUInt64 + incr.toUInt64 = c at sum ⊢
  have dvd : (2 : Int) ^ bits ∣ 2 ^ 64 := pow_dvd_pow 2 wide
  have cast : ((2 ^ bits : Nat) : Int) = 2 ^ bits := by norm_num
  -- the low `bits` bits of `c` are the residue of the sum
  have low : ((c.toNat % 2 ^ bits : Nat) : Int) = (value.toInt + incr.toInt) % 2 ^ bits := by
    rw [Int.natCast_emod, sum, cast]
    exact Int.emod_emod_of_dvd _ dvd
  by_cases narrow : bits < 64
  · rw [if_pos narrow, signedWrap_eq c pos narrow, toInt_signExtendBitfield pos wide, UInt64.toNat_and,
      toNat_fieldMask narrow, Nat.and_two_pow_sub_one_eq_mod]
    · congr 1
      omega
    · rw [UInt64.toNat_and, toNat_fieldMask narrow, Nat.and_two_pow_sub_one_eq_mod]
      exact Nat.mod_lt _ (Nat.two_pow_pos bits)
  · -- 64 bits: the sum read as a long long
    have sixtyFour : bits = 64 := by omega
    subst sixtyFour
    rw [if_neg narrow, toInt_toInt64, toSignedBits]
    have same : ((value.toInt + incr.toInt) % 2 ^ 64).toNat = c.toNat := by omega
    rw [same]

theorem checkSignedBitfieldOverflow_spec (value incr : Int64) (owtype : BfOverflow) (pos : 0 < bits) (wide : bits ≤ 64)
    (valid : (-2 ^ (bits - 1) ≤ value.toInt ∧ value.toInt ≤ 2 ^ (bits - 1) - 1) ∨
      (incr = 0 ∧ (bits = 64 ∨ 2 ^ (bits - 1) - 1 - 2 ^ 63 < value.toInt))) :
    (checkSignedBitfieldOverflow value incr bits owtype).1 =
        (if 2 ^ (bits - 1) - 1 < value.toInt + incr.toInt then 1
        else if value.toInt + incr.toInt < -2 ^ (bits - 1) then (if owtype = .wrap then 1 else -1) else 0) ∧
      ((checkSignedBitfieldOverflow value incr bits owtype).2.map Int64.toInt) =
        (if -2 ^ (bits - 1) ≤ value.toInt + incr.toInt ∧ value.toInt + incr.toInt ≤ 2 ^ (bits - 1) - 1 then none
        else bitfieldTarget true bits owtype (value.toInt + incr.toInt)) := by
  have wrapped := toInt_signedWrapped value incr pos wide
  unfold checkSignedBitfieldOverflow bitfieldTarget fieldMin fieldMax
  dsimp only
  simp only [UInt64.toInt64_sub, Int64.toInt64_toUInt64, if_true]
  have maxEq := toInt_max pos wide
  generalize (if bits = 64 then Int64.maxValue else ((1 : Int64) <<< (bits - 1).toInt64) - 1) = max at maxEq ⊢
  have minEq := toInt_neg_sub_one pos wide maxEq
  obtain ⟨above, below⟩ := signedTests pos wide maxEq valid
  by_cases exceeds : 2 ^ (bits - 1) - 1 < value.toInt + incr.toInt
  · have outside : ¬(-2 ^ (bits - 1) ≤ value.toInt + incr.toInt ∧ value.toInt + incr.toInt ≤ 2 ^ (bits - 1) - 1) := by
      omega
    rw [if_pos (above.mpr exceeds)]
    simp only [if_pos exceeds, if_neg outside]
    cases owtype
    · exact ⟨rfl, by rw [Option.map_some, wrapped]⟩
    · exact ⟨rfl, by rw [Option.map_some, maxEq]⟩
    · exact ⟨rfl, rfl⟩
  · rw [if_neg (mt above.mp exceeds)]
    by_cases under : value.toInt + incr.toInt < -2 ^ (bits - 1)
    · have outside : ¬(-2 ^ (bits - 1) ≤ value.toInt + incr.toInt ∧ value.toInt + incr.toInt ≤ 2 ^ (bits - 1) - 1) := by
        omega
      rw [if_pos ((below exceeds).mpr under)]
      simp only [if_neg exceeds, if_pos under, if_neg outside]
      cases owtype
      · exact ⟨rfl, by rw [Option.map_some, wrapped]⟩
      · exact ⟨rfl, by rw [Option.map_some, minEq]⟩
      · exact ⟨rfl, rfl⟩
    · have inside : -2 ^ (bits - 1) ≤ value.toInt + incr.toInt ∧ value.toInt + incr.toInt ≤ 2 ^ (bits - 1) - 1 := by
        omega
      rw [if_neg (mt (below exceeds).mp under)]
      simp only [if_neg exceeds, if_neg under, if_pos inside]
      exact ⟨trivial, rfl⟩

theorem checkSignedBitfieldOverflow_farBelow (value : Int64) (owtype : BfOverflow) (pos : 0 < bits) (narrow : bits < 64)
    (farBelow : value.toInt ≤ 2 ^ (bits - 1) - 1 - 2 ^ 63) :
    (checkSignedBitfieldOverflow value 0 bits owtype).1 = 1 ∧
      ((checkSignedBitfieldOverflow value 0 bits owtype).2.map Int64.toInt) =
        match owtype with
        | .wrap => bitfieldTarget true bits .wrap value.toInt
        | .sat => some (2 ^ (bits - 1) - 1)
        | .fail => none := by
  have wrapped := toInt_signedWrapped value 0 pos (by omega)
  have pow : (2 : Int) ^ (bits - 1) ≤ 2 ^ 62 := by exact_mod_cast Nat.pow_le_pow_right (by omega) (by omega)
  have positive : (0 : Int) < 2 ^ (bits - 1) := by exact_mod_cast Nat.two_pow_pos (bits - 1)
  have valueAbove := Int64.le_toInt value
  unfold checkSignedBitfieldOverflow
  dsimp only
  simp only [UInt64.toInt64_sub, Int64.toInt64_toUInt64]
  have maxEq := toInt_max pos (by omega)
  generalize (if bits = 64 then Int64.maxValue else ((1 : Int64) <<< (bits - 1).toInt64) - 1) = max at maxEq ⊢
  -- the difference `max - value` is `2 ^ 63` or more: as a long long it is negative
  have wraps : (max - value).toInt < 0 := by
    rw [Int64.toInt_sub, maxEq, bmod_of_high (by omega) (by omega)]
    omega
  have first : value > max ∨ (bits ≠ 64 ∧ (0 : Int64) > max - value) ∨
      (value ≥ 0 ∧ (0 : Int64) > 0 ∧ (0 : Int64) > max - value) :=
    .inr (.inl ⟨by omega, by rw [GT.gt, Int64.lt_iff_toInt_lt, Int64.toInt_zero]; exact wraps⟩)
  rw [if_pos first]
  cases owtype
  · refine ⟨rfl, ?_⟩
    rw [Option.map_some, wrapped, Int64.toInt_zero, Int.add_zero, bitfieldTarget, if_neg (by simp [fieldMin]; omega)]
    rfl
  · exact ⟨rfl, by rw [Option.map_some, maxEq]⟩
  · exact ⟨rfl, rfl⟩

end Signed

structure Stored (s s' : List UInt8) (offset bits : Nat) (sign : Bool) (t : Int) : Prop where
  length : s'.length = s.length
  frame : ∀ i, i < offset ∨ offset + bits ≤ i → bitOf s' i = bitOf s i
  field : (if sign then toSignedBits bits (fieldValue s' offset bits) else (fieldValue s' offset bits : Int)) = t

theorem outcome_of_check {α : Type} {flag : Int} {limit target : Option α} {r lo hi : Int} {wraps : Prop}
    [Decidable wraps] (first : flag = if hi < r then 1 else if r < lo then (if wraps then 1 else -1) else 0)
    (second : limit = if lo ≤ r ∧ r ≤ hi then none else target) :
    (lo ≤ r ∧ r ≤ hi → flag = 0) ∧ (¬(lo ≤ r ∧ r ≤ hi) → flag ≠ 0 ∧ limit = target) := by
  refine ⟨fun inside => by rw [first, if_neg (by omega), if_neg (by omega)], fun outside => ⟨?_, ?_⟩⟩
  · rw [first]
    split_ifs <;> omega
  · rw [second, if_neg outside]

section Writes

variable {s : List UInt8} {offset bits : Nat}

theorem bitfieldTarget_range {sign : Bool} {owtype : BfOverflow} {r t : Int} (pos : 0 < bits)
    (target : bitfieldTarget sign bits owtype r = some t) : fieldMin sign bits ≤ t ∧ t ≤ fieldMax sign bits := by
  have positive : (0 : Int) < 2 ^ (bits - 1) := by exact_mod_cast Nat.two_pow_pos (bits - 1)
  have double : (2 : Int) ^ bits = 2 * 2 ^ (bits - 1) := by
    rw [← Int.pow_succ']
    congr 1
    omega
  unfold bitfieldTarget at target
  split at target
  · next inside =>
    cases target
    exact inside
  · cases owtype
    · -- the residue, read unsigned or as two's complement
      cases target
      cases sign
      · simp only [Bool.false_eq_true, if_false, fieldMin, fieldMax]
        have := Int.emod_nonneg r (show (2 : Int) ^ bits ≠ 0 by omega)
        have := Int.emod_lt_of_pos r (show (0 : Int) < 2 ^ bits by omega)
        omega
      · simp only [if_true, fieldMin, fieldMax]
        apply toSignedBits_range pos
        have := Int.emod_nonneg r (show (2 : Int) ^ bits ≠ 0 by omega)
        have := Int.emod_lt_of_pos r (show (0 : Int) < 2 ^ bits by omega)
        have cast : ((2 ^ bits : Nat) : Int) = 2 ^ bits := by simp
        omega
    · cases target
      unfold fieldMin fieldMax
      split <;> split <;> omega
    · cases target

theorem bitfieldTarget_eq_none {sign : Bool} {owtype : BfOverflow} {r : Int} :
    bitfieldTarget sign bits owtype r = none ↔
      owtype = .fail ∧ ¬(fieldMin sign bits ≤ r ∧ r ≤ fieldMax sign bits) := by
  unfold bitfieldTarget
  split
  · next inside => simp [inside]
  · next outside => cases owtype <;> simp [outside]

theorem ne_fail_of_target {sign : Bool} {owtype : BfOverflow} {r t : Int}
    (target : bitfieldTarget sign bits owtype r = some t) (outside : ¬(fieldMin sign bits ≤ r ∧ r ≤ fieldMax sign bits)) :
    owtype ≠ .fail := by
  intro fail
  rw [bitfieldTarget_eq_none.mpr ⟨fail, outside⟩] at target
  cases target

theorem setSignedBitfield_stored (value : Int64) (fits : offset + bits ≤ 8 * s.length) (pos : 0 < bits)
    (wide : bits ≤ 64) (low : -2 ^ (bits - 1) ≤ value.toInt) (high : value.toInt ≤ 2 ^ (bits - 1) - 1) :
    ∃ s', setSignedBitfield s offset bits value = some s' ∧ Stored s s' offset bits true value.toInt := by
  obtain ⟨s', set, len, frame, written⟩ := setUnsignedBitfield_spec value.toUInt64 fits wide
  refine ⟨s', set, len, frame, ?_⟩
  rw [if_pos rfl, written, toNat_toUInt64_mod value wide, toSignedBits_emod pos low (by omega)]

theorem setUnsignedBitfield_stored (value : UInt64) (fits : offset + bits ≤ 8 * s.length) (wide : bits ≤ 64)
    (held : value.toNat < 2 ^ bits) :
    ∃ s', setUnsignedBitfield s offset bits value = some s' ∧ Stored s s' offset bits false value.toNat := by
  obtain ⟨s', set, len, frame, written⟩ := setUnsignedBitfield_spec value fits wide
  exact ⟨s', set, len, frame, by rw [if_neg Bool.false_ne_true, written, Nat.mod_eq_of_lt held]⟩

theorem signedCheck_outcome {op : BitfieldOp} {oldval : Int64} (pos : 0 < op.bits) (wide : op.bits ≤ 64)
    (held : -2 ^ (op.bits - 1) ≤ oldval.toInt ∧ oldval.toInt ≤ 2 ^ (op.bits - 1) - 1)
    (exact : op.opcode ≠ .incrby → op.owtype = .sat → op.bits < 64 → 2 ^ (op.bits - 1) - 1 - 2 ^ 63 < op.i64.toInt) :
    let check := if op.opcode = .incrby then checkSignedBitfieldOverflow oldval op.i64 op.bits op.owtype
      else checkSignedBitfieldOverflow op.i64 0 op.bits op.owtype
    let r := if op.opcode = .incrby then oldval.toInt + op.i64.toInt else op.i64.toInt
    (-2 ^ (op.bits - 1) ≤ r ∧ r ≤ 2 ^ (op.bits - 1) - 1 → check.1 = 0) ∧
    (¬(-2 ^ (op.bits - 1) ≤ r ∧ r ≤ 2 ^ (op.bits - 1) - 1) →
      check.1 ≠ 0 ∧ check.2.map Int64.toInt = bitfieldTarget true op.bits op.owtype r) := by
  intro check r
  by_cases incr : op.opcode = .incrby
  · -- INCRBY: the field holds the old value
    obtain ⟨first, second⟩ := checkSignedBitfieldOverflow_spec oldval op.i64 op.owtype pos wide
      (.inl held)
    simp only [check, r, if_pos incr] at first second ⊢
    exact outcome_of_check first second
  · simp only [check, r, if_neg incr]
    by_cases far : op.bits < 64 ∧ op.i64.toInt ≤ 2 ^ (op.bits - 1) - 1 - 2 ^ 63
    · -- SET far below the field: an overflow above it, right for WRAP and FAIL
      have positive : (0 : Int) < 2 ^ (op.bits - 1) := by exact_mod_cast Nat.two_pow_pos (op.bits - 1)
      have pow : (2 : Int) ^ (op.bits - 1) ≤ 2 ^ 62 := by
        exact_mod_cast Nat.pow_le_pow_right (by omega) (by omega)
      obtain ⟨first, second⟩ := checkSignedBitfieldOverflow_farBelow op.i64 op.owtype pos far.1 far.2
      refine ⟨fun inside => by omega, fun outside => ⟨by rw [first]; omega, ?_⟩⟩
      rw [second]
      cases owtype : op.owtype
      · rfl
      · have := exact incr owtype far.1
        omega
      · have beyond : ¬(fieldMin true op.bits ≤ op.i64.toInt ∧ op.i64.toInt ≤ fieldMax true op.bits) := by
          simpa [fieldMin, fieldMax] using outside
        show none = _
        rw [bitfieldTarget, if_neg beyond]
    · -- SET elsewhere: the check is exact
      have valid : (0 : Int64) = 0 ∧ (op.bits = 64 ∨ 2 ^ (op.bits - 1) - 1 - 2 ^ 63 < op.i64.toInt) :=
        ⟨rfl, by omega⟩
      obtain ⟨first, second⟩ := checkSignedBitfieldOverflow_spec op.i64 0 op.owtype pos wide
        (.inr valid)
      simp only [Int64.toInt_zero, Int.add_zero] at first second
      exact outcome_of_check first second

/-- A signed SET or INCRBY stores what BITFIELD means to store and replies the new value (INCRBY) or the old
one (SET); with FAIL on an overflow it writes nothing and replies null. -/
theorem bitfieldSignedWrite_spec (op : BitfieldOp) (pos : 0 < op.bits) (wide : op.bits ≤ 64)
    (fits : op.offset + op.bits ≤ 8 * s.length)
    (exact : op.opcode ≠ .incrby → op.owtype = .sat → op.bits < 64 → 2 ^ (op.bits - 1) - 1 - 2 ^ 63 < op.i64.toInt) :
    let old := toSignedBits op.bits (fieldValue s op.offset op.bits)
    let r := if op.opcode = .incrby then old + op.i64.toInt else op.i64.toInt
    match bitfieldTarget true op.bits op.owtype r with
    | none => bitfieldSignedWrite s op = some (none, s)
    | some t => ∃ s', bitfieldSignedWrite s op = some (some (if op.opcode = .incrby then t else old), s') ∧
        Stored s s' op.offset op.bits true t := by
  intro old r
  obtain ⟨oldval, read, oldEq⟩ := getSignedBitfield_spec fits pos wide
  have held := toSignedBits_range pos (readBits_lt (fun j => bitOf s (op.offset + j)) op.bits)
  rw [← fieldValue, ← oldEq] at held
  obtain ⟨inside, outside⟩ := signedCheck_outcome pos wide held exact
  have oldIs : old = oldval.toInt := oldEq.symm
  have rIs : r = if op.opcode = .incrby then oldval.toInt + op.i64.toInt else op.i64.toInt := by
    simp only [r, oldIs]
  clear_value old r
  subst oldIs rIs
  simp only [bitfieldSignedWrite, read, Option.bind_eq_bind, Option.bind_some]
  generalize (if op.opcode = .incrby then checkSignedBitfieldOverflow oldval op.i64 op.bits op.owtype
    else checkSignedBitfieldOverflow op.i64 0 op.bits op.owtype) = check at inside outside ⊢
  generalize rIs : (if op.opcode = .incrby then oldval.toInt + op.i64.toInt else op.i64.toInt) = r
    at inside outside ⊢
  by_cases range : -2 ^ (op.bits - 1) ≤ r ∧ r ≤ 2 ^ (op.bits - 1) - 1
  · -- no overflow: the result itself is stored, the long long sum being exact within the field
    have sum : (if op.opcode = .incrby then oldval + op.i64 else op.i64).toInt = r := by
      have pow : (2 : Int) ^ (op.bits - 1) ≤ 2 ^ 63 := by
        exact_mod_cast Nat.pow_le_pow_right (by omega) (by omega)
      by_cases incr : op.opcode = .incrby
      · rw [if_pos incr] at rIs ⊢
        rw [Int64.toInt_add, rIs, bmod_of_small (by omega) (by omega)]
      · rw [if_neg incr] at rIs ⊢
        exact rIs
    have target : bitfieldTarget true op.bits op.owtype r = some r := by
      unfold bitfieldTarget
      rw [if_pos (by simpa [fieldMin, fieldMax] using range)]
    obtain ⟨s', set, stored⟩ := setSignedBitfield_stored _ fits pos wide (sum ▸ range.1) (sum ▸ range.2)
    rw [target, inside range]
    refine ⟨s', ?_, sum ▸ stored⟩
    simp only [ne_eq, not_true_eq_false, false_and, if_false, set, Option.bind_some]
    by_cases incr : op.opcode = .incrby
    · rw [if_pos incr] at sum
      simp only [if_pos incr, sum]
    · simp only [if_neg incr]
  · -- an overflow: the check's limit is stored, or with FAIL nothing
    obtain ⟨flagged, limit⟩ := outside range
    cases target : bitfieldTarget true op.bits op.owtype r with
    | none =>
      have fail := (bitfieldTarget_eq_none.mp target).1
      show (if check.1 ≠ 0 ∧ op.owtype = .fail then _ else _) = _
      rw [if_pos ⟨flagged, fail⟩]
    | some t =>
      have notFail := ne_fail_of_target target (by simpa [fieldMin, fieldMax] using range)
      obtain ⟨w, stored, wEq⟩ := Option.map_eq_some_iff.mp (limit.trans target)
      have bounds := bitfieldTarget_range pos target
      simp only [fieldMin, fieldMax, if_true] at bounds
      obtain ⟨s', set, written⟩ := setSignedBitfield_stored w fits pos wide (wEq ▸ bounds.1) (wEq ▸ bounds.2)
      refine ⟨s', ?_, wEq ▸ written⟩
      simp only [ne_eq, flagged, not_false_eq_true, true_and, notFail, if_false, if_true, stored, Option.getD_some,
        set, Option.bind_some]
      by_cases incr : op.opcode = .incrby
      · simp only [if_pos incr, wEq]
      · simp only [if_neg incr]

theorem bitfieldSignedWrite_spec_incrby :
    0 < 8 ∧ 8 ≤ 64 ∧ 0 + 8 ≤ 8 * ([200, 1] : List UInt8).length ∧
      (BitfieldOpcode.incrby ≠ .incrby → BfOverflow.wrap = .sat → 8 < 64 →
        (2 : Int) ^ (8 - 1) - 1 - 2 ^ 63 < (100 : Int64).toInt) ∧
      match bitfieldTarget true 8 .wrap (toSignedBits 8 (fieldValue [200, 1] 0 8) + (100 : Int64).toInt) with
      | none => bitfieldSignedWrite [200, 1] ⟨0, 100, .incrby, .wrap, 8, true⟩ = some (none, [200, 1])
      | some t => ∃ s', bitfieldSignedWrite [200, 1] ⟨0, 100, .incrby, .wrap, 8, true⟩ = some (some t, s') ∧
          Stored [200, 1] s' 0 8 true t :=
  ⟨by decide, by decide, by decide, fun notIncr => absurd rfl notIncr,
    bitfieldSignedWrite_spec (s := [200, 1]) ⟨0, 100, .incrby, .wrap, 8, true⟩ (by decide) (by decide) (by decide)
      fun notIncr => absurd rfl notIncr⟩

theorem unsignedCheck_outcome {op : BitfieldOp} {oldval : UInt64} (narrow : op.bits < 64)
    (held : oldval.toNat ≤ 2 ^ op.bits - 1) :
    let check := if op.opcode = .incrby then checkUnsignedBitfieldOverflow oldval op.i64 op.bits op.owtype
      else checkUnsignedBitfieldOverflow op.i64.toUInt64 0 op.bits op.owtype
    let r := if op.opcode = .incrby then (oldval.toNat : Int) + op.i64.toInt else (op.i64.toUInt64.toNat : Int)
    (0 ≤ r ∧ r ≤ 2 ^ op.bits - 1 → check.1 = 0) ∧
    (¬(0 ≤ r ∧ r ≤ 2 ^ op.bits - 1) →
      check.1 ≠ 0 ∧ check.2.map (fun limit => (limit.toNat : Int)) = bitfieldTarget false op.bits op.owtype r) := by
  intro check r
  by_cases incr : op.opcode = .incrby
  · obtain ⟨first, second⟩ := checkUnsignedBitfieldOverflow_spec oldval op.i64 op.owtype narrow
      (.inl held)
    simp only [check, r, if_pos incr]
    exact outcome_of_check first second
  · -- SET: the value is checked with an increment of zero
    obtain ⟨first, second⟩ := checkUnsignedBitfieldOverflow_spec op.i64.toUInt64 0 op.owtype
      narrow (.inr rfl)
    simp only [Int64.toInt_zero, Int.add_zero] at first second
    simp only [check, r, if_neg incr]
    exact outcome_of_check first second

/-- An unsigned SET or INCRBY stores what BITFIELD means to store for the result over unbounded integers, the
SET value read as unsigned, and replies the new value (INCRBY) or the old one (SET); with FAIL on an overflow it
writes nothing and replies null. -/
theorem bitfieldUnsignedWrite_spec (op : BitfieldOp) (pos : 0 < op.bits) (narrow : op.bits < 64)
    (fits : op.offset + op.bits ≤ 8 * s.length) :
    let old : Int := fieldValue s op.offset op.bits
    let r := if op.opcode = .incrby then old + op.i64.toInt else (op.i64.toUInt64.toNat : Int)
    match bitfieldTarget false op.bits op.owtype r with
    | none => bitfieldUnsignedWrite s op = some (none, s)
    | some t => ∃ s', bitfieldUnsignedWrite s op = some (some (if op.opcode = .incrby then t else old), s') ∧
        Stored s s' op.offset op.bits false t := by
  intro old r
  obtain ⟨oldval, read, oldEq⟩ := getUnsignedBitfield_spec fits (Nat.le_of_lt narrow)
  have fitsField := readBits_lt (fun j => bitOf s (op.offset + j)) op.bits
  rw [← fieldValue, ← oldEq] at fitsField
  have small : (2 : Nat) ^ op.bits ≤ 2 ^ 63 := Nat.pow_le_pow_right (by omega) (by omega)
  obtain ⟨inside, outside⟩ := unsignedCheck_outcome narrow (show oldval.toNat ≤ 2 ^ op.bits - 1 by omega)
  have oldIs : old = oldval.toNat := by rw [oldEq]
  have rIs : r = if op.opcode = .incrby then (oldval.toNat : Int) + op.i64.toInt else (op.i64.toUInt64.toNat : Int) :=
    by simp only [r, oldIs]
  clear_value old r
  subst oldIs rIs
  simp only [bitfieldUnsignedWrite, read, Option.bind_eq_bind, Option.bind_some]
  generalize (if op.opcode = .incrby then checkUnsignedBitfieldOverflow oldval op.i64 op.bits op.owtype
    else checkUnsignedBitfieldOverflow op.i64.toUInt64 0 op.bits op.owtype) = check at inside outside ⊢
  generalize rIs : (if op.opcode = .incrby then (oldval.toNat : Int) + op.i64.toInt
    else (op.i64.toUInt64.toNat : Int)) = r at inside outside ⊢
  have cast : ((2 ^ op.bits : Nat) : Int) = 2 ^ op.bits := by norm_num
  have oldReply : oldval.toInt64.toInt = oldval.toNat := by rw [toInt_toInt64, if_pos (by omega)]
  by_cases range : 0 ≤ r ∧ r ≤ 2 ^ op.bits - 1
  · -- no overflow: the result itself is stored, the unsigned sum being exact within the field
    have sum : ((if op.opcode = .incrby then oldval + op.i64.toUInt64 else op.i64.toUInt64).toNat : Int) = r := by
      by_cases incr : op.opcode = .incrby
      · rw [if_pos incr] at rIs ⊢
        rw [toNat_add_toUInt64, rIs, Int.emod_eq_of_lt range.1 (by omega)]
      · rw [if_neg incr] at rIs ⊢
        exact rIs
    have target : bitfieldTarget false op.bits op.owtype r = some r := by
      unfold bitfieldTarget
      rw [if_pos (by simpa [fieldMin, fieldMax] using range)]
    obtain ⟨s', set, stored⟩ := setUnsignedBitfield_stored
      (if op.opcode = .incrby then oldval + op.i64.toUInt64 else op.i64.toUInt64) fits
      (Nat.le_of_lt narrow) (by omega)
    rw [target, inside range]
    refine ⟨s', ?_, sum ▸ stored⟩
    simp only [ne_eq, not_true_eq_false, false_and, if_false, set, Option.bind_some]
    by_cases incr : op.opcode = .incrby
    · rw [if_pos incr] at sum
      simp only [if_pos incr, toInt_toInt64, if_pos (show (oldval + op.i64.toUInt64).toNat < 2 ^ 63 by omega), sum]
    · simp only [if_neg incr, oldReply]
  · -- an overflow: the check's limit is stored, or with FAIL nothing
    obtain ⟨flagged, limit⟩ := outside range
    cases target : bitfieldTarget false op.bits op.owtype r with
    | none =>
      have fail := (bitfieldTarget_eq_none.mp target).1
      show (if check.1 ≠ 0 ∧ op.owtype = .fail then _ else _) = _
      rw [if_pos ⟨flagged, fail⟩]
    | some t =>
      have notFail := ne_fail_of_target target (by simpa [fieldMin, fieldMax] using range)
      obtain ⟨w, stored, wEq⟩ := Option.map_eq_some_iff.mp (limit.trans target)
      have bounds := bitfieldTarget_range pos target
      simp only [fieldMin, fieldMax, Bool.false_eq_true, if_false] at bounds
      obtain ⟨s', set, written⟩ := setUnsignedBitfield_stored w fits (Nat.le_of_lt narrow) (by omega)
      refine ⟨s', ?_, wEq ▸ written⟩
      have reply : w.toInt64.toInt = t := by rw [toInt_toInt64, if_pos (by omega), wEq]
      simp only [ne_eq, flagged, not_false_eq_true, true_and, notFail, if_false, if_true, stored, Option.getD_some,
        set, Option.bind_some]
      by_cases incr : op.opcode = .incrby
      · simp only [if_pos incr, reply]
      · simp only [if_neg incr, oldReply]

theorem bitfieldUnsignedWrite_spec_sat :
    0 < 8 ∧ 8 < 64 ∧ 0 + 8 ≤ 8 * ([200] : List UInt8).length ∧
      match bitfieldTarget false 8 .sat ((fieldValue [200] 0 8 : Int) + (100 : Int64).toInt) with
      | none => bitfieldUnsignedWrite [200] ⟨0, 100, .incrby, .sat, 8, false⟩ = some (none, [200])
      | some t => ∃ s', bitfieldUnsignedWrite [200] ⟨0, 100, .incrby, .sat, 8, false⟩ = some (some t, s') ∧
          Stored [200] s' 0 8 false t :=
  ⟨by decide, by decide, by decide,
    bitfieldUnsignedWrite_spec (s := [200]) ⟨0, 100, .incrby, .sat, 8, false⟩ (by decide) (by decide) (by decide)⟩

/-- SET with SAT of a long long `2 ^ 63` or more below the maximum of a signed field narrower than 64 bits:
`max - value` wraps to a negative increment limit, the check reports an overflow above the field, and BITFIELD
stores the field's maximum, where the nearest bound of the value is the field's minimum. -/
theorem bitfieldSet_sat_farBelow_stores_max (op : BitfieldOp) (pos : 0 < op.bits) (narrow : op.bits < 64)
    (fits : op.offset + op.bits ≤ 8 * s.length) (set : op.opcode = .set) (sat : op.owtype = .sat)
    (farBelow : op.i64.toInt ≤ 2 ^ (op.bits - 1) - 1 - 2 ^ 63) :
    bitfieldTarget true op.bits op.owtype op.i64.toInt = some (-2 ^ (op.bits - 1)) ∧
      ∃ s', bitfieldSignedWrite s op = some (some (toSignedBits op.bits (fieldValue s op.offset op.bits)), s') ∧
        Stored s s' op.offset op.bits true (2 ^ (op.bits - 1) - 1) := by
  have positive : (0 : Int) < 2 ^ (op.bits - 1) := by exact_mod_cast Nat.two_pow_pos (op.bits - 1)
  have pow : (2 : Int) ^ (op.bits - 1) ≤ 2 ^ 62 := by exact_mod_cast Nat.pow_le_pow_right (by omega) (by omega)
  -- the value lies below the field's minimum
  have below : op.i64.toInt < -2 ^ (op.bits - 1) := by omega
  refine ⟨?_, ?_⟩
  · unfold bitfieldTarget fieldMin fieldMax
    simp only [if_true, sat]
    rw [if_neg (by omega), if_neg (by omega)]
  · obtain ⟨oldval, read, oldEq⟩ := getSignedBitfield_spec fits pos (Nat.le_of_lt narrow)
    obtain ⟨flagged, limit⟩ := checkSignedBitfieldOverflow_farBelow op.i64 op.owtype pos narrow farBelow
    rw [sat] at flagged limit
    obtain ⟨w, stored, wEq⟩ := Option.map_eq_some_iff.mp limit
    obtain ⟨s', written, kept⟩ := setSignedBitfield_stored w fits pos (Nat.le_of_lt narrow) (by omega)
      (by omega)
    refine ⟨s', ?_, wEq ▸ kept⟩
    simp only [bitfieldSignedWrite, read, Option.bind_eq_bind, Option.bind_some, set, sat, reduceCtorEq, if_false,
      flagged, stored, ne_eq, one_ne_zero, not_false_eq_true, if_true, and_false, Option.getD_some, written, oldEq]

theorem bitfieldSet_sat_farBelow_stores_max_i8 :
    (bitfieldTarget true 8 .sat (-9223372036854775808 : Int64).toInt = some (-2 ^ (8 - 1)) ∧
      ∃ s', bitfieldSignedWrite [0] ⟨0, -9223372036854775808, .set, .sat, 8, true⟩ =
          some (some (toSignedBits 8 (fieldValue [0] 0 8)), s') ∧
        Stored [0] s' 0 8 true (2 ^ (8 - 1) - 1)) ∧
      bitfieldSignedWrite [0] ⟨0, -9223372036854775808, .set, .sat, 8, true⟩ = some (some 0, [127]) :=
  ⟨bitfieldSet_sat_farBelow_stores_max ⟨0, -9223372036854775808, .set, .sat, 8, true⟩ (by decide) (by decide)
    (by decide) rfl rfl (by decide), by decide⟩

end Writes

end Kv.Bitops
