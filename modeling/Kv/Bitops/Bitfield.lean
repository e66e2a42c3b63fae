import Kv.Foundations.BitString
import Kv.Foundations.Bytes
import Kv.Foundations.Run
import Mathlib.Tactic.IntervalCases

/-!
The bitfields of bitops.c: setUnsignedBitfield, setSignedBitfield,
getUnsignedBitfield and getSignedBitfield, which walk a field bit by bit, most
significant bit first, with the bits of a byte numbered from its most
significant one; and the GET path of BITFIELD, which reads through a zeroed
window of nine bytes. A read or write past the buffer is `none`. Offsets and
widths are natural numbers: the offsets the command accepts are far below 2^64.
-/

namespace Kv.Bitops

open Foundations

def getUnsignedBitfieldStep (p : List UInt8) (value : UInt64) (offset : Nat) : Option UInt64 := do
  let byte := offset >>> 3
  let bit := 7 - (offset &&& 0x7)
  let byteval ← p[byte]?
  let bitval := (byteval.toUInt64 >>> bit.toUInt64) &&& 1
  some ((value <<< 1) ||| bitval)

/-- getUnsignedBitfield: the `bits` bits from bit `offset` on, the first one the most significant. -/
def getUnsignedBitfield (p : List UInt8) (offset bits : Nat) : Option UInt64 :=
  (List.range bits).foldlM (fun value j => getUnsignedBitfieldStep p value (offset + j)) 0

def signExtendBitfield (value : UInt64) (bits : Nat) : Int64 :=
  if bits < 64 ∧ value &&& ((1 : UInt64) <<< (bits - 1).toUInt64) ≠ 0 then
    (value ||| ((-1 : UInt64) <<< bits.toUInt64)).toInt64
  else value.toInt64

/-- getSignedBitfield. -/
def getSignedBitfield (p : List UInt8) (offset bits : Nat) : Option Int64 :=
  (getUnsignedBitfield p offset bits).map (signExtendBitfield · bits)

def setBitfieldByte (byteval : UInt8) (bit : Nat) (bitval : UInt64) : UInt8 :=
  let byteval := byteval.toUInt64 &&& ~~~((1 : UInt64) <<< bit.toUInt64)
  let byteval := byteval ||| (bitval <<< bit.toUInt64)
  (byteval &&& 0xff).toUInt8

def setUnsignedBitfieldStep (offset bits : Nat) (value : UInt64) (p : List UInt8) (j : Nat) :
    Option (List UInt8) := do
  let bitval : UInt64 := if value &&& ((1 : UInt64) <<< (bits - 1 - j).toUInt64) ≠ 0 then 1 else 0
  let byte := (offset + j) >>> 3
  let bit := 7 - ((offset + j) &&& 0x7)
  let byteval ← p[byte]?
  some (p.set byte (setBitfieldByte byteval bit bitval))

/-- setUnsignedBitfield: the low `bits` bits of `value` into the bits from `offset` on, the most significant
first. -/
def setUnsignedBitfield (p : List UInt8) (offset bits : Nat) (value : UInt64) : Option (List UInt8) :=
  (List.range bits).foldlM (setUnsignedBitfieldStep offset bits value) p

/-- setSignedBitfield: the two's complement bits of `value`. -/
def setSignedBitfield (p : List UInt8) (offset bits : Nat) (value : Int64) : Option (List UInt8) :=
  setUnsignedBitfield p offset bits value.toUInt64

def bitfieldGetCopy (src : Option (List UInt8)) (byte : Nat) (buf : List UInt8) (i : Nat) : List UInt8 :=
  if i < 9 then
    match src with
    | some s => if i + byte ≥ s.length then buf else bitfieldGetCopy src byte (buf.set i (s.getD (i + byte) 0)) (i + 1)
    | none => buf
  else buf
termination_by 9 - i

/-- The GET subcommand of BITFIELD on the string `src` (none for a missing key): the field read from the nine
bytes copied into a zeroed buffer at the offset re-based to it, as the long long of the reply. -/
def bitfieldGet (src : Option (List UInt8)) (offset bits : Nat) (sign : Bool) : Option Int :=
  let byte := offset >>> 3
  let buf := bitfieldGetCopy src byte (List.replicate 9 0) 0
  if sign then (getSignedBitfield buf (offset - byte * 8) bits).map Int64.toInt
  else (getUnsignedBitfield buf (offset - byte * 8) bits).map fun value => value.toInt64.toInt

def fieldValue (p : List UInt8) (offset bits : Nat) : Nat := readBits (fun j => bitOf p (offset + j)) bits

section Words

theorem shiftRight_three (i : Nat) : i >>> 3 = i / 8 := Nat.shiftRight_eq_div_pow i 3

theorem and_seven (i : Nat) : i &&& 0x7 = i % 8 := Nat.and_two_pow_sub_one_eq_mod i 3

theorem toNat_bitval (b : UInt8) {bit : Nat} (small : bit < 8) :
    ((b.toUInt64 >>> bit.toUInt64) &&& 1).toNat = (b.toNat.testBit bit).toNat := by
  rw [Nat.toNat_testBit]
  simp [Nat.shiftRight_eq_div_pow, Nat.mod_eq_of_lt (show bit < 64 by omega)]

theorem toNat_shiftLeft_or (value bitval : UInt64) (room : value.toNat < 2 ^ 63) {b : Bool}
    (bit : bitval.toNat = b.toNat) : ((value <<< 1) ||| bitval).toNat = value.toNat * 2 + b.toNat := by
  have doubled : value.toNat <<< 1 % 2 ^ 64 = value.toNat <<< 1 := by
    rw [Nat.shiftLeft_eq, Nat.pow_one]
    exact Nat.mod_eq_of_lt (by omega)
  rw [UInt64.toNat_or, UInt64.toNat_shiftLeft, bit, show (1 : UInt64).toNat % 64 = 1 from rfl, doubled,
    shiftLeft_one_or]

theorem toNat_one_shiftLeft {k : Nat} (small : k < 64) : ((1 : UInt64) <<< k.toUInt64).toNat = 2 ^ k := by
  rw [UInt64.toNat_shiftLeft, show (1 : UInt64).toNat = 1 from rfl, Nat.one_shiftLeft]
  simp [Nat.mod_eq_of_lt (show k < 64 by omega), Nat.pow_lt_pow_right (show 1 < 2 by omega) small]

theorem and_shiftLeft_ne_zero (value : UInt64) {k : Nat} (small : k < 64) :
    value &&& ((1 : UInt64) <<< k.toUInt64) ≠ 0 ↔ value.toNat.testBit k = true := by
  rw [Ne, ← UInt64.toNat_inj, UInt64.toNat_and, toNat_one_shiftLeft small, Nat.and_two_pow]
  cases value.toNat.testBit k <;> simp

theorem testBit_setBitfieldByte (b : UInt8) {bit : Nat} (small : bit < 8) (v : Bool) (i : Nat) :
    (setBitfieldByte b bit (if v then 1 else 0)).toNat.testBit i = if i = bit then v else b.toNat.testBit i := by
  unfold setBitfieldByte
  dsimp only
  simp only [← UInt8.toNat_toBitVec, BitVec.testBit_toNat]
  by_cases low : i < 8
  · have full : (255#8).getLsbD i = true := by interval_cases i <;> rfl
    by_cases same : i = bit
    · subst same
      cases v <;> simp [Nat.mod_eq_of_lt (show i < 64 by omega), full, low]
    · cases v <;> simp [Nat.mod_eq_of_lt (show bit < 64 by omega), full, same, low, show i - bit = 0 ↔ i < bit by omega]
  · simp [BitVec.getLsbD_of_ge _ _ (Nat.le_of_not_lt low), show i ≠ bit by omega]

end Words

section Fields

variable {p : List UInt8} {offset bits : Nat}

theorem bitOf_of_getElem? {i : Nat} {byteval : UInt8} (read : p[i >>> 3]? = some byteval) :
    bitOf p i = byteval.toNat.testBit (7 - (i &&& 0x7)) := by
  rw [shiftRight_three] at read
  rw [bitOf_def, List.getD_eq_getElem?_getD, read, Option.getD_some, and_seven]

theorem exists_getElem? {i : Nat} (inside : i / 8 < p.length) : ∃ byteval, p[i >>> 3]? = some byteval :=
  ⟨p[i / 8], by rw [shiftRight_three, List.getElem?_eq_getElem inside]⟩

theorem getUnsignedBitfieldStep_spec {value : UInt64} {i : Nat} (inside : i / 8 < p.length)
    (room : value.toNat < 2 ^ 63) :
    ∃ value', getUnsignedBitfieldStep p value i = some value' ∧
      value'.toNat = value.toNat * 2 + (bitOf p i).toNat := by
  obtain ⟨byteval, read⟩ := exists_getElem? inside
  refine ⟨(value <<< 1) ||| ((byteval.toUInt64 >>> (7 - (i &&& 0x7)).toUInt64) &&& 1), ?_, ?_⟩
  · simp only [getUnsignedBitfieldStep, read, Option.bind_eq_bind, Option.bind_some]
  · have small : 7 - (i &&& 0x7) < 8 := by omega
    rw [toNat_shiftLeft_or value _ room (toNat_bitval byteval small), bitOf_of_getElem? read]

theorem getUnsignedBitfield_spec (fits : offset + bits ≤ 8 * p.length) (width : bits ≤ 64) :
    ∃ value, getUnsignedBitfield p offset bits = some value ∧ value.toNat = fieldValue p offset bits := by
  induction bits with
  | zero => exact ⟨0, rfl, rfl⟩
  | succ n ih =>
    -- the first `n` bits, then the one at `offset + n`
    obtain ⟨value, read, valueEq⟩ := ih (by omega) (by omega)
    have room : value.toNat < 2 ^ 63 :=
      valueEq ▸ Nat.lt_of_lt_of_le (readBits_lt _ n) (Nat.pow_le_pow_right (by omega) (by omega))
    obtain ⟨value', step, stepEq⟩ := getUnsignedBitfieldStep_spec (p := p) (i := offset + n) (by omega) room
    refine ⟨value', ?_, ?_⟩
    · unfold getUnsignedBitfield at read ⊢
      rw [List.range_succ, List.foldlM_append, read]
      simp [step]
    · rw [stepEq, valueEq]
      rfl

theorem fieldValue_congr {q : List UInt8} {offset' : Nat}
    (same : ∀ j < bits, bitOf p (offset + j) = bitOf q (offset' + j)) :
    fieldValue p offset bits = fieldValue q offset' bits :=
  readBits_congr same

theorem setUnsignedBitfieldStep_spec (value : UInt64) {j : Nat} (inside : (offset + j) / 8 < p.length)
    (low : j < bits) (width : bits ≤ 64) :
    ∃ p', setUnsignedBitfieldStep offset bits value p j = some p' ∧ p'.length = p.length ∧
      ∀ i, bitOf p' i = if i = offset + j then value.toNat.testBit (bits - 1 - j) else bitOf p i := by
  obtain ⟨byteval, read⟩ := exists_getElem? inside
  have bitval : (if value &&& ((1 : UInt64) <<< (bits - 1 - j).toUInt64) ≠ 0 then (1 : UInt64) else 0) =
      if value.toNat.testBit (bits - 1 - j) then 1 else 0 := by
    rw [if_congr (and_shiftLeft_ne_zero value (show bits - 1 - j < 64 by omega)) rfl rfl]
  refine ⟨p.set ((offset + j) >>> 3) (setBitfieldByte byteval (7 - ((offset + j) &&& 0x7))
    (if value.toNat.testBit (bits - 1 - j) then 1 else 0)), ?_, List.length_set .., fun i => ?_⟩
  · simp only [setUnsignedBitfieldStep, bitval, read, Option.bind_eq_bind, Option.bind_some]
  rw [bitOf_set p (by rw [shiftRight_three]; exact inside), testBit_setBitfieldByte byteval (by omega),
    shiftRight_three, and_seven]
  by_cases same : i = offset + j
  · subst same
    simp
  · -- another bit of the same byte keeps the byte's old bit, which is the string's
    rw [if_neg same]
    by_cases sameByte : i / 8 = (offset + j) / 8
    · rw [if_pos sameByte, if_neg (by omega), bitOf_def, List.getD_eq_getElem?_getD, sameByte,
        ← shiftRight_three, read, Option.getD_some]
    · rw [if_neg sameByte]

theorem setUnsignedBitfield_prefix (value : UInt64) (fits : offset + bits ≤ 8 * p.length) (width : bits ≤ 64) :
    ∀ k ≤ bits, ∃ p', (List.range k).foldlM (setUnsignedBitfieldStep offset bits value) p = some p' ∧
      p'.length = p.length ∧ ∀ i, bitOf p' i =
        if offset ≤ i ∧ i < offset + k then value.toNat.testBit (bits - 1 - (i - offset)) else bitOf p i
  | 0, _ => ⟨p, rfl, rfl, fun i => by simp⟩
  | k + 1, le => by
    obtain ⟨mid, run, midLen, midBits⟩ := setUnsignedBitfield_prefix value fits width k (by omega)
    obtain ⟨p', step, len, bits'⟩ := setUnsignedBitfieldStep_spec value
      (show (offset + k) / 8 < mid.length by omega) (show k < bits by omega) width
    refine ⟨p', ?_, by rw [len, midLen], fun i => ?_⟩
    · rw [List.range_succ, List.foldlM_append, run]
      simp [step]
    · rw [bits', midBits]
      by_cases last : i = offset + k
      · rw [if_pos last, if_pos (by omega), show i - offset = k by omega]
      · rw [if_neg last]
        by_cases before : offset ≤ i ∧ i < offset + k
        · rw [if_pos before, if_pos (by omega)]
        · rw [if_neg before, if_neg (by omega)]

theorem setUnsignedBitfield_spec (value : UInt64) (fits : offset + bits ≤ 8 * p.length) (width : bits ≤ 64) :
    ∃ p', setUnsignedBitfield p offset bits value = some p' ∧ p'.length = p.length ∧
      (∀ i, i < offset ∨ offset + bits ≤ i → bitOf p' i = bitOf p i) ∧
      fieldValue p' offset bits = value.toNat % 2 ^ bits := by
  obtain ⟨p', run, len, written⟩ := setUnsignedBitfield_prefix value fits width bits (Nat.le_refl _)
  refine ⟨p', run, len, fun i outside => by rw [written, if_neg (by omega)], ?_⟩
  -- the field holds the value's bits from bit `bits - 1` down
  rw [fieldValue, ← readBits_testBit]
  apply readBits_congr
  intro j low
  rw [written, if_pos (by omega), Nat.add_sub_cancel_left]

end Fields

section Signed

theorem testBit_top {u n : Nat} (fits : u < 2 ^ (n + 1)) : u.testBit n = decide (2 ^ n ≤ u) := by
  have below : u / 2 ^ n < 2 := Nat.div_lt_of_lt_mul (by rw [← Nat.pow_succ]; exact fits)
  have atLeast : 1 ≤ u / 2 ^ n ↔ 2 ^ n ≤ u := by rw [Nat.le_div_iff_mul_le (Nat.two_pow_pos n), Nat.one_mul]
  have top := Nat.toNat_testBit u n
  by_cases high : 2 ^ n ≤ u
  · have one : u / 2 ^ n = 1 := Nat.le_antisymm (Nat.lt_succ_iff.mp below) (atLeast.mpr high)
    rw [one] at top
    simpa [high] using top
  · have zero : u / 2 ^ n = 0 := Nat.lt_one_iff.mp (Nat.lt_of_not_le (mt atLeast.mp high))
    rw [zero] at top
    simpa [high] using top

theorem toNat_ones_shiftLeft {bits : Nat} (narrow : bits < 64) :
    ((-1 : UInt64) <<< bits.toUInt64).toNat = (2 ^ (64 - bits) - 1) <<< bits := by
  apply Nat.eq_of_testBit_eq
  intro k
  have shift : bits.toUInt64.toNat % 64 = bits := by simp; omega
  rw [UInt64.toNat_shiftLeft, shift, show (-1 : UInt64).toNat = 2 ^ 64 - 1 from rfl]
  simp only [Nat.testBit_mod_two_pow, Nat.testBit_shiftLeft, Nat.testBit_two_pow_sub_one]
  rw [Bool.eq_iff_iff]
  simp only [Bool.and_eq_true, decide_eq_true_eq]
  omega

theorem toInt_signExtendBitfield {value : UInt64} {bits : Nat} (pos : 0 < bits) (wide : bits ≤ 64)
    (fits : value.toNat < 2 ^ bits) : (signExtendBitfield value bits).toInt = toSignedBits bits value.toNat := by
  have double : 2 ^ bits = 2 * 2 ^ (bits - 1) := by
    rw [← Nat.pow_succ']
    congr 1
    omega
  have small : 2 ^ (bits - 1) ≤ 2 ^ 63 := Nat.pow_le_pow_right (by omega) (by omega)
  have cast : ((2 ^ bits : Nat) : Int) = 2 ^ bits := by simp
  have top := testBit_top (n := bits - 1) (u := value.toNat) (by rw [Nat.sub_add_cancel pos]; exact fits)
  unfold signExtendBitfield toSignedBits
  rw [if_congr (and_congr_right fun _ => and_shiftLeft_ne_zero value (show bits - 1 < 64 by omega)) rfl rfl, top]
  by_cases narrow : bits < 64
  · by_cases negative : 2 ^ (bits - 1) ≤ value.toNat
    · -- the ones above the field make the long long `value - 2 ^ bits`
      have ones := toNat_ones_shiftLeft narrow
      have above : (2 ^ (64 - bits) - 1) <<< bits = 2 ^ 64 - 2 ^ bits := by
        rw [Nat.shiftLeft_eq, Nat.sub_mul, ← Nat.pow_add, Nat.sub_add_cancel (by omega), Nat.one_mul]
      have extended : (value ||| ((-1 : UInt64) <<< bits.toUInt64)).toNat = 2 ^ 64 - 2 ^ bits + value.toNat := by
        rw [UInt64.toNat_or, ones, Nat.or_comm, ← Nat.shiftLeft_add_eq_or_of_lt fits, above]
      have smaller : 2 ^ (bits - 1) ≤ 2 ^ 62 := Nat.pow_le_pow_right (by omega) (by omega)
      rw [if_pos ⟨narrow, by simpa using negative⟩, toInt_toInt64, extended, if_neg (by omega), if_neg (by omega)]
      omega
    · rw [if_neg (by simp [negative]), toInt_toInt64, if_pos (by omega), if_pos (by omega)]
  · -- 64 bits: the long long the bits are
    have sixtyFour : bits = 64 := by omega
    subst sixtyFour
    rw [if_neg (by simp), toInt_toInt64]

variable {p : List UInt8} {offset bits : Nat}

theorem getSignedBitfield_spec (fits : offset + bits ≤ 8 * p.length) (pos : 0 < bits) (wide : bits ≤ 64) :
    ∃ value, getSignedBitfield p offset bits = some value ∧
      value.toInt = toSignedBits bits (fieldValue p offset bits) := by
  obtain ⟨u, read, uEq⟩ := getUnsignedBitfield_spec fits wide
  have inField : u.toNat < 2 ^ bits := uEq ▸ readBits_lt _ bits
  refine ⟨signExtendBitfield u bits, by rw [getSignedBitfield, read, Option.map_some], ?_⟩
  rw [toInt_signExtendBitfield pos wide inField, uEq]

theorem toNat_toUInt64_mod (value : Int64) (wide : bits ≤ 64) :
    value.toUInt64.toNat % 2 ^ bits = (value.toInt % 2 ^ bits).toNat := by
  have dvd : (2 : Int) ^ bits ∣ 2 ^ 64 := pow_dvd_pow 2 wide
  have residue : ((value.toUInt64.toNat % 2 ^ bits : Nat) : Int) = value.toInt % 2 ^ bits := by
    rw [Int.natCast_emod, toNat_toUInt64]
    push_cast
    exact Int.emod_emod_of_dvd _ dvd
  omega

theorem getSignedBitfield_setSignedBitfield {value : Int64} (fits : offset + bits ≤ 8 * p.length) (pos : 0 < bits)
    (wide : bits ≤ 64) (low : -2 ^ (bits - 1) ≤ value.toInt) (high : value.toInt < 2 ^ (bits - 1)) :
    ∃ p', setSignedBitfield p offset bits value = some p' ∧ getSignedBitfield p' offset bits = some value := by
  obtain ⟨p', set, len, -, written⟩ := setUnsignedBitfield_spec value.toUInt64 fits wide
  obtain ⟨read, get, readEq⟩ := getSignedBitfield_spec (show offset + bits ≤ 8 * p'.length by omega) pos wide
  refine ⟨p', set, ?_⟩
  rw [get, Option.some.injEq, ← Int64.toInt_inj, readEq, written, toNat_toUInt64_mod value wide,
    toSignedBits_emod pos low high]

end Signed

section Window

theorem bitfieldGetCopy_getD (src : Option (List UInt8)) (byte : Nat) :
    ∀ n i (buf : List UInt8), 9 - i = n → buf.length = 9 →
      (∀ k < 9, buf.getD k 0 = if k < i then (src.getD []).getD (byte + k) 0 else 0) →
      (bitfieldGetCopy src byte buf i).length = 9 ∧
        ∀ k < 9, (bitfieldGetCopy src byte buf i).getD k 0 = (src.getD []).getD (byte + k) 0 := by
  intro n
  induction n with
  | zero =>
    -- the nine bytes are copied
    intro i buf left len copied
    rw [bitfieldGetCopy.eq_def, if_neg (by omega)]
    exact ⟨len, fun k low => by rw [copied k low, if_pos (by omega)]⟩
  | succ n ih =>
    intro i buf left len copied
    rw [bitfieldGetCopy.eq_def, if_pos (by omega)]
    cases src with
    | none =>
      -- no string: the buffer stays zero, as an empty string reads
      refine ⟨len, fun k low => ?_⟩
      rw [copied k low]
      simp
    | some s =>
      dsimp only
      by_cases ended : i + byte ≥ s.length
      · -- the string has ended: the rest of the buffer is zero, as the string read past its end
        rw [if_pos ended]
        refine ⟨len, fun k low => ?_⟩
        rw [copied k low]
        split
        · rfl
        · simp [List.getD_eq_getElem?_getD, List.getElem?_eq_none (show s.length ≤ byte + k by omega)]
      · rw [if_neg ended]
        apply ih (i + 1) _ (by omega) (by rw [List.length_set, len])
        intro k low
        rw [List.getD_eq_getElem?_getD, List.getElem?_set]
        by_cases this : i = k
        · -- the byte just copied
          subst this
          simp [len, low, Nat.add_comm]
        · rw [if_neg this, ← List.getD_eq_getElem?_getD, copied k low]
          split <;> split <;> first | rfl | omega

theorem bitOf_window (src : Option (List UInt8)) {offset j : Nat} (inWindow : j < 64) :
    bitOf (bitfieldGetCopy src (offset >>> 3) (List.replicate 9 0) 0) (offset - offset >>> 3 * 8 + j) =
      bitOf (src.getD []) (offset + j) := by
  obtain ⟨-, copied⟩ := bitfieldGetCopy_getD src (offset >>> 3) 9 0 (List.replicate 9 0) rfl (by simp)
    (fun k low => by
      rw [List.getD_eq_getElem?_getD, List.getElem?_replicate, if_pos low, if_neg (Nat.not_lt_zero k)]
      rfl)
  rw [shiftRight_three] at copied ⊢
  simp only [bitOf_def]
  rw [copied _ (by omega), show offset / 8 + (offset - offset / 8 * 8 + j) / 8 = (offset + j) / 8 by omega,
    show (offset - offset / 8 * 8 + j) % 8 = (offset + j) % 8 by omega]

theorem length_bitfieldGetCopy (src : Option (List UInt8)) (byte : Nat) :
    (bitfieldGetCopy src byte (List.replicate 9 0) 0).length = 9 :=
  (bitfieldGetCopy_getD src byte 9 0 (List.replicate 9 0) rfl (by simp)
    (fun k low => by
      rw [List.getD_eq_getElem?_getD, List.getElem?_replicate, if_pos low, if_neg (Nat.not_lt_zero k)]
      rfl)).1

theorem getUnsignedBitfield_window (src : Option (List UInt8)) {offset bits pad : Nat} (wide : bits ≤ 64)
    (fits : offset + bits ≤ 8 * ((src.getD []).length + pad)) :
    getUnsignedBitfield (bitfieldGetCopy src (offset >>> 3) (List.replicate 9 0) 0) (offset - offset >>> 3 * 8) bits =
      getUnsignedBitfield (src.getD [] ++ List.replicate pad 0) offset bits := by
  obtain ⟨value, read, valueEq⟩ := getUnsignedBitfield_spec
    (show offset - offset >>> 3 * 8 + bits ≤ 8 * (bitfieldGetCopy src (offset >>> 3) (List.replicate 9 0) 0).length by
      rw [length_bitfieldGetCopy, shiftRight_three]; omega) wide
  obtain ⟨value', read', valueEq'⟩ := getUnsignedBitfield_spec
    (show offset + bits ≤ 8 * (src.getD [] ++ List.replicate pad 0).length by simp; omega) wide
  rw [read, read', Option.some.injEq, ← UInt64.toNat_inj, valueEq, valueEq']
  apply fieldValue_congr
  intro j low
  rw [bitOf_window src (by omega), bitOf_append_zeros]

theorem bitfieldGet_eq (src : Option (List UInt8)) {offset bits pad : Nat} (sign : Bool) (wide : bits ≤ 64)
    (fits : offset + bits ≤ 8 * ((src.getD []).length + pad)) :
    bitfieldGet src offset bits sign =
      if sign then (getSignedBitfield (src.getD [] ++ List.replicate pad 0) offset bits).map Int64.toInt
      else (getUnsignedBitfield (src.getD [] ++ List.replicate pad 0) offset bits).map fun value => value.toInt64.toInt := by
  unfold bitfieldGet getSignedBitfield
  dsimp only
  rw [getUnsignedBitfield_window src wide fits]

end Window

/-- Bitfields round trip: a field written by setUnsignedBitfield reads back as the value modulo `2 ^ bits`, both
unsigned and as two's complement, and no other bit of the buffer changes; setSignedBitfield then
getSignedBitfield gives back every value the width holds; and the GET path, through its window of nine bytes,
reads what the string extended with zeros holds. -/
theorem bitfield_roundTrip :
    (∀ (p : List UInt8) (offset bits : Nat) (value : UInt64), 0 < bits → bits ≤ 64 →
      offset + bits ≤ 8 * p.length →
      ∃ p', setUnsignedBitfield p offset bits value = some p' ∧ p'.length = p.length ∧
        getUnsignedBitfield p' offset bits = some (UInt64.ofNat (value.toNat % 2 ^ bits)) ∧
        (getSignedBitfield p' offset bits).map Int64.toInt = some (toSignedBits bits (value.toNat % 2 ^ bits)) ∧
        ∀ i, i < offset ∨ offset + bits ≤ i → bitOf p' i = bitOf p i) ∧
    (∀ (p : List UInt8) (offset bits : Nat) (value : Int64), 0 < bits → bits ≤ 64 →
      offset + bits ≤ 8 * p.length → -2 ^ (bits - 1) ≤ value.toInt → value.toInt < 2 ^ (bits - 1) →
      ∃ p', setSignedBitfield p offset bits value = some p' ∧ getSignedBitfield p' offset bits = some value) ∧
    (∀ (src : Option (List UInt8)) (offset bits pad : Nat) (sign : Bool), bits ≤ 64 →
      offset + bits ≤ 8 * ((src.getD []).length + pad) →
      bitfieldGet src offset bits sign =
        if sign then (getSignedBitfield (src.getD [] ++ List.replicate pad 0) offset bits).map Int64.toInt
        else (getUnsignedBitfield (src.getD [] ++ List.replicate pad 0) offset bits).map
          fun value => value.toInt64.toInt) := by
  refine ⟨fun p offset bits value pos wide fits => ?_,
    fun p offset bits value pos wide fits low high => getSignedBitfield_setSignedBitfield fits pos wide low high,
    fun src offset bits pad sign wide fits => bitfieldGet_eq src sign wide fits⟩
  obtain ⟨p', set, len, frame, written⟩ := setUnsignedBitfield_spec value fits wide
  have fits' : offset + bits ≤ 8 * p'.length := by omega
  obtain ⟨u, read, uEq⟩ := getUnsignedBitfield_spec fits' wide
  obtain ⟨v, readSigned, vEq⟩ := getSignedBitfield_spec fits' pos wide
  refine ⟨p', set, len, ?_, ?_, frame⟩
  · rw [read, ← written, ← uEq, UInt64.ofNat_toNat]
  · rw [readSigned, Option.map_some, vEq, written]

theorem bitfield_roundTrip_unaligned :
    (∃ p', setUnsignedBitfield [0, 0] 5 8 171 = some p' ∧ p'.length = 2 ∧
      getUnsignedBitfield p' 5 8 = some (UInt64.ofNat (171 % 2 ^ 8)) ∧
      (getSignedBitfield p' 5 8).map Int64.toInt = some (toSignedBits 8 (171 % 2 ^ 8)) ∧
      ∀ i, i < 5 ∨ 5 + 8 ≤ i → bitOf p' i = bitOf [0, 0] i) ∧
    (∃ p', setSignedBitfield [255] 3 1 (-1) = some p' ∧ getSignedBitfield p' 3 1 = some (-1)) ∧
    bitfieldGet (some [1]) 7 64 false =
      if false then (getSignedBitfield ((some [1]).getD [] ++ List.replicate 8 0) 7 64).map Int64.toInt
      else (getUnsignedBitfield ((some [1]).getD [] ++ List.replicate 8 0) 7 64).map
        fun value => value.toInt64.toInt :=
  ⟨bitfield_roundTrip.1 [0, 0] 5 8 171 (by decide) (by decide) (by decide),
    bitfield_roundTrip.2.1 [255] 3 1 (-1) (by decide) (by decide) (by decide) (by decide) (by decide),
    bitfield_roundTrip.2.2 (some [1]) 7 64 8 false (by decide) (by decide)⟩

end Kv.Bitops
