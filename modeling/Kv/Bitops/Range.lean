import Kv.Bitops.PopcountSimd
import Kv.Util.Conversions

/-!
BITCOUNT and BITPOS of bitops.c, from their parsed arguments: the key's string (none for a
missing key), the bit of BITPOS, and the range, a start alone or a start, an end and a unit.
Negative indices count from the end of the string in the unit, and a range in bits is turned into
a range of bytes and two masks for the bits of its edge bytes outside it. BITCOUNT counts the set
bits of the bytes and takes off those of the masked edges; BITPOS scans a masked first byte, the
bytes in between and a masked last byte with serverBitpos, stopping at the first part that holds
the bit. The long long arithmetic of the commands cannot overflow once the string is at most
LLONG_MAX >> 3 bytes, which they assert, and is done on Int. A wrong key type, an unparsable
number and an unknown unit are replies the model leaves out.
-/

namespace Kv.Bitops

open Foundations

inductive BitUnit
  | byte
  | bit
  deriving DecidableEq, Repr

abbrev RangeArgs := Option (Int64 × Option (Int64 × BitUnit))

def firstByteNegMask (start : Nat) : UInt8 :=
  (~~~(((1 : UInt32) <<< (8 - start % 8).toUInt32) - 1) &&& 0xFF).toUInt8

def lastByteNegMask (stop : Nat) : UInt8 :=
  ((((1 : UInt32) <<< (7 - stop % 8).toUInt32) - 1)).toUInt8

def convertRange (strlen : Nat) (isbit : Bool) (start stop : Int) : Int × Int × UInt8 × UInt8 :=
  let totlen : Int := if isbit then strlen * 8 else strlen
  let start := if start < 0 then totlen + start else start
  let stop := if stop < 0 then totlen + stop else stop
  let start := if start < 0 then 0 else start
  let stop := if stop < 0 then 0 else stop
  let stop := if stop ≥ totlen then totlen - 1 else stop
  if isbit ∧ start ≤ stop then
    (start / 8, stop / 8, firstByteNegMask start.toNat, lastByteNegMask stop.toNat)
  else (start, stop, 0, 0)

/-- The count of BITCOUNT over the bytes `start` to `stop`: serverPopcount of the bytes, less serverPopcount of the
two-byte array `firstlast` with the edge bits outside the range. `avx2` and `aarch64` are what the build and the CPU
offer serverPopcount, and `addr` and `firstlastAddr` the addresses of the string and of the array. -/
def bitcountBytes (avx2 aarch64 : Bool) (addr firstlastAddr : Nat) (p : List UInt8) (start stop : Int)
    (firstMask lastMask : UInt8) : Int :=
  if start > stop then 0
  else
    let count : Int :=
      (serverPopcount avx2 aarch64 (addr + start.toNat) ((p.drop start.toNat).take (stop - start + 1).toNat)).toInt
    if firstMask ≠ 0 ∨ lastMask ≠ 0 then
      -- the bits of the edge bytes outside the range, counted again and taken off
      let first := if firstMask ≠ 0 then p.getD start.toNat 0 &&& firstMask else 0
      let last := if lastMask ≠ 0 then p.getD stop.toNat 0 &&& lastMask else 0
      count - (serverPopcount avx2 aarch64 firstlastAddr [first, last]).toInt
    else count

/-- bitcountCommand: none for the failed serverAssert. -/
def bitcountCommand (avx2 aarch64 : Bool) (addr firstlastAddr : Nat) (o : Option (List UInt8)) (range : RangeArgs) :
    Option Int :=
  match range with
  | none =>
    match o with
    | none => some 0
    | some p => some (bitcountBytes avx2 aarch64 addr firstlastAddr p 0 (p.length - 1) 0 0)
  | some (start, rest) =>
    let p := o.getD []
    if ¬(p.length ≤ Util.llongMax >>> 3) then none
    else
      let isbit := decide (rest.map Prod.snd = some .bit)
      let stop : Int := match rest with
        | some (stop, _) => stop.toInt
        | none => p.length - 1
      if start.toInt < 0 ∧ stop < 0 ∧ start.toInt > stop then some 0
      else
        let (start, stop, firstMask, lastMask) := convertRange p.length isbit start.toInt stop
        if o.isNone then some 0 else some (bitcountBytes avx2 aarch64 addr firstlastAddr p start stop firstMask lastMask)

def maskEdge (bit : Bool) (c mask : UInt8) : UInt8 :=
  if bit then c &&& ~~~mask else c ||| mask

def bitposResult (bit endGiven : Bool) (pos : Int) (start bytes : Nat) : Int :=
  if endGiven ∧ bit = false ∧ pos = (bytes * 8 : Nat) then -1
  else if pos ≠ -1 then pos + (start * 8 : Nat)
  else pos

def bitposLastByte (tmpAddr : Nat) (p : List UInt8) (bit endGiven : Bool) (stop : Nat) (lastMask : UInt8)
    (start bytes : Nat) : Option Int :=
  (serverBitpos tmpAddr [maskEdge bit (p.getD stop 0) lastMask] bit).map (bitposResult bit endGiven · start bytes)

def bitposMiddle (addr tmpAddr : Nat) (p : List UInt8) (bit endGiven : Bool) (stop : Nat) (lastMask : UInt8)
    (start bytes : Nat) : Option Int :=
  let curbytes := bytes - (if lastMask ≠ 0 then 1 else 0)
  if curbytes > 0 then
    match serverBitpos (addr + start) ((p.drop start).take curbytes) bit with
    | none => none
    | some pos =>
      if bytes = curbytes ∨ (pos ≠ -1 ∧ pos ≠ (curbytes * 8 : Nat)) then some (bitposResult bit endGiven pos start bytes)
      else bitposLastByte tmpAddr p bit endGiven stop lastMask (start + curbytes) (bytes - curbytes)
  else bitposLastByte tmpAddr p bit endGiven stop lastMask start bytes

def bitposBytes (addr tmpAddr : Nat) (p : List UInt8) (bit endGiven : Bool) (start stop : Nat)
    (firstMask lastMask : UInt8) : Option Int :=
  let bytes := stop - start + 1
  if firstMask ≠ 0 then
    let tmpchar := maskEdge bit (p.getD start 0) firstMask
    -- a range inside one byte masks it at both ends
    let tmpchar := if lastMask ≠ 0 ∧ bytes = 1 then maskEdge bit tmpchar lastMask else tmpchar
    match serverBitpos tmpAddr [tmpchar] bit with
    | none => none
    | some pos =>
      if bytes = 1 ∨ (pos ≠ -1 ∧ pos ≠ 8) then some (bitposResult bit endGiven pos start bytes)
      else bitposMiddle addr tmpAddr p bit endGiven stop lastMask (start + 1) (bytes - 1)
  else bitposMiddle addr tmpAddr p bit endGiven stop lastMask start bytes

/-- bitposCommand for a string at address addr and tmpchar at address tmpAddr: none for the failed
serverAssert or the serverPanic. -/
def bitposCommand (addr tmpAddr : Nat) (o : Option (List UInt8)) (bit : Int) (range : RangeArgs) :
    Option (Except String Int) :=
  if bit ≠ 0 ∧ bit ≠ 1 then some (.error "The bit argument must be 1 or 0.")
  else
    let b := decide (bit = 1)
    match range with
    | none =>
      match o with
      | none => some (.ok (if b then -1 else 0))
      | some p =>
        if (0 : Int) > p.length - 1 then some (.ok (-1))
        else (bitposBytes addr tmpAddr p b false 0 (p.length - 1) 0 0).map .ok
    | some (start, rest) =>
      let p := o.getD []
      if ¬(p.length ≤ Util.llongMax >>> 3) then none
      else
        let isbit := decide (rest.map Prod.snd = some .bit)
        let stop : Int := match rest with
          | some (stop, _) => stop.toInt
          | none => p.length - 1
        let (start, stop, firstMask, lastMask) := convertRange p.length isbit start.toInt stop
        if o.isNone then some (.ok (if b then -1 else 0))
        else if start > stop then some (.ok (-1))
        else (bitposBytes addr tmpAddr p b rest.isSome start.toNat stop.toNat firstMask lastMask).map .ok

section Masks

theorem firstByteNegMask_mod (a : Nat) : firstByteNegMask a = firstByteNegMask (a % 8) := by
  simp [firstByteNegMask]

theorem lastByteNegMask_mod (b : Nat) : lastByteNegMask b = lastByteNegMask (b % 8) := by
  simp [lastByteNegMask]

theorem testBit_firstByteNegMask (a : Nat) {t : Nat} (low : t < 8) :
    (firstByteNegMask a).toNat.testBit (7 - t) = decide (t < a % 8) := by
  have table : ∀ k < 8, ∀ t < 8, (firstByteNegMask k).toNat.testBit (7 - t) = decide (t < k) := by decide
  rw [firstByteNegMask_mod, table _ (Nat.mod_lt _ (by decide)) t low]

theorem testBit_lastByteNegMask (b : Nat) {t : Nat} (low : t < 8) :
    (lastByteNegMask b).toNat.testBit (7 - t) = decide (b % 8 < t) := by
  have table : ∀ k < 8, ∀ t < 8, (lastByteNegMask k).toNat.testBit (7 - t) = decide (k < t) := by decide
  rw [lastByteNegMask_mod, table _ (Nat.mod_lt _ (by decide)) t low]

theorem firstByteNegMask_eq_zero (a : Nat) : firstByteNegMask a = 0 ↔ a % 8 = 0 := by
  have table : ∀ k < 8, (firstByteNegMask k = 0 ↔ k = 0) := by decide
  rw [firstByteNegMask_mod, table _ (Nat.mod_lt _ (by decide))]

theorem lastByteNegMask_eq_zero (b : Nat) : lastByteNegMask b = 0 ↔ b % 8 = 7 := by
  have table : ∀ k < 8, (lastByteNegMask k = 0 ↔ k = 7) := by decide
  rw [lastByteNegMask_mod, table _ (Nat.mod_lt _ (by decide))]

theorem testBit_not (m : UInt8) {t : Nat} (low : t < 8) : (~~~m).toNat.testBit t = !m.toNat.testBit t := by
  have table : ∀ x < 256, ∀ t < 8, (255 - x).testBit t = !x.testBit t := by decide +kernel
  rw [UInt8.toNat_not]
  exact table m.toNat m.toNat_lt t low

theorem bitOf_maskEdge (bit : Bool) (c m : UInt8) {j : Nat} (low : j < 8) :
    bitOf [maskEdge bit c m] j = if m.toNat.testBit (7 - j) then !bit else bitOf [c] j := by
  have byte : ∀ d : UInt8, bitOf [d] j = d.toNat.testBit (7 - j) := fun d => by
    simpa using bitOf_byte [d] 0 low
  rw [byte, byte]
  cases bit
  · simp only [maskEdge, Bool.false_eq_true, if_false, UInt8.toNat_or, Nat.testBit_or]
    cases m.toNat.testBit (7 - j) <;> simp
  · simp only [maskEdge, if_true, UInt8.toNat_and, Nat.testBit_and, testBit_not m (show 7 - j < 8 by omega)]
    cases m.toNat.testBit (7 - j) <;> simp

theorem bitOf_and (c m : UInt8) {t : Nat} (low : t < 8) :
    bitOf [c &&& m] t = (bitOf [c] t && m.toNat.testBit (7 - t)) := by
  have byte : ∀ d : UInt8, bitOf [d] t = d.toNat.testBit (7 - t) := fun d => by
    simpa using bitOf_byte [d] 0 low
  rw [byte, byte, UInt8.toNat_and, Nat.testBit_and]

@[simp] theorem onesIn_zero (s : List UInt8) (lo : Nat) : onesIn s lo 0 = 0 := rfl

theorem onesIn_eq_zero {s : List UInt8} {lo n : Nat} (never : ∀ j, lo ≤ j → j < lo + n → bitOf s j = false) :
    onesIn s lo n = 0 := by
  unfold onesIn
  rw [List.countP_eq_zero]
  intro j mem
  rw [List.mem_range'_1] at mem
  simp [never j mem.1 mem.2]

theorem onesIn_byte (p : List UInt8) (k : Nat) {lo n : Nat} (inside : lo + n ≤ 8) :
    onesIn p (8 * k + lo) n = onesIn [p.getD k 0] lo n := by
  apply onesIn_congr
  intro j low
  rw [Nat.add_assoc, bitOf_byte p k (show lo + j < 8 by omega)]
  simpa using (bitOf_byte [p.getD k 0] 0 (show lo + j < 8 by omega)).symm

structure EdgeMasks (a b : Nat) (firstMask lastMask : UInt8) : Prop where
  first : ∀ t < 8, firstMask.toNat.testBit (7 - t) = decide (t < a % 8)
  last : ∀ t < 8, lastMask.toNat.testBit (7 - t) = decide (b % 8 < t)

theorem eq_zero_iff_testBit (m : UInt8) : m = 0 ↔ ∀ t < 8, m.toNat.testBit (7 - t) = false := by
  have table : ∀ n < 256, (n = 0 ↔ ∀ t < 8, n.testBit (7 - t) = false) := by decide +kernel
  rw [← UInt8.toNat_inj, show UInt8.toNat 0 = 0 from rfl, table m.toNat m.toNat_lt]

namespace EdgeMasks

variable {a b : Nat} {firstMask lastMask : UInt8}

theorem firstMask_eq_zero (masks : EdgeMasks a b firstMask lastMask) : firstMask = 0 ↔ a % 8 = 0 := by
  rw [eq_zero_iff_testBit]
  constructor
  · intro none
    have := none 0 (by decide)
    rw [masks.first 0 (by decide)] at this
    simpa using this
  · intro aligned t low
    rw [masks.first t low, aligned]
    simp

theorem lastMask_eq_zero (masks : EdgeMasks a b firstMask lastMask) : lastMask = 0 ↔ b % 8 = 7 := by
  rw [eq_zero_iff_testBit]
  have small : b % 8 < 8 := Nat.mod_lt _ (by decide)
  constructor
  · intro none
    have := none 7 (by decide)
    rw [masks.last 7 (by decide)] at this
    simp at this
    omega
  · intro aligned t low
    rw [masks.last t low, aligned]
    simp
    omega

theorem of_bits (a b : Nat) : EdgeMasks a b (firstByteNegMask a) (lastByteNegMask b) :=
  ⟨fun _ low => testBit_firstByteNegMask a low, fun _ low => testBit_lastByteNegMask b low⟩

theorem of_bytes (A B : Nat) : EdgeMasks (8 * A) (8 * B + 7) 0 0 :=
  ⟨fun t _ => by simp, fun t _ => by simp; omega⟩

end EdgeMasks

theorem onesIn_and_first (c : UInt8) {a : Nat} {m : UInt8} (first : ∀ t < 8, m.toNat.testBit (7 - t) = decide (t < a % 8)) :
    onesIn [c &&& m] 0 8 = onesIn [c] 0 (a % 8) := by
  have small : a % 8 < 8 := Nat.mod_lt _ (by decide)
  have split := onesIn_add [c &&& m] 0 (a % 8) (8 - a % 8)
  rw [show a % 8 + (8 - a % 8) = 8 by omega, Nat.zero_add] at split
  rw [split]
  have outside : onesIn [c &&& m] (a % 8) (8 - a % 8) = 0 := by
    apply onesIn_eq_zero
    intro j low high
    rw [bitOf_and c _ (by omega), first _ (by omega)]
    simp; omega
  rw [outside, Nat.add_zero]
  apply onesIn_congr
  intro j low
  rw [bitOf_and c _ (by omega), first _ (by omega)]
  simp; omega

theorem onesIn_and_last (c : UInt8) {b : Nat} {m : UInt8} (last : ∀ t < 8, m.toNat.testBit (7 - t) = decide (b % 8 < t)) :
    onesIn [c &&& m] 0 8 = onesIn [c] (b % 8 + 1) (7 - b % 8) := by
  have small : b % 8 < 8 := Nat.mod_lt _ (by decide)
  have split := onesIn_add [c &&& m] 0 (b % 8 + 1) (7 - b % 8)
  rw [show b % 8 + 1 + (7 - b % 8) = 8 by omega, Nat.zero_add] at split
  rw [split]
  have outside : onesIn [c &&& m] 0 (b % 8 + 1) = 0 := by
    apply onesIn_eq_zero
    intro j low high
    rw [bitOf_and c _ (by omega), last _ (by omega)]
    simp; omega
  rw [outside, Nat.zero_add]
  apply onesIn_congr
  intro j low
  rw [bitOf_and c _ (by omega), last _ (by omega)]
  simp; omega

end Masks

section Count

variable (avx2 aarch64 : Bool) (addr firstlastAddr : Nat) (p : List UInt8)

theorem bitsinbyteSum_pair (first last : UInt8) :
    bitsinbyteSum [first, last] = onesIn [first] 0 8 + onesIn [last] 0 8 := by
  simp [bitsinbyteSum, bitsinbyte_eq]

theorem bitcountBytes_spec {a b : Nat} {firstMask lastMask : UInt8} (masks : EdgeMasks a b firstMask lastMask)
    (le : a ≤ b) (inside : b < 8 * p.length) (fits : p.length ≤ Util.llongMax >>> 3) :
    bitcountBytes avx2 aarch64 addr firstlastAddr p (a / 8 : Nat) (b / 8 : Nat) firstMask lastMask =
      onesIn p a (b - a + 1) := by
  have count := bitsinbyteSum_slice p (s := a / 8) (n := b / 8 - a / 8 + 1) (by omega)
  -- the long long sums cannot wrap: the string has fewer than 2^63 bits
  have small : 8 * ((p.drop (a / 8)).take (b / 8 - a / 8 + 1)).length < 2 ^ 63 := by
    rw [List.length_take, List.length_drop]
    unfold Util.llongMax at fits
    omega
  -- the bytes are the bits before a, the range, and the bits after b
  have whole : onesIn p (8 * (a / 8)) (8 * (b / 8 - a / 8 + 1)) =
      onesIn p (8 * (a / 8)) (a % 8) + onesIn p a (b - a + 1) + onesIn p (b + 1) (7 - b % 8) := by
    have outer := onesIn_add p (8 * (a / 8)) (a % 8) ((b - a + 1) + (7 - b % 8))
    have inner := onesIn_add p (8 * (a / 8) + a % 8) (b - a + 1) (7 - b % 8)
    rw [show 8 * (a / 8) + a % 8 = a by omega, show a + (b - a + 1) = b + 1 by omega] at inner
    rw [show a % 8 + (b - a + 1 + (7 - b % 8)) = 8 * (b / 8 - a / 8 + 1) by omega,
      show 8 * (a / 8) + a % 8 = a by omega] at outer
    rw [outer, inner, Nat.add_assoc]
  have firstEdge : onesIn [if firstMask ≠ 0 then p.getD (a / 8) 0 &&& firstMask else 0] 0 8 =
      onesIn p (8 * (a / 8)) (a % 8) := by
    split_ifs with masked
    · rw [onesIn_and_first _ masks.first, ← onesIn_byte p (a / 8) (by omega), Nat.add_zero]
    · rw [not_not, masks.firstMask_eq_zero] at masked
      rw [masked, onesIn_zero]
      exact onesIn_eq_zero fun j _ _ => by simp [bitOf_def]
  have lastEdge : onesIn [if lastMask ≠ 0 then p.getD (b / 8) 0 &&& lastMask else 0] 0 8 =
      onesIn p (b + 1) (7 - b % 8) := by
    split_ifs with masked
    · rw [onesIn_and_last _ masks.last, ← onesIn_byte p (b / 8) (by omega),
        show 8 * (b / 8) + (b % 8 + 1) = b + 1 by omega]
    · rw [not_not, masks.lastMask_eq_zero] at masked
      rw [show 7 - b % 8 = 0 by omega, onesIn_zero]
      exact onesIn_eq_zero fun j _ _ => by simp [bitOf_def]
  simp only [bitcountBytes, show ¬(((a / 8 : Nat) : Int) > (b / 8 : Nat)) by omega, if_false, Int.toNat_natCast,
    show ((b / 8 : Nat) - ((a / 8 : Nat) : Int) + 1).toNat = b / 8 - a / 8 + 1 by omega,
    toInt_serverPopcount avx2 aarch64 _ small, count]
  by_cases masked : firstMask ≠ 0 ∨ lastMask ≠ 0
  · rw [if_pos masked, toInt_serverPopcount avx2 aarch64 firstlastAddr (by simp), bitsinbyteSum_pair, firstEdge,
      lastEdge, whole]
    push_cast
    omega
  · rw [if_neg masked]
    rw [not_or, not_not, not_not, masks.firstMask_eq_zero, masks.lastMask_eq_zero] at masked
    rw [whole, show a % 8 = 0 from masked.1, show 7 - b % 8 = 0 by omega, onesIn_zero, onesIn_zero]
    simp

end Count

section Scan

def bitposAnswer (s : List UInt8) (bit endGiven : Bool) (lo n : Nat) : Int :=
  match firstBitIn s bit lo n with
  | some i => i
  | none => if !endGiven && !bit && 0 < n then ((lo + n : Nat) : Int) else -1

theorem firstBitIn_masked (p : List UInt8) (bit : Bool) (k : Nat) {tmp : UInt8} {lo hi : Nat}
    (high : hi < 8) (le : lo ≤ hi)
    (bits : ∀ t < 8, bitOf [tmp] t = if lo ≤ t ∧ t ≤ hi then bitOf p (8 * k + t) else !bit) :
    firstBitIn p bit (8 * k + lo) (hi - lo + 1) = (firstBitIn [tmp] bit 0 8).map (8 * k + ·) := by
  have outside : ∀ t, t < 8 → ¬(lo ≤ t ∧ t ≤ hi) → bitOf [tmp] t ≠ bit := by
    intro t low out
    rw [bits t low, if_neg out]
    cases bit <;> decide
  have inner : firstBitIn [tmp] bit 0 8 = firstBitIn [tmp] bit lo (hi - lo + 1) := by
    have whole := firstBitIn_add [tmp] bit 0 lo ((hi - lo + 1) + (7 - hi))
    have tail := firstBitIn_add [tmp] bit lo (hi - lo + 1) (7 - hi)
    rw [show lo + (hi - lo + 1 + (7 - hi)) = 8 by omega, Nat.zero_add] at whole
    rw [show lo + (hi - lo + 1) = hi + 1 by omega] at tail
    have before : firstBitIn [tmp] bit 0 lo = none :=
      firstBitIn_eq_none.mpr fun t _ high' => outside t (by omega) (by omega)
    have after : firstBitIn [tmp] bit (hi + 1) (7 - hi) = none :=
      firstBitIn_eq_none.mpr fun t low' high' => outside t (by omega) (by omega)
    rw [whole, tail, before, after, Option.none_or, Option.or_none]
  rw [inner, firstBitIn_eq_map, firstBitIn_eq_map, Option.map_map]
  congr 1
  · funext j
    simp only [Function.comp]
    omega
  · apply find?_congr
    intro j mem
    rw [List.mem_range] at mem
    rw [bits (lo + j) (by omega), if_pos (by omega), Nat.add_assoc]

theorem bitOf_getD (p : List UInt8) (k : Nat) {t : Nat} (low : t < 8) : bitOf [p.getD k 0] t = bitOf p (8 * k + t) := by
  rw [bitOf_byte p k low]
  simpa using bitOf_byte [p.getD k 0] 0 low

theorem length_slice (p : List UInt8) {s n : Nat} (fits : s + n ≤ p.length) : ((p.drop s).take n).length = n := by
  simp only [List.length_take, List.length_drop]
  omega

section Stages

variable (addr tmpAddr : Nat) (p : List UInt8) (bit endGiven : Bool)

theorem bitposResult_found {i bytes : Nat} (start : Nat) (low : i < 8 * bytes) :
    bitposResult bit endGiven i start bytes = ((8 * start + i : Nat) : Int) := by
  unfold bitposResult
  rw [if_neg (by omega), if_pos (by omega)]
  push_cast
  omega

theorem bitposResult_missed (start bytes : Nat) :
    bitposResult bit endGiven (if bit then -1 else ((8 * bytes : Nat) : Int)) start bytes =
      if !endGiven && !bit then ((8 * (start + bytes) : Nat) : Int) else -1 := by
  cases bit <;> cases endGiven <;> simp [bitposResult] <;> omega

theorem bitposAnswer_found {lo m n i : Nat} (hit : firstBitIn p bit lo m = some i) (le : m ≤ n) :
    bitposAnswer p bit endGiven lo n = i := by
  have whole := firstBitIn_add p bit lo m (n - m)
  rw [Nat.add_sub_cancel' le, hit, Option.some_or] at whole
  rw [bitposAnswer, whole]

theorem bitposAnswer_skip {lo m n : Nat} (miss : firstBitIn p bit lo m = none) (pos : 0 < n) :
    bitposAnswer p bit endGiven lo (m + n) = bitposAnswer p bit endGiven (lo + m) n := by
  unfold bitposAnswer
  rw [firstBitIn_add, miss, Option.none_or, Nat.add_assoc]
  simp only [show 0 < m + n by omega, pos]

theorem bitposResult_masked (k : Nat) {tmp : UInt8} {lo hi : Nat} (high : hi < 8) (le : lo ≤ hi)
    (bits : ∀ t < 8, bitOf [tmp] t = if lo ≤ t ∧ t ≤ hi then bitOf p (8 * k + t) else !bit) :
    (serverBitpos tmpAddr [tmp] bit).map (bitposResult bit true · k 1) =
      some (bitposAnswer p bit true (8 * k + lo) (hi - lo + 1)) := by
  have scan := firstBitIn_masked p bit k high le bits
  rw [serverBitpos_spec, Option.map_some, bitposAnswer, scan]
  rcases hit : firstBitIn [tmp] bit 0 8 with _ | i
  · rw [show 8 * [tmp].length = 8 * 1 from rfl, bitposResult_missed]
    simp
  · have low : i < 8 * 1 := (firstBitIn_eq_some.mp hit).2.1
    rw [bitposResult_found bit true k low]
    rfl

theorem bitposLastByte_spec {b : Nat} {lastMask : UInt8} (last : ∀ t < 8, lastMask.toNat.testBit (7 - t) = decide (b % 8 < t)) :
    bitposLastByte tmpAddr p bit true (b / 8) lastMask (b / 8) 1 = some (bitposAnswer p bit true (8 * (b / 8)) (b % 8 + 1)) := by
  have bits : ∀ t < 8, bitOf [maskEdge bit (p.getD (b / 8) 0) lastMask] t =
      if 0 ≤ t ∧ t ≤ b % 8 then bitOf p (8 * (b / 8) + t) else !bit := by
    intro t low
    rw [bitOf_maskEdge bit _ _ low, last t low, bitOf_getD p _ low]
    by_cases before : t ≤ b % 8
    · simp [before]
    · simp [before]
  have scan := bitposResult_masked tmpAddr p bit (b / 8) (Nat.mod_lt b (by decide)) (Nat.zero_le _) bits
  rwa [Nat.sub_zero, Nat.add_zero] at scan

theorem bitposResult_slice {s n : Nat} (fits : s + n ≤ p.length) (pos : 0 < n) :
    (serverBitpos addr ((p.drop s).take n) bit).map (bitposResult bit endGiven · s n) =
      some (bitposAnswer p bit endGiven (8 * s) (8 * n)) := by
  rw [serverBitpos_spec, length_slice p fits, Option.map_some, bitposAnswer, firstBitIn_slice]
  rcases hit : firstBitIn ((p.drop s).take n) bit 0 (8 * n) with _ | i
  · rw [bitposResult_missed]
    simp [show 0 < 8 * n by omega, Nat.mul_add]
  · have low : i < 8 * n := by simpa using (firstBitIn_eq_some.mp hit).2.1
    rw [bitposResult_found bit endGiven s low]
    rfl

theorem bitposMiddle_spec {a b s : Nat} {firstMask lastMask : UInt8} (masks : EdgeMasks a b firstMask lastMask)
    (given : lastMask ≠ 0 → endGiven = true) (upto : s ≤ b / 8) (inside : b < 8 * p.length) :
    bitposMiddle addr tmpAddr p bit endGiven (b / 8) lastMask s (b / 8 - s + 1) =
      some (bitposAnswer p bit endGiven (8 * s) (b + 1 - 8 * s)) := by
  unfold bitposMiddle
  by_cases whole : lastMask = 0
  · -- the last byte is not masked and is scanned with the others
    have aligned : b % 8 = 7 := masks.lastMask_eq_zero.mp whole
    have scan := bitposResult_slice (addr + s) p bit endGiven (s := s) (n := b / 8 - s + 1) (by omega) (by omega)
    obtain ⟨pos, ran⟩ : ∃ pos, serverBitpos (addr + s) ((p.drop s).take (b / 8 - s + 1)) bit = some pos :=
      ⟨_, serverBitpos_spec _ _ _⟩
    rw [ran, Option.map_some, show 8 * (b / 8 - s + 1) = b + 1 - 8 * s by omega] at scan
    simp only [whole, ne_eq, not_true_eq_false, if_false, Nat.sub_zero, show b / 8 - s + 1 > 0 by omega, if_true,
      ran, true_or]
    exact scan
  · have ended := given whole
    subst ended
    have unaligned : b % 8 ≠ 7 := fun aligned => whole (masks.lastMask_eq_zero.mpr aligned)
    have lastByte := bitposLastByte_spec tmpAddr p bit masks.last
    simp only [whole, ne_eq, not_false_eq_true, if_true, Nat.add_sub_cancel]
    by_cases before : s < b / 8
    · -- the whole bytes before the last, then the last byte if they miss
      rw [if_pos (show b / 8 - s > 0 by omega), serverBitpos_spec, length_slice p (by omega)]
      rcases hit : firstBitIn ((p.drop s).take (b / 8 - s)) bit 0 (8 * (b / 8 - s)) with _ | i
      · have miss : firstBitIn p bit (8 * s) (8 * (b / 8 - s)) = none := by
          rw [firstBitIn_slice, hit]
          rfl
        have stays : ¬(b / 8 - s + 1 = b / 8 - s ∨ ((if bit then -1 else ((8 * (b / 8 - s) : Nat) : Int)) ≠ -1 ∧
            (if bit then -1 else ((8 * (b / 8 - s) : Nat) : Int)) ≠ ((b / 8 - s) * 8 : Nat))) := by
          cases bit
          · simp
            omega
          · simp
        simp only [stays, if_false]
        rw [show s + (b / 8 - s) = b / 8 by omega, show b / 8 - s + 1 - (b / 8 - s) = 1 by omega, lastByte,
          show b + 1 - 8 * s = 8 * (b / 8 - s) + (b % 8 + 1) by omega, bitposAnswer_skip p bit true miss (by omega),
          show 8 * s + 8 * (b / 8 - s) = 8 * (b / 8) by omega]
      · have low : i < 8 * (b / 8 - s) := by simpa using (firstBitIn_eq_some.mp hit).2.1
        have found : firstBitIn p bit (8 * s) (8 * (b / 8 - s)) = some (8 * s + i) := by
          rw [firstBitIn_slice, hit]
          rfl
        have stops : (i : Int) ≠ -1 ∧ (i : Int) ≠ ((b / 8 - s) * 8 : Nat) := by omega
        simp only [stops, not_false_eq_true, and_self, or_true, if_true]
        rw [bitposResult_found bit true s (show i < 8 * (b / 8 - s + 1) by omega),
          bitposAnswer_found p bit true found (by omega)]
    · -- s is the last byte
      rw [if_neg (by omega), show s = b / 8 by omega, Nat.sub_self, Nat.zero_add, lastByte, show b + 1 - 8 * (b / 8) = b % 8 + 1 by omega]

theorem bitposBytes_spec {a b : Nat} {firstMask lastMask : UInt8} (masks : EdgeMasks a b firstMask lastMask)
    (given : firstMask ≠ 0 ∨ lastMask ≠ 0 → endGiven = true) (le : a ≤ b) (inside : b < 8 * p.length) :
    bitposBytes addr tmpAddr p bit endGiven (a / 8) (b / 8) firstMask lastMask =
      some (bitposAnswer p bit endGiven a (b - a + 1)) := by
  unfold bitposBytes
  by_cases aligned : firstMask = 0
  · -- a starts a byte, and the scan starts with whole bytes
    have start : 8 * (a / 8) = a := by
      have := masks.firstMask_eq_zero.mp aligned
      omega
    rw [if_neg (by simpa using aligned),
      bitposMiddle_spec addr tmpAddr p bit endGiven masks (fun m => given (.inr m)) (by omega) inside, start,
      show b + 1 - a = b - a + 1 by omega]
  · have ended := given (.inl aligned)
    subst ended
    have offset : a % 8 ≠ 0 := fun zero => aligned (masks.firstMask_eq_zero.mpr zero)
    have first : ∀ t < 8, bitOf [maskEdge bit (p.getD (a / 8) 0) firstMask] t =
        if a % 8 ≤ t ∧ t ≤ 7 then bitOf p (8 * (a / 8) + t) else !bit := by
      intro t low
      rw [bitOf_maskEdge bit _ _ low, masks.first t low, bitOf_getD p _ low]
      by_cases after : a % 8 ≤ t
      · simp [show ¬t < a % 8 by omega, after, show t ≤ 7 by omega]
      · simp [show t < a % 8 by omega, after]
    dsimp only
    rw [if_pos aligned]
    by_cases one : a / 8 = b / 8
    · -- the bits lie in one byte, masked at both ends
      rw [show b / 8 - a / 8 + 1 = 1 by omega]
      set tmp := if lastMask ≠ 0 ∧ 1 = 1 then maskEdge bit (maskEdge bit (p.getD (a / 8) 0) firstMask) lastMask
        else maskEdge bit (p.getD (a / 8) 0) firstMask with tmpDef
      have bits : ∀ t < 8, bitOf [tmp] t = if a % 8 ≤ t ∧ t ≤ b % 8 then bitOf p (8 * (a / 8) + t) else !bit := by
        intro t low
        rw [tmpDef]
        by_cases whole : lastMask = 0
        · have aligned' : b % 8 = 7 := masks.lastMask_eq_zero.mp whole
          simp only [whole, ne_eq, not_true_eq_false, false_and, if_false, first t low, aligned']
        · simp only [whole, ne_eq, not_false_eq_true, and_self, if_true]
          rw [bitOf_maskEdge bit _ _ low, masks.last t low, first t low]
          by_cases before : t ≤ b % 8
          · simp [before, show ¬b % 8 < t by omega, show t ≤ 7 by omega]
          · simp [before, show b % 8 < t by omega]
      have scan := bitposResult_masked tmpAddr p bit (a / 8) (Nat.mod_lt b (by decide)) (by omega) bits
      obtain ⟨pos, ran⟩ : ∃ pos, serverBitpos tmpAddr [tmp] bit = some pos := ⟨_, serverBitpos_spec _ _ _⟩
      rw [ran, Option.map_some, show 8 * (a / 8) + a % 8 = a by omega, show b % 8 - a % 8 + 1 = b - a + 1 by omega]
        at scan
      rw [ran]
      simp only
      rw [if_pos (Or.inl trivial)]
      exact scan
    · -- the first byte, then the bytes after it
      rw [if_neg (show ¬(lastMask ≠ 0 ∧ b / 8 - a / 8 + 1 = 1) by omega)]
      have scan := firstBitIn_masked p bit (a / 8) (show 7 < 8 by decide) (by omega) first
      rw [show 8 * (a / 8) + a % 8 = a by omega] at scan
      rw [serverBitpos_spec]
      rcases hit : firstBitIn [maskEdge bit (p.getD (a / 8) 0) firstMask] bit 0 8 with _ | i
      · have miss : firstBitIn p bit a (8 - a % 8) = none := by
          rw [show 8 - a % 8 = 7 - a % 8 + 1 by omega, scan, hit]
          rfl
        have goesOn : ¬(b / 8 - a / 8 + 1 = 1 ∨ ((if bit then -1 else ((8 * [maskEdge bit (p.getD (a / 8) 0) firstMask].length : Nat) : Int)) ≠ -1 ∧
            (if bit then -1 else ((8 * [maskEdge bit (p.getD (a / 8) 0) firstMask].length : Nat) : Int)) ≠ 8)) := by
          cases bit <;> simp <;> omega
        simp only [goesOn, if_false]
        rw [show b / 8 - a / 8 + 1 - 1 = b / 8 - (a / 8 + 1) + 1 by omega,
          bitposMiddle_spec addr tmpAddr p bit true masks (fun _ => rfl) (by omega) inside,
          show b - a + 1 = (8 - a % 8) + (b + 1 - 8 * (a / 8 + 1)) by omega,
          bitposAnswer_skip p bit true miss (by omega), show a + (8 - a % 8) = 8 * (a / 8 + 1) by omega]
      · have low : i < 8 := by simpa using (firstBitIn_eq_some.mp hit).2.1
        have found : firstBitIn p bit a (8 - a % 8) = some (8 * (a / 8) + i) := by
          rw [show 8 - a % 8 = 7 - a % 8 + 1 by omega, scan, hit]
          rfl
        have stops : (i : Int) ≠ -1 ∧ (i : Int) ≠ 8 := by omega
        simp only
        rw [if_pos (Or.inr stops), bitposResult_found bit true (a / 8) (show i < 8 * (b / 8 - a / 8 + 1) by omega),
          bitposAnswer_found p bit true found (by omega)]

end Stages

end Scan

section Spec

def normalizeRange (total start stop : Int) : Int × Int :=
  (max 0 (if start < 0 then total + start else start), min (total - 1) (max 0 (if stop < 0 then total + stop else stop)))

def rangeBits (len : Nat) (unit : BitUnit) (start stop : Int) : Nat × Nat :=
  match unit with
  | .byte =>
    let (lo, hi) := normalizeRange len start stop
    (8 * lo.toNat, 8 * (hi - lo + 1).toNat)
  | .bit =>
    let (lo, hi) := normalizeRange (8 * len) start stop
    (lo.toNat, (hi - lo + 1).toNat)

def bitcountSpec (s : List UInt8) : RangeArgs → Nat
  | none => onesIn s 0 (8 * s.length)
  | some (start, none) =>
    let (lo, n) := rangeBits s.length .byte start.toInt (s.length - 1)
    onesIn s lo n
  | some (start, some (stop, unit)) =>
    if start.toInt < 0 ∧ stop.toInt < 0 ∧ start.toInt > stop.toInt then 0
    else
      let (lo, n) := rangeBits s.length unit start.toInt stop.toInt
      onesIn s lo n

def bitposSpec (s : List UInt8) (bit : Bool) : RangeArgs → Int
  | none => bitposAnswer s bit false 0 (8 * s.length)
  | some (start, none) =>
    let (lo, n) := rangeBits s.length .byte start.toInt (s.length - 1)
    bitposAnswer s bit false lo n
  | some (start, some (stop, unit)) =>
    let (lo, n) := rangeBits s.length unit start.toInt stop.toInt
    bitposAnswer s bit true lo n

theorem normalizeRange_bounds (total start stop : Int) :
    0 ≤ (normalizeRange total start stop).1 ∧ (normalizeRange total start stop).2 ≤ total - 1 := by
  unfold normalizeRange
  omega

theorem convertRange_eq (strlen : Nat) (isbit : Bool) (start stop : Int) :
    convertRange strlen isbit start stop =
      let (lo, hi) := normalizeRange (if isbit then strlen * 8 else strlen) start stop
      if isbit ∧ lo ≤ hi then (lo / 8, hi / 8, firstByteNegMask lo.toNat, lastByteNegMask hi.toNat)
      else (lo, hi, 0, 0) := by
  have low : ∀ x : Int, (if x < 0 then 0 else x) = max 0 x := fun x => by omega
  have high : ∀ total y : Int, (if y ≥ total then total - 1 else y) = min (total - 1) y := fun total y => by omega
  simp only [convertRange, normalizeRange, low, high]
  rfl

theorem convertRange_cases (len : Nat) (unit : BitUnit) (start stop : Int) :
    (∃ lo hi firstMask lastMask, convertRange len (decide (unit = .bit)) start stop = (lo, hi, firstMask, lastMask) ∧
      hi < lo ∧ (rangeBits len unit start stop).2 = 0) ∨
    ∃ a b firstMask lastMask, EdgeMasks a b firstMask lastMask ∧ (firstMask ≠ 0 ∨ lastMask ≠ 0 → unit = .bit) ∧
      a ≤ b ∧ b < 8 * len ∧ rangeBits len unit start stop = (a, b - a + 1) ∧
      convertRange len (decide (unit = .bit)) start stop = (((a / 8 : Nat) : Int), ((b / 8 : Nat) : Int), firstMask, lastMask) := by
  rw [convertRange_eq]
  cases unit with
  | byte =>
    have bounds := normalizeRange_bounds len start stop
    simp only [rangeBits, show decide (BitUnit.byte = .bit) = false from rfl, Bool.false_eq_true, if_false, false_and]
    generalize normalizeRange (len : Int) start stop = range at bounds ⊢
    obtain ⟨lo, hi⟩ := range
    dsimp only at bounds
    by_cases empty : hi < lo
    · exact .inl ⟨lo, hi, 0, 0, rfl, empty, by simp; omega⟩
    · -- whole bytes lo to hi, with no masks
      refine .inr ⟨8 * lo.toNat, 8 * hi.toNat + 7, 0, 0, EdgeMasks.of_bytes _ _, by simp, by omega, by omega, ?_, ?_⟩
      · simp only [Prod.mk.injEq, true_and]
        omega
      · simp only [Prod.mk.injEq, and_true]
        omega
  | bit =>
    have bounds := normalizeRange_bounds (8 * len) start stop
    simp only [rangeBits, decide_true, if_true, true_and, Int.mul_comm (len : Int) 8]
    generalize normalizeRange (8 * (len : Int)) start stop = range at bounds ⊢
    obtain ⟨lo, hi⟩ := range
    dsimp only at bounds
    by_cases empty : hi < lo
    · refine .inl ⟨lo, hi, 0, 0, ?_, empty, by simp; omega⟩
      rw [if_neg (by omega)]
    · -- the bits lo to hi, in the bytes holding them
      refine .inr ⟨lo.toNat, hi.toNat, _, _, EdgeMasks.of_bits _ _, fun _ => trivial, by omega, by omega, ?_, ?_⟩
      · simp only [Prod.mk.injEq, true_and]
        omega
      · rw [if_pos (by omega)]
        simp only [Prod.mk.injEq, and_true]
        omega

theorem bitcountBytes_convertRange (avx2 aarch64 : Bool) (addr firstlastAddr : Nat) (s : List UInt8) (unit : BitUnit)
    {start stop : Int} {r : Int × Int × UInt8 × UInt8} (converted : convertRange s.length (decide (unit = .bit)) start stop = r)
    (fits : s.length ≤ Util.llongMax >>> 3) :
    bitcountBytes avx2 aarch64 addr firstlastAddr s r.1 r.2.1 r.2.2.1 r.2.2.2 =
      (onesIn s (rangeBits s.length unit start stop).1 (rangeBits s.length unit start stop).2 : Int) := by
  subst converted
  rcases convertRange_cases s.length unit start stop with
    ⟨lo, hi, firstMask, lastMask, converted, empty, none⟩ | ⟨a, b, firstMask, lastMask, masks, -, le, inside, bits, converted⟩
  · rw [converted, none, onesIn_zero]
    simp [bitcountBytes, empty]
  · rw [converted, bits]
    exact bitcountBytes_spec avx2 aarch64 addr firstlastAddr s masks le inside fits

theorem bitposAnswer_zero (s : List UInt8) (bit endGiven : Bool) (lo : Nat) : bitposAnswer s bit endGiven lo 0 = -1 := by
  simp [bitposAnswer, firstBitIn]

theorem bitposBytes_convertRange (addr tmpAddr : Nat) (s : List UInt8) (bit endGiven : Bool) (unit : BitUnit)
    {start stop : Int} {r : Int × Int × UInt8 × UInt8} (converted : convertRange s.length (decide (unit = .bit)) start stop = r)
    (given : unit = .bit → endGiven = true) :
    (if r.1 > r.2.1 then some (.ok (-1))
      else (bitposBytes addr tmpAddr s bit endGiven r.1.toNat r.2.1.toNat r.2.2.1 r.2.2.2).map .ok) =
      some (Except.ok (bitposAnswer s bit endGiven (rangeBits s.length unit start stop).1
        (rangeBits s.length unit start stop).2) : Except String Int) := by
  subst converted
  rcases convertRange_cases s.length unit start stop with
    ⟨lo, hi, firstMask, lastMask, converted, empty, none⟩ |
    ⟨a, b, firstMask, lastMask, masks, onlyBits, le, inside, bits, converted⟩
  · rw [converted, none, bitposAnswer_zero, if_pos empty]
  · rw [converted, bits]
    dsimp only
    rw [if_neg (by omega), Int.toNat_natCast, Int.toNat_natCast,
      bitposBytes_spec addr tmpAddr s bit endGiven masks (fun masked => given (onlyBits masked)) le inside]
    rfl

theorem decide_map_snd_none : decide (Option.map Prod.snd (none : Option (Int64 × BitUnit)) = some .bit) =
    decide (BitUnit.byte = .bit) := rfl

theorem decide_map_snd_some (stop : Int64) (unit : BitUnit) :
    decide (Option.map Prod.snd (some (stop, unit)) = some .bit) = decide (unit = .bit) := by
  cases unit <;> rfl

theorem bitcountCommand_spec (avx2 aarch64 : Bool) (addr firstlastAddr : Nat) (s : List UInt8) (range : RangeArgs)
    (fits : s.length ≤ Util.llongMax >>> 3) :
    bitcountCommand avx2 aarch64 addr firstlastAddr (some s) range = some (bitcountSpec s range : Int) := by
  cases range with
  | none =>
    by_cases empty : s.length = 0
    · simp [bitcountCommand, bitcountSpec, bitcountBytes, empty]
    · -- the whole string is the bytes 0 to s.length - 1
      have count := bitcountBytes_spec avx2 aarch64 addr firstlastAddr s (EdgeMasks.of_bytes 0 (s.length - 1)) (by omega)
        (by omega) fits
      rw [show (8 * (s.length - 1) + 7) / 8 = s.length - 1 by omega, show 8 * 0 / 8 = 0 from rfl,
        show 8 * (s.length - 1) + 7 - 8 * 0 + 1 = 8 * s.length by omega, Nat.mul_zero, Nat.cast_zero,
        show ((s.length - 1 : Nat) : Int) = s.length - 1 by omega] at count
      simp only [bitcountCommand, bitcountSpec, count]
  | some range =>
    obtain ⟨start, rest⟩ := range
    cases rest with
    | none =>
      simp only [bitcountCommand, bitcountSpec, Option.getD_some, decide_map_snd_none, not_not.mpr fits, if_false,
        Option.isNone_some, Bool.false_eq_true]
      rw [bitcountBytes_convertRange avx2 aarch64 addr firstlastAddr s .byte rfl fits, if_neg (by omega)]
    | some rest =>
      obtain ⟨stop, unit⟩ := rest
      simp only [bitcountCommand, bitcountSpec, Option.getD_some, decide_map_snd_some, not_not.mpr fits, if_false,
        Option.isNone_some, Bool.false_eq_true]
      rw [bitcountBytes_convertRange avx2 aarch64 addr firstlastAddr s unit rfl fits]
      split_ifs <;> simp

example : bitcountCommand false false 5 0 (some [255, 0, 15]) (some (-9, some (-2, .bit))) = some 3 := by decide +kernel

theorem bitposCommand_spec (addr tmpAddr : Nat) (s : List UInt8) (bit : Bool) (range : RangeArgs)
    (fits : s.length ≤ Util.llongMax >>> 3) :
    bitposCommand addr tmpAddr (some s) (if bit then 1 else 0) range = some (.ok (bitposSpec s bit range)) := by
  have valid : ¬((if bit then (1 : Int) else 0) ≠ 0 ∧ (if bit then (1 : Int) else 0) ≠ 1) := by
    cases bit <;> simp
  have looked : decide ((if bit then (1 : Int) else 0) = 1) = bit := by
    cases bit <;> rfl
  cases range with
  | none =>
    simp only [bitposCommand, valid, if_false, looked, bitposSpec]
    by_cases empty : s.length = 0
    · rw [if_pos (by omega), empty, Nat.mul_zero, bitposAnswer_zero]
    · -- the whole string is the bytes 0 to s.length - 1, with no end given
      have scan := bitposBytes_spec addr tmpAddr s bit false (EdgeMasks.of_bytes 0 (s.length - 1)) (by simp)
        (by omega) (by omega)
      rw [show (8 * (s.length - 1) + 7) / 8 = s.length - 1 by omega, show 8 * 0 / 8 = 0 from rfl,
        show 8 * (s.length - 1) + 7 - 8 * 0 + 1 = 8 * s.length by omega, Nat.mul_zero] at scan
      rw [if_neg (by omega), scan]
      rfl
  | some range =>
    obtain ⟨start, rest⟩ := range
    cases rest with
    | none =>
      simp only [bitposCommand, bitposSpec, valid, if_false, looked, Option.getD_some, decide_map_snd_none,
        not_not.mpr fits, Option.isNone_some, Bool.false_eq_true, Option.isSome_none]
      exact bitposBytes_convertRange addr tmpAddr s bit false .byte rfl (by decide)
    | some rest =>
      obtain ⟨stop, unit⟩ := rest
      simp only [bitposCommand, bitposSpec, valid, if_false, looked, Option.getD_some, decide_map_snd_some,
        not_not.mpr fits, Option.isNone_some, Bool.false_eq_true, Option.isSome_some]
      exact bitposBytes_convertRange addr tmpAddr s bit true unit rfl fun _ => rfl

example : bitposCommand 5 0 (some [255, 240, 0]) 0 (some (2, some (13, .bit))) = some (.ok 12) := by decide

example : bitposCommand 5 0 (some [255, 255]) 0 (some (0, none)) = some (.ok 16) := by decide

theorem bitcountCommand_none (avx2 aarch64 : Bool) (addr firstlastAddr : Nat) (range : RangeArgs) :
    bitcountCommand avx2 aarch64 addr firstlastAddr none range = some 0 := by
  cases range with
  | none => rfl
  | some range => simp [bitcountCommand]

theorem bitposCommand_none (addr tmpAddr : Nat) (bit : Bool) (range : RangeArgs) :
    bitposCommand addr tmpAddr none (if bit then 1 else 0) range = some (.ok (if bit then -1 else 0)) := by
  cases bit <;> cases range <;> simp [bitposCommand]

theorem bitcount_bitpos_ranges (avx2 aarch64 : Bool) (addr firstlastAddr tmpAddr : Nat) (s : List UInt8) (bit : Bool)
    (range : RangeArgs) (fits : s.length ≤ Util.llongMax >>> 3) :
    bitcountCommand avx2 aarch64 addr firstlastAddr (some s) range = some (bitcountSpec s range : Int) ∧
      bitposCommand addr tmpAddr (some s) (if bit then 1 else 0) range = some (.ok (bitposSpec s bit range)) ∧
      bitcountCommand avx2 aarch64 addr firstlastAddr none range = some 0 ∧
      bitposCommand addr tmpAddr none (if bit then 1 else 0) range = some (.ok (if bit then -1 else 0)) :=
  ⟨bitcountCommand_spec avx2 aarch64 addr firstlastAddr s range fits, bitposCommand_spec addr tmpAddr s bit range fits,
    bitcountCommand_none avx2 aarch64 addr firstlastAddr range, bitposCommand_none addr tmpAddr bit range⟩

theorem bitcount_bitpos_ranges_bits :
    [255, 240, 0].length ≤ Util.llongMax >>> 3 ∧
      (bitcountCommand true false 5 0 (some [255, 240, 0]) (some (2, some (13, .bit))) =
          some (bitcountSpec [255, 240, 0] (some (2, some (13, .bit))) : Int) ∧
        bitposCommand 5 0 (some [255, 240, 0]) (if false then 1 else 0) (some (2, some (13, .bit))) =
          some (.ok (bitposSpec [255, 240, 0] false (some (2, some (13, .bit))))) ∧
        bitcountCommand true false 5 0 none (some (2, some (13, .bit))) = some 0 ∧
        bitposCommand 5 0 none (if false then 1 else 0) (some (2, some (13, .bit))) =
          some (.ok (if false then -1 else 0))) :=
  ⟨by decide, bitcount_bitpos_ranges true false 5 0 0 [255, 240, 0] false (some (2, some (13, .bit))) (by decide)⟩

theorem bitpos_empty_string_overlong_bitcount :
    bitposCommand 5 0 (some []) 0 none = some (.ok (-1)) ∧
      bitcountCommand false false 5 0 (some (List.replicate (2 ^ 60) 0)) (some (0, none)) = none := by
  constructor
  · decide
  · have tooLong : ¬(List.replicate (2 ^ 60) (0 : UInt8)).length ≤ Util.llongMax >>> 3 := by
      rw [List.length_replicate]
      decide
    simp only [bitcountCommand, Option.getD_some, tooLong, not_false_eq_true, if_true]

end Spec

end Kv.Bitops
