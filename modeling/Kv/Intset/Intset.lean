import Kv.Foundations.Bytes

set_option linter.dupNamespace false

/-!
The intset (intset.c): a sorted array of distinct integers, each record 16, 32
or 64 bits wide, the width the widest value needs. An intset is modelled as its
allocation: the encoding and the length as 32-bit little-endian words, then the
records, little-endian as memrev*ifbe leaves them. C's int and uint32_t are
Ints and Nats with their conversions written out; a read or write outside the
allocation, and a loop that would run past INT_MIN, is `none`. realloc's new
bytes are zeros.
-/

namespace Kv.Intset

open Foundations

def intsetEncInt16 : Nat := 2

def intsetEncInt32 : Nat := 4

def intsetEncInt64 : Nat := 8

def toInt (v : Int) : Int := toSigned 4 (ofSigned 4 v)

structure Intset where
  bytes : List UInt8

namespace Intset

def encoding (is : Intset) : Nat := decodeLE (is.bytes.take 4)

def length (is : Intset) : Nat := decodeLE ((is.bytes.drop 4).take 4)

def setEncoding (is : Intset) (encoding : Nat) : Intset := ⟨encodeLE 4 encoding ++ is.bytes.drop 4⟩

def setLength (is : Intset) (length : Nat) : Intset := ⟨is.bytes.take 4 ++ encodeLE 4 length ++ is.bytes.drop 8⟩

end Intset

def recordWidth (encoding : Nat) : Nat :=
  if encoding = intsetEncInt64 then 8 else if encoding = intsetEncInt32 then 4 else 2

def _intsetValueEncoding (v : Int) : Nat :=
  if v < -2147483648 ∨ v > 2147483647 then intsetEncInt64
  else if v < -32768 ∨ v > 32767 then intsetEncInt32
  else intsetEncInt16

def _intsetGetEncoded (is : Intset) (pos : Int) (enc : Nat) : Option Int :=
  let width := recordWidth enc
  let offset := 8 + pos * width
  if offset < 0 then none
  else (readBytes is.bytes offset.toNat width).map fun bytes => toSigned width (decodeLE bytes)

def _intsetGet (is : Intset) (pos : Int) : Option Int :=
  _intsetGetEncoded is pos (is.encoding % 256)

def _intsetSet (is : Intset) (pos : Int) (value : Int) : Option Intset :=
  let width := recordWidth is.encoding
  let offset := 8 + pos * width
  if offset < 0 then none
  else (writeBytes is.bytes offset.toNat (encodeLE width (ofSigned width value))).map Intset.mk

def intsetNew : Intset := ⟨encodeLE 4 intsetEncInt16 ++ encodeLE 4 0⟩

/-- Room for `len` records. The assertion on the size always holds: it is a product of two 32-bit numbers. -/
def intsetResize (is : Intset) (len : Nat) : Intset :=
  ⟨resizeBytes is.bytes (8 + len * is.encoding)⟩

def intsetSearchLoop (is : Intset) (value : Int) : Nat → Int → Int → Int → Int → Option (Int × Int × Int)
  | 0, _, _, _, _ => none
  | fuel + 1, min, max, mid, cur =>
    if max ≥ min then
      let mid : Int := ((ofSigned 4 min + ofSigned 4 max) % 2 ^ 32 / 2 : Nat)
      match _intsetGet is mid with
      | none => none
      | some cur =>
        if value > cur then intsetSearchLoop is value fuel (toInt (mid + 1)) max mid cur
        else if value < cur then intsetSearchLoop is value fuel min (toInt (mid - 1)) mid cur
        else some (min, mid, cur)
    else some (min, mid, cur)

/-- Whether `value` is in the set, and its position, or the position it would be inserted at. -/
def intsetSearch (is : Intset) (value : Int) : Option (Bool × Nat) :=
  let max := toInt (is.length - 1)
  if is.length = 0 then some (false, 0)
  else do
    let last ← _intsetGet is max
    if value > last then some (false, is.length)
    else do
      let first ← _intsetGet is 0
      if value < first then some (false, 0)
      else do
        let (min, mid, cur) ← intsetSearchLoop is value (is.length + 1) 0 max (-1) (-1)
        if value = cur then some (true, ofSigned 4 mid) else some (false, ofSigned 4 min)

def intsetUpgradeLoop (curenc : Nat) (prepend : Int) : Nat → Intset → Option Intset
  | 0, is => some is
  | length + 1, is => do
    let v ← _intsetGetEncoded is length curenc
    let is ← _intsetSet is (length + prepend) v
    intsetUpgradeLoop curenc prepend length is

/-- A value that needs a wider encoding: every record re-encoded, back to front so that none is overwritten
before it is read, and the value put first if it is negative, last otherwise. -/
def intsetUpgradeAndAdd (is : Intset) (value : Int) : Option Intset := do
  let curenc := is.encoding % 256
  let newenc := _intsetValueEncoding value
  let length := toInt is.length
  let prepend : Int := if value < 0 then 1 else 0
  let is := is.setEncoding newenc
  let is := intsetResize is ((is.length + 1) % 2 ^ 32)
  -- from a negative length, `while (length--)` runs down past INT_MIN
  if length < 0 then none
  else do
    let is ← intsetUpgradeLoop curenc prepend length.toNat is
    let is ← if prepend = 1 then _intsetSet is 0 value else _intsetSet is (toInt is.length) value
    some (is.setLength (is.length + 1))

/-- The records from `source` on moved to `target`. The byte count is a uint32_t, multiplied by the width in
place. -/
def intsetMoveTail (is : Intset) (source target : Nat) : Option Intset :=
  let width := recordWidth is.encoding
  let bytes := ofSigned 4 (is.length - source)
  (moveBytes is.bytes (8 + target * width) (8 + source * width) (bytes * width % 2 ^ 32)).map Intset.mk

/-- The intset with `value` added, and whether it was not there already. -/
def intsetAdd (is : Intset) (value : Int) : Option (Intset × Bool) :=
  if _intsetValueEncoding value > is.encoding then (intsetUpgradeAndAdd is value).map (·, true)
  else do
    let (found, pos) ← intsetSearch is value
    if found then some (is, false)
    else do
      let is := intsetResize is ((is.length + 1) % 2 ^ 32)
      let is ← if pos < is.length then intsetMoveTail is pos ((pos + 1) % 2 ^ 32) else some is
      let is ← _intsetSet is (toInt pos) value
      some (is.setLength (is.length + 1), true)

/-- The intset with `value` removed, and whether it was there. -/
def intsetRemove (is : Intset) (value : Int) : Option (Intset × Bool) :=
  if _intsetValueEncoding value ≤ is.encoding then do
    let (found, pos) ← intsetSearch is value
    if found then do
      let len := is.length
      let is ← if pos < ofSigned 4 (len - 1) then intsetMoveTail is ((pos + 1) % 2 ^ 32) pos else some is
      let is := intsetResize is (ofSigned 4 (len - 1))
      some (is.setLength (ofSigned 4 (len - 1)), true)
    else some (is, false)
  else some (is, false)

def intsetFind (is : Intset) (value : Int) : Option Bool :=
  if _intsetValueEncoding value ≤ is.encoding then (intsetSearch is value).map (·.1) else some false

/-- The record at `pos`, or nothing past the length. -/
def intsetGet (is : Intset) (pos : Nat) : Option (Option Int) :=
  if pos < is.length then (_intsetGet is (toInt pos)).map some else some none

def intsetLen (is : Intset) : Nat := is.length

def intsetBlobLen (is : Intset) : Nat := 8 + is.length * is.encoding

def intsetValidateLoop (is : Intset) (prev : Int) : List Nat → Option Bool
  | [] => some true
  | i :: rest => do
    let cur ← _intsetGet is (toInt i)
    if cur ≤ prev then some false else intsetValidateLoop is cur rest

/-- Whether the buffer `p`, said to hold `size` bytes, is an intset: a known encoding, records that fill
`size`, at least one of them and, when `deep`, each above the one before. -/
def intsetValidateIntegrity (p : List UInt8) (size : Nat) (deep : Bool) : Option Bool :=
  if size < 8 then some false
  -- the header is read from the buffer itself
  else if p.length < 8 then none
  else
    let is : Intset := ⟨p⟩
    let recordSize :=
      if is.encoding = intsetEncInt64 then some intsetEncInt64
      else if is.encoding = intsetEncInt32 then some intsetEncInt32
      else if is.encoding = intsetEncInt16 then some intsetEncInt16
      else none
    match recordSize with
    | none => some false
    | some recordSize =>
      let count := is.length
      if 8 + count * recordSize ≠ size then some false
      else if count = 0 then some false
      else if !deep then some true
      else do
        let prev ← _intsetGet is 0
        intsetValidateLoop is prev (List.range' 1 (count - 1))

end Kv.Intset
