import Kv.Util.Conversions

/-!
The entry codec of listpack.c. An entry is its encoding (a tag byte, then an integer's bytes or a
string's length and bytes) followed by its backlen, the size of the encoding written in 7-bit
groups to be read backwards, so that lpPrev finds the start of an entry from the next one.
-/

namespace Kv.Listpack

open Foundations Util

inductive LpEncodingType
  | int
  | string
  deriving DecidableEq, Repr

def lpEncoding6BitStr : UInt8 := 0x80

def lpEncoding13BitInt : UInt8 := 0xC0

def lpEncoding12BitStr : UInt8 := 0xE0

def lpEncoding16BitInt : UInt8 := 0xF1

def lpEncoding24BitInt : UInt8 := 0xF2

def lpEncoding32BitInt : UInt8 := 0xF3

def lpEncoding64BitInt : UInt8 := 0xF4

def lpEncoding32BitStr : UInt8 := 0xF0

def lpEof : UInt8 := 0xFF

def lpEncodingIs (mask encoding byte : UInt8) : Bool := byte &&& mask == encoding

def lpEncodingIs7BitUint (byte : UInt8) : Bool := lpEncodingIs 0x80 0 byte

def lpEncodingIs6BitStr (byte : UInt8) : Bool := lpEncodingIs 0xC0 lpEncoding6BitStr byte

def lpEncodingIs13BitInt (byte : UInt8) : Bool := lpEncodingIs 0xE0 lpEncoding13BitInt byte

def lpEncodingIs12BitStr (byte : UInt8) : Bool := lpEncodingIs 0xF0 lpEncoding12BitStr byte

def lpEncodingIs16BitInt (byte : UInt8) : Bool := lpEncodingIs 0xFF lpEncoding16BitInt byte

def lpEncodingIs24BitInt (byte : UInt8) : Bool := lpEncodingIs 0xFF lpEncoding24BitInt byte

def lpEncodingIs32BitInt (byte : UInt8) : Bool := lpEncodingIs 0xFF lpEncoding32BitInt byte

def lpEncodingIs64BitInt (byte : UInt8) : Bool := lpEncodingIs 0xFF lpEncoding64BitInt byte

def lpEncodingIs32BitStr (byte : UInt8) : Bool := lpEncodingIs 0xFF lpEncoding32BitStr byte

def byteAt (p : List UInt8) (i : Nat) : UInt8 := p.getD i 0

def lpEncoding6BitStrLen (p : List UInt8) : Nat := (byteAt p 0 &&& 0x3F).toNat

def lpEncoding12BitStrLen (p : List UInt8) : Nat := (byteAt p 0 &&& 0xF).toNat <<< 8 ||| (byteAt p 1).toNat

def lpEncoding32BitStrLen (p : List UInt8) : Nat := decodeLE ((p.drop 1).take 4)

def rebias (modulus : Nat) (v : Int) : Nat := (if v < 0 then modulus + v else v).toNat

def lpEncodeIntegerGetType (v : Int64) : List UInt8 × Nat :=
  let v := v.toInt
  -- intenc[0] = v, a value in 0..127
  if 0 ≤ v ∧ v ≤ 127 then ([UInt8.ofNat v.toNat], 1)
  else if -4096 ≤ v ∧ v ≤ 4095 then
    let u := rebias (1 <<< 13) v
    ([UInt8.ofNat (u >>> 8) ||| lpEncoding13BitInt, UInt8.ofNat (u &&& 0xff)], 2)
  -- the wider forms write the re-biased value least significant byte first after the tag
  else if -32768 ≤ v ∧ v ≤ 32767 then (lpEncoding16BitInt :: encodeLE 2 (rebias (1 <<< 16) v), 3)
  else if -8388608 ≤ v ∧ v ≤ 8388607 then (lpEncoding24BitInt :: encodeLE 3 (rebias (1 <<< 24) v), 4)
  else if -2147483648 ≤ v ∧ v ≤ 2147483647 then (lpEncoding32BitInt :: encodeLE 4 (rebias (1 <<< 32) v), 5)
  -- uint64_t uv = v
  else (lpEncoding64BitInt :: encodeLE 8 (rebias (1 <<< 64) v), 9)

/-- lpEncodeGetType: the encoding type, the bytes written to intenc (none for a string) and *enclen. -/
def lpEncodeGetType (ele : List UInt8) : LpEncodingType × List UInt8 × Nat :=
  match string2ll ele with
  | some v =>
    let (intenc, enclen) := lpEncodeIntegerGetType v
    (.int, intenc, enclen)
  | none =>
    let size := ele.length
    (.string, [], if size < 64 then 1 + size else if size < 4096 then 2 + size else 5 + size)

/-- lpEncodeBacklen: the bytes written to buf. The size it returns, also with buf NULL, is their
number. -/
def lpEncodeBacklen (l : Nat) : List UInt8 :=
  if l ≤ 127 then [UInt8.ofNat l]
  else if l < 16383 then [UInt8.ofNat (l >>> 7), UInt8.ofNat ((l &&& 127) ||| 128)]
  else if l < 2097151 then
    [UInt8.ofNat (l >>> 14), UInt8.ofNat ((l >>> 7 &&& 127) ||| 128), UInt8.ofNat ((l &&& 127) ||| 128)]
  else if l < 268435455 then
    [UInt8.ofNat (l >>> 21), UInt8.ofNat ((l >>> 14 &&& 127) ||| 128), UInt8.ofNat ((l >>> 7 &&& 127) ||| 128),
      UInt8.ofNat ((l &&& 127) ||| 128)]
  else
    [UInt8.ofNat (l >>> 28), UInt8.ofNat ((l >>> 21 &&& 127) ||| 128), UInt8.ofNat ((l >>> 14 &&& 127) ||| 128),
      UInt8.ofNat ((l >>> 7 &&& 127) ||| 128), UInt8.ofNat ((l &&& 127) ||| 128)]

def lpDecodeBacklenLoop (val shift : Nat) : List UInt8 → Nat
  | [] => ullongMax
  | byte :: before =>
    let val := val ||| (byte &&& 127).toNat <<< shift
    if byte &&& 128 = 0 then val
    else if 28 < shift + 7 then ullongMax
    else lpDecodeBacklenLoop val (shift + 7) before

/-- lpDecodeBacklen, given p[0], p[-1], ... down to the start of the buffer. -/
def lpDecodeBacklen (back : List UInt8) : Nat := lpDecodeBacklenLoop 0 0 back

/-- lpEncodeString: the bytes written to buf for a string whose length fits the uint32_t len. -/
def lpEncodeString (s : List UInt8) : List UInt8 :=
  let len := s.length
  if len < 64 then (UInt8.ofNat len ||| lpEncoding6BitStr) :: s
  else if len < 4096 then (UInt8.ofNat (len >>> 8) ||| lpEncoding12BitStr) :: UInt8.ofNat (len &&& 0xff) :: s
  else lpEncoding32BitStr :: encodeLE 4 len ++ s

/-- lpCurrentEncodedSizeUnsafe. -/
def lpCurrentEncodedSizeUnsafe (p : List UInt8) : Nat :=
  let b := byteAt p 0
  if lpEncodingIs7BitUint b then 1
  else if lpEncodingIs6BitStr b then 1 + lpEncoding6BitStrLen p
  else if lpEncodingIs13BitInt b then 2
  else if lpEncodingIs16BitInt b then 3
  else if lpEncodingIs24BitInt b then 4
  else if lpEncodingIs32BitInt b then 5
  else if lpEncodingIs64BitInt b then 9
  else if lpEncodingIs12BitStr b then 2 + lpEncoding12BitStrLen p
  else if lpEncodingIs32BitStr b then 5 + lpEncoding32BitStrLen p
  else if b = lpEof then 1
  else 0

inductive LpValue
  | str (offset count : Nat)
  | int (value : Int64)
  deriving DecidableEq, Repr

def lpSignedValue (uval negstart negmax : Nat) : Int64 :=
  if negstart ≤ uval then Int64.ofInt (-((negmax - uval : Nat) : Int) - 1) else Int64.ofNat uval

/-- lpGetWithSize with intbuf NULL: the value and *entry_size, none where it is left unwritten (an
unknown encoding, read as the integer 12345678900000000 plus its first byte). -/
def lpGetWithSize (p : List UInt8) : LpValue × Option Nat :=
  let b := byteAt p 0
  if lpEncodingIs7BitUint b then (.int (lpSignedValue (b &&& 0x7f).toNat ullongMax 0), some 2)
  else if lpEncodingIs6BitStr b then
    let count := lpEncoding6BitStrLen p
    (.str 1 count, some (1 + count + (lpEncodeBacklen (count + 1)).length))
  else if lpEncodingIs13BitInt b then
    (.int (lpSignedValue ((b &&& 0x1f).toNat <<< 8 ||| (byteAt p 1).toNat) (1 <<< 12) 8191), some 3)
  else if lpEncodingIs16BitInt b then
    (.int (lpSignedValue (decodeLE ((p.drop 1).take 2)) (1 <<< 15) (2 ^ 16 - 1)), some 4)
  else if lpEncodingIs24BitInt b then
    (.int (lpSignedValue (decodeLE ((p.drop 1).take 3)) (1 <<< 23) ((2 ^ 32 - 1) >>> 8)), some 5)
  else if lpEncodingIs32BitInt b then
    (.int (lpSignedValue (decodeLE ((p.drop 1).take 4)) (1 <<< 31) (2 ^ 32 - 1)), some 6)
  else if lpEncodingIs64BitInt b then
    (.int (lpSignedValue (decodeLE ((p.drop 1).take 8)) (1 <<< 63) ullongMax), some 10)
  else if lpEncodingIs12BitStr b then
    let count := lpEncoding12BitStrLen p
    (.str 2 count, some (2 + count + (lpEncodeBacklen (count + 2)).length))
  else if lpEncodingIs32BitStr b then
    let count := lpEncoding32BitStrLen p
    (.str 5 count, some (5 + count + (lpEncodeBacklen (count + 5)).length))
  else (.int (lpSignedValue (12345678900000000 + b.toNat) ullongMax 0), none)

section Arithmetic

theorem and_127 (x : Nat) : x &&& 127 = x % 128 := Nat.and_two_pow_sub_one_eq_mod x 7

theorem and_255 (x : Nat) : x &&& 0xff = x % 256 := Nat.and_two_pow_sub_one_eq_mod x 8

theorem or_shiftLeft_eq_add {a : Nat} (b : Nat) {s : Nat} (small : a < 2 ^ s) : a ||| b <<< s = a + b * 2 ^ s := by
  rw [Nat.shiftLeft_eq, Nat.or_comm, Nat.mul_comm, ← Nat.two_pow_add_eq_or_of_lt small]
  omega

theorem shiftLeft_or_mod (u : Nat) : (u / 256) <<< 8 ||| u % 256 = u := by
  rw [Nat.or_comm, or_shiftLeft_eq_add _ (show u % 256 < 2 ^ 8 by omega)]
  omega

theorem rebias_lt (half : Nat) {v : Int} (low : -(half : Int) ≤ v) (high : v < half) :
    rebias (2 * half) v < 2 * half := by
  unfold rebias
  split_ifs <;> omega

theorem lpSignedValue_rebias (half : Nat) {v : Int} (low : -(half : Int) ≤ v) (high : v < half) :
    lpSignedValue (rebias (2 * half) v) half (2 * half - 1) = Int64.ofInt v := by
  unfold lpSignedValue rebias
  by_cases negative : v < 0
  · rw [if_pos negative, if_pos (by omega)]
    congr 1
    omega
  · rw [if_neg negative, if_neg (by omega), ← Int64.ofInt_eq_ofNat]
    congr 1
    omega

theorem lpSignedValue_decodeLE_encodeLE (width half : Nat) (bytes : 2 * half = 256 ^ width) {v : Int}
    (low : -(half : Int) ≤ v) (high : v < half) (rest : List UInt8) :
    lpSignedValue (decodeLE ((encodeLE width (rebias (2 * half) v) ++ rest).take width)) half (2 * half - 1) =
      Int64.ofInt v := by
  have fits := rebias_lt half low high
  rw [List.take_left' (length_encodeLE width _), decodeLE_encodeLE, Nat.mod_eq_of_lt (by omega),
    lpSignedValue_rebias half low high]

end Arithmetic

section Tags

/-! The first byte of each form the encoders write falls in its own class of the tests of
lpGetWithSize and lpCurrentEncodedSizeUnsafe, and carries what they read from it. -/

theorem tag_7BitUint {v : Nat} (small : v < 128) :
    lpEncodingIs7BitUint (UInt8.ofNat v) = true ∧ (UInt8.ofNat v &&& 0x7f).toNat = v :=
  (by decide : ∀ v : Fin 128, lpEncodingIs7BitUint (UInt8.ofNat v) = true ∧ (UInt8.ofNat v &&& 0x7f).toNat = v)
    ⟨v, small⟩

theorem tag_13BitInt {hi : Nat} (small : hi < 32) :
    lpEncodingIs7BitUint (UInt8.ofNat hi ||| lpEncoding13BitInt) = false ∧
      lpEncodingIs6BitStr (UInt8.ofNat hi ||| lpEncoding13BitInt) = false ∧
      lpEncodingIs13BitInt (UInt8.ofNat hi ||| lpEncoding13BitInt) = true ∧
      ((UInt8.ofNat hi ||| lpEncoding13BitInt) &&& 0x1f).toNat = hi :=
  (by decide : ∀ hi : Fin 32, lpEncodingIs7BitUint (UInt8.ofNat hi ||| lpEncoding13BitInt) = false ∧
      lpEncodingIs6BitStr (UInt8.ofNat hi ||| lpEncoding13BitInt) = false ∧
      lpEncodingIs13BitInt (UInt8.ofNat hi ||| lpEncoding13BitInt) = true ∧
      ((UInt8.ofNat hi ||| lpEncoding13BitInt) &&& 0x1f).toNat = hi) ⟨hi, small⟩

theorem tag_6BitStr {len : Nat} (small : len < 64) :
    lpEncodingIs7BitUint (UInt8.ofNat len ||| lpEncoding6BitStr) = false ∧
      lpEncodingIs6BitStr (UInt8.ofNat len ||| lpEncoding6BitStr) = true ∧
      ((UInt8.ofNat len ||| lpEncoding6BitStr) &&& 0x3F).toNat = len :=
  (by decide : ∀ len : Fin 64, lpEncodingIs7BitUint (UInt8.ofNat len ||| lpEncoding6BitStr) = false ∧
      lpEncodingIs6BitStr (UInt8.ofNat len ||| lpEncoding6BitStr) = true ∧
      ((UInt8.ofNat len ||| lpEncoding6BitStr) &&& 0x3F).toNat = len) ⟨len, small⟩

theorem tag_12BitStr {hi : Nat} (small : hi < 16) :
    lpEncodingIs7BitUint (UInt8.ofNat hi ||| lpEncoding12BitStr) = false ∧
      lpEncodingIs6BitStr (UInt8.ofNat hi ||| lpEncoding12BitStr) = false ∧
      lpEncodingIs13BitInt (UInt8.ofNat hi ||| lpEncoding12BitStr) = false ∧
      lpEncodingIs16BitInt (UInt8.ofNat hi ||| lpEncoding12BitStr) = false ∧
      lpEncodingIs24BitInt (UInt8.ofNat hi ||| lpEncoding12BitStr) = false ∧
      lpEncodingIs32BitInt (UInt8.ofNat hi ||| lpEncoding12BitStr) = false ∧
      lpEncodingIs64BitInt (UInt8.ofNat hi ||| lpEncoding12BitStr) = false ∧
      lpEncodingIs12BitStr (UInt8.ofNat hi ||| lpEncoding12BitStr) = true ∧
      ((UInt8.ofNat hi ||| lpEncoding12BitStr) &&& 0xF).toNat = hi :=
  (by decide : ∀ hi : Fin 16, lpEncodingIs7BitUint (UInt8.ofNat hi ||| lpEncoding12BitStr) = false ∧
      lpEncodingIs6BitStr (UInt8.ofNat hi ||| lpEncoding12BitStr) = false ∧
      lpEncodingIs13BitInt (UInt8.ofNat hi ||| lpEncoding12BitStr) = false ∧
      lpEncodingIs16BitInt (UInt8.ofNat hi ||| lpEncoding12BitStr) = false ∧
      lpEncodingIs24BitInt (UInt8.ofNat hi ||| lpEncoding12BitStr) = false ∧
      lpEncodingIs32BitInt (UInt8.ofNat hi ||| lpEncoding12BitStr) = false ∧
      lpEncodingIs64BitInt (UInt8.ofNat hi ||| lpEncoding12BitStr) = false ∧
      lpEncodingIs12BitStr (UInt8.ofNat hi ||| lpEncoding12BitStr) = true ∧
      ((UInt8.ofNat hi ||| lpEncoding12BitStr) &&& 0xF).toNat = hi) ⟨hi, small⟩

theorem tags_16BitInt : lpEncodingIs7BitUint lpEncoding16BitInt = false ∧
    lpEncodingIs6BitStr lpEncoding16BitInt = false ∧ lpEncodingIs13BitInt lpEncoding16BitInt = false ∧
    lpEncodingIs16BitInt lpEncoding16BitInt = true := by
  decide

theorem tags_24BitInt : lpEncodingIs7BitUint lpEncoding24BitInt = false ∧
    lpEncodingIs6BitStr lpEncoding24BitInt = false ∧ lpEncodingIs13BitInt lpEncoding24BitInt = false ∧
    lpEncodingIs16BitInt lpEncoding24BitInt = false ∧ lpEncodingIs24BitInt lpEncoding24BitInt = true := by
  decide

theorem tags_32BitInt : lpEncodingIs7BitUint lpEncoding32BitInt = false ∧
    lpEncodingIs6BitStr lpEncoding32BitInt = false ∧ lpEncodingIs13BitInt lpEncoding32BitInt = false ∧
    lpEncodingIs16BitInt lpEncoding32BitInt = false ∧ lpEncodingIs24BitInt lpEncoding32BitInt = false ∧
    lpEncodingIs32BitInt lpEncoding32BitInt = true := by
  decide

theorem tags_64BitInt : lpEncodingIs7BitUint lpEncoding64BitInt = false ∧
    lpEncodingIs6BitStr lpEncoding64BitInt = false ∧ lpEncodingIs13BitInt lpEncoding64BitInt = false ∧
    lpEncodingIs16BitInt lpEncoding64BitInt = false ∧ lpEncodingIs24BitInt lpEncoding64BitInt = false ∧
    lpEncodingIs32BitInt lpEncoding64BitInt = false ∧ lpEncodingIs64BitInt lpEncoding64BitInt = true := by
  decide

theorem tags_32BitStr : lpEncodingIs7BitUint lpEncoding32BitStr = false ∧
    lpEncodingIs6BitStr lpEncoding32BitStr = false ∧ lpEncodingIs13BitInt lpEncoding32BitStr = false ∧
    lpEncodingIs16BitInt lpEncoding32BitStr = false ∧ lpEncodingIs24BitInt lpEncoding32BitStr = false ∧
    lpEncodingIs32BitInt lpEncoding32BitStr = false ∧ lpEncodingIs64BitInt lpEncoding32BitStr = false ∧
    lpEncodingIs12BitStr lpEncoding32BitStr = false ∧ lpEncodingIs32BitStr lpEncoding32BitStr = true := by
  decide

end Tags

theorem lpSignedValue_of_lt {uval negstart : Nat} (negmax : Nat) (below : uval < negstart) :
    lpSignedValue uval negstart negmax = Int64.ofNat uval := by
  simp [lpSignedValue, Nat.not_le.mpr below]

section Reads

/-! What lpGetWithSize and lpCurrentEncodedSizeUnsafe read from each form, stated on the bytes the
encoders put there. -/

variable (rest : List UInt8)

theorem lpGetWithSize_7BitUint (v : Nat) (small : v < 128) :
    lpGetWithSize (UInt8.ofNat v :: rest) = (.int (Int64.ofNat v), some 2) := by
  obtain ⟨seven, payload⟩ := tag_7BitUint small
  have below : v < ullongMax := by
    simp only [ullongMax]
    omega
  simp only [lpGetWithSize, byteAt, List.getD_cons_zero, seven, if_true, payload]
  rw [lpSignedValue_of_lt _ below]

theorem lpCurrentEncodedSizeUnsafe_7BitUint (v : Nat) (small : v < 128) :
    lpCurrentEncodedSizeUnsafe (UInt8.ofNat v :: rest) = 1 := by
  simp only [lpCurrentEncodedSizeUnsafe, byteAt, List.getD_cons_zero, (tag_7BitUint small).1, if_true]

theorem lpGetWithSize_13BitInt (hi : Nat) (small : hi < 32) (c : UInt8) :
    lpGetWithSize ((UInt8.ofNat hi ||| lpEncoding13BitInt) :: c :: rest) =
      (.int (lpSignedValue (hi <<< 8 ||| c.toNat) (1 <<< 12) 8191), some 3) := by
  obtain ⟨notSeven, notSix, thirteen, payload⟩ := tag_13BitInt small
  simp only [lpGetWithSize, byteAt, List.getD_cons_zero, List.getD_cons_succ, notSeven, notSix, thirteen,
    Bool.false_eq_true, if_false, if_true, payload]

theorem lpCurrentEncodedSizeUnsafe_13BitInt (hi : Nat) (small : hi < 32) (c : UInt8) :
    lpCurrentEncodedSizeUnsafe ((UInt8.ofNat hi ||| lpEncoding13BitInt) :: c :: rest) = 2 := by
  obtain ⟨notSeven, notSix, thirteen, -⟩ := tag_13BitInt small
  simp only [lpCurrentEncodedSizeUnsafe, byteAt, List.getD_cons_zero, notSeven, notSix, thirteen,
    Bool.false_eq_true, if_false, if_true]

theorem lpGetWithSize_16BitInt :
    lpGetWithSize (lpEncoding16BitInt :: rest) =
      (.int (lpSignedValue (decodeLE (rest.take 2)) (1 <<< 15) (2 ^ 16 - 1)), some 4) := by
  simp only [lpGetWithSize, byteAt, List.getD_cons_zero, tags_16BitInt, Bool.false_eq_true, if_false, if_true,
    List.drop_succ_cons, List.drop_zero]

theorem lpGetWithSize_24BitInt :
    lpGetWithSize (lpEncoding24BitInt :: rest) =
      (.int (lpSignedValue (decodeLE (rest.take 3)) (1 <<< 23) ((2 ^ 32 - 1) >>> 8)), some 5) := by
  simp only [lpGetWithSize, byteAt, List.getD_cons_zero, tags_24BitInt, Bool.false_eq_true, if_false, if_true,
    List.drop_succ_cons, List.drop_zero]

theorem lpGetWithSize_32BitInt :
    lpGetWithSize (lpEncoding32BitInt :: rest) =
      (.int (lpSignedValue (decodeLE (rest.take 4)) (1 <<< 31) (2 ^ 32 - 1)), some 6) := by
  simp only [lpGetWithSize, byteAt, List.getD_cons_zero, tags_32BitInt, Bool.false_eq_true, if_false, if_true,
    List.drop_succ_cons, List.drop_zero]

theorem lpGetWithSize_64BitInt :
    lpGetWithSize (lpEncoding64BitInt :: rest) =
      (.int (lpSignedValue (decodeLE (rest.take 8)) (1 <<< 63) ullongMax), some 10) := by
  simp only [lpGetWithSize, byteAt, List.getD_cons_zero, tags_64BitInt, Bool.false_eq_true, if_false, if_true,
    List.drop_succ_cons, List.drop_zero]

theorem lpCurrentEncodedSizeUnsafe_wideInt :
    lpCurrentEncodedSizeUnsafe (lpEncoding16BitInt :: rest) = 3 ∧
      lpCurrentEncodedSizeUnsafe (lpEncoding24BitInt :: rest) = 4 ∧
      lpCurrentEncodedSizeUnsafe (lpEncoding32BitInt :: rest) = 5 ∧
      lpCurrentEncodedSizeUnsafe (lpEncoding64BitInt :: rest) = 9 := by
  simp only [lpCurrentEncodedSizeUnsafe, byteAt, List.getD_cons_zero, tags_16BitInt, tags_24BitInt, tags_32BitInt,
    tags_64BitInt, Bool.false_eq_true, if_false, if_true, and_self]

theorem lpGetWithSize_6BitStr (len : Nat) (small : len < 64) :
    lpGetWithSize ((UInt8.ofNat len ||| lpEncoding6BitStr) :: rest) =
      (.str 1 len, some (1 + len + (lpEncodeBacklen (len + 1)).length)) := by
  obtain ⟨notSeven, six, payload⟩ := tag_6BitStr small
  simp only [lpGetWithSize, lpEncoding6BitStrLen, byteAt, List.getD_cons_zero, notSeven, six,
    Bool.false_eq_true, if_false, if_true, payload]

theorem lpCurrentEncodedSizeUnsafe_6BitStr (len : Nat) (small : len < 64) :
    lpCurrentEncodedSizeUnsafe ((UInt8.ofNat len ||| lpEncoding6BitStr) :: rest) = 1 + len := by
  obtain ⟨notSeven, six, payload⟩ := tag_6BitStr small
  simp only [lpCurrentEncodedSizeUnsafe, lpEncoding6BitStrLen, byteAt, List.getD_cons_zero, notSeven, six,
    Bool.false_eq_true, if_false, if_true, payload]

theorem lpGetWithSize_12BitStr (hi : Nat) (small : hi < 16) (c : UInt8) :
    lpGetWithSize ((UInt8.ofNat hi ||| lpEncoding12BitStr) :: c :: rest) =
      (.str 2 (hi <<< 8 ||| c.toNat), some (2 + (hi <<< 8 ||| c.toNat) + (lpEncodeBacklen ((hi <<< 8 ||| c.toNat) + 2)).length)) := by
  obtain ⟨n7, n6, n13, n16, n24, n32, n64, twelve, payload⟩ := tag_12BitStr small
  simp only [lpGetWithSize, lpEncoding12BitStrLen, byteAt, List.getD_cons_zero, List.getD_cons_succ,
    n7, n6, n13, n16, n24, n32, n64, twelve, Bool.false_eq_true, if_false, if_true, payload]

theorem lpCurrentEncodedSizeUnsafe_12BitStr (hi : Nat) (small : hi < 16) (c : UInt8) :
    lpCurrentEncodedSizeUnsafe ((UInt8.ofNat hi ||| lpEncoding12BitStr) :: c :: rest) = 2 + (hi <<< 8 ||| c.toNat) := by
  obtain ⟨n7, n6, n13, n16, n24, n32, n64, twelve, payload⟩ := tag_12BitStr small
  simp only [lpCurrentEncodedSizeUnsafe, lpEncoding12BitStrLen, byteAt, List.getD_cons_zero, List.getD_cons_succ,
    n7, n6, n13, n16, n24, n32, n64, twelve, Bool.false_eq_true, if_false, if_true, payload]

theorem lpGetWithSize_32BitStr :
    lpGetWithSize (lpEncoding32BitStr :: rest) =
      (.str 5 (decodeLE (rest.take 4)), some (5 + decodeLE (rest.take 4) + (lpEncodeBacklen (decodeLE (rest.take 4) + 5)).length)) := by
  simp only [lpGetWithSize, lpEncoding32BitStrLen, byteAt, List.getD_cons_zero, tags_32BitStr, Bool.false_eq_true,
    if_false, if_true, List.drop_succ_cons, List.drop_zero]

theorem lpCurrentEncodedSizeUnsafe_32BitStr :
    lpCurrentEncodedSizeUnsafe (lpEncoding32BitStr :: rest) = 5 + decodeLE (rest.take 4) := by
  simp only [lpCurrentEncodedSizeUnsafe, lpEncoding32BitStrLen, byteAt, List.getD_cons_zero, tags_32BitStr,
    Bool.false_eq_true, if_false, if_true, List.drop_succ_cons, List.drop_zero]

end Reads

section RoundTrip

theorem lpGetWithSize_integer (v : Int64) (rest : List UInt8) :
    lpGetWithSize ((lpEncodeIntegerGetType v).1 ++ rest) = (.int v, some ((lpEncodeIntegerGetType v).2 + 1)) := by
  have low := Int64.le_toInt v
  have high := Int64.toInt_lt v
  unfold lpEncodeIntegerGetType
  dsimp only
  split_ifs with seven thirteen sixteen twentyFour thirtyTwo
  · rw [List.singleton_append, lpGetWithSize_7BitUint rest _ (by omega), ← Int64.ofInt_eq_ofNat,
      Int.toNat_of_nonneg seven.1, Int64.ofInt_toInt]
  · -- the pattern's five high bits go in the tag byte, its low eight after it
    have fits := rebias_lt 4096 (v := v.toInt) (by omega) (by omega)
    have decoded := lpSignedValue_rebias 4096 (v := v.toInt) (by omega) (by omega)
    rw [show (1 <<< 13 : Nat) = 2 * 4096 by rfl]
    generalize rebias (2 * 4096) v.toInt = u at fits decoded ⊢
    have low : (UInt8.ofNat (u &&& 0xff)).toNat = u % 256 := by
      rw [UInt8.toNat_ofNat', and_255]
      omega
    rw [List.cons_append, List.cons_append, List.nil_append,
      lpGetWithSize_13BitInt rest (u >>> 8) (by rw [Nat.shiftRight_eq_div_pow]; omega), low,
      Nat.shiftRight_eq_div_pow, shiftLeft_or_mod, show (1 <<< 12 : Nat) = 4096 by rfl,
      show (8191 : Nat) = 2 * 4096 - 1 by rfl, decoded, Int64.ofInt_toInt]
  · rw [List.cons_append, lpGetWithSize_16BitInt, show (1 <<< 16 : Nat) = 2 * 32768 by rfl,
      show (1 <<< 15 : Nat) = 32768 by rfl, show (2 ^ 16 - 1 : Nat) = 2 * 32768 - 1 by rfl,
      lpSignedValue_decodeLE_encodeLE 2 32768 (by norm_num) (by omega) (by omega), Int64.ofInt_toInt]
  · rw [List.cons_append, lpGetWithSize_24BitInt, show (1 <<< 24 : Nat) = 2 * 8388608 by rfl,
      show (1 <<< 23 : Nat) = 8388608 by rfl, show ((2 ^ 32 - 1) >>> 8 : Nat) = 2 * 8388608 - 1 by rfl,
      lpSignedValue_decodeLE_encodeLE 3 8388608 (by norm_num) (by omega) (by omega), Int64.ofInt_toInt]
  · rw [List.cons_append, lpGetWithSize_32BitInt, show (1 <<< 32 : Nat) = 2 * 2147483648 by rfl,
      show (1 <<< 31 : Nat) = 2147483648 by rfl, show (2 ^ 32 - 1 : Nat) = 2 * 2147483648 - 1 by rfl,
      lpSignedValue_decodeLE_encodeLE 4 2147483648 (by norm_num) (by omega) (by omega), Int64.ofInt_toInt]
  · rw [List.cons_append, lpGetWithSize_64BitInt, show (1 <<< 64 : Nat) = 2 * 2 ^ 63 by rfl,
      show (1 <<< 63 : Nat) = 2 ^ 63 by rfl, show ullongMax = 2 * 2 ^ 63 - 1 by rfl,
      lpSignedValue_decodeLE_encodeLE 8 (2 ^ 63) (by norm_num) (by push_cast; omega) (by push_cast; omega),
      Int64.ofInt_toInt]

theorem lpCurrentEncodedSizeUnsafe_integer (v : Int64) (rest : List UInt8) :
    lpCurrentEncodedSizeUnsafe ((lpEncodeIntegerGetType v).1 ++ rest) = (lpEncodeIntegerGetType v).2 := by
  have low := Int64.le_toInt v
  have high := Int64.toInt_lt v
  unfold lpEncodeIntegerGetType
  dsimp only
  split_ifs with seven thirteen sixteen twentyFour thirtyTwo
  · rw [List.singleton_append, lpCurrentEncodedSizeUnsafe_7BitUint rest _ (by omega)]
  · have fits := rebias_lt 4096 (v := v.toInt) (by omega) (by omega)
    rw [show (1 <<< 13 : Nat) = 2 * 4096 by rfl, List.cons_append, List.cons_append, List.nil_append,
      lpCurrentEncodedSizeUnsafe_13BitInt rest _ (by rw [Nat.shiftRight_eq_div_pow]; omega)]
  all_goals
    rw [List.cons_append]
    simp only [lpCurrentEncodedSizeUnsafe_wideInt]

theorem lpEncodeIntegerGetType_le (v : Int64) : (lpEncodeIntegerGetType v).2 ≤ 127 := by
  unfold lpEncodeIntegerGetType
  dsimp only
  split_ifs <;> simp

theorem lpEncodeBacklen_of_le {l : Nat} (small : l ≤ 127) : lpEncodeBacklen l = [UInt8.ofNat l] := by
  simp [lpEncodeBacklen, small]

theorem lpEncodeString_eq_append (s : List UInt8) : ∃ header, lpEncodeString s = header ++ s := by
  unfold lpEncodeString
  dsimp only
  split_ifs
  exacts [⟨[_], rfl⟩, ⟨[_, _], rfl⟩, ⟨_ :: encodeLE 4 s.length, rfl⟩]

theorem lpGetWithSize_string (s rest : List UInt8) (fits : s.length < 2 ^ 32) :
    lpGetWithSize (lpEncodeString s ++ rest) =
      (.str ((lpEncodeString s).length - s.length) s.length,
        some ((lpEncodeString s).length + (lpEncodeBacklen (lpEncodeString s).length).length)) := by
  unfold lpEncodeString
  dsimp only
  split_ifs with six twelve
  · rw [List.cons_append, lpGetWithSize_6BitStr _ _ six]
    simp only [List.length_cons, Nat.add_sub_cancel_left, Nat.add_comm 1]
  · -- the length's high four bits go in the tag byte, its low eight after it
    have low : (UInt8.ofNat (s.length &&& 0xff)).toNat = s.length % 256 := by
      rw [UInt8.toNat_ofNat', and_255]
      omega
    rw [List.cons_append, List.cons_append,
      lpGetWithSize_12BitStr _ (s.length >>> 8) (by rw [Nat.shiftRight_eq_div_pow]; omega), low,
      Nat.shiftRight_eq_div_pow, shiftLeft_or_mod]
    simp only [List.length_cons, Nat.add_assoc, Nat.reduceAdd, Prod.mk.injEq, LpValue.str.injEq,
      Option.some.injEq, and_true]
    omega
  · simp only [List.cons_append, List.append_assoc]
    rw [lpGetWithSize_32BitStr, List.take_left' (length_encodeLE 4 _),
      decodeLE_encodeLE, Nat.mod_eq_of_lt (by omega)]
    simp only [List.length_cons, List.length_append, length_encodeLE, Nat.add_assoc, Nat.reduceAdd,
      Nat.add_comm 4, Prod.mk.injEq, LpValue.str.injEq, Option.some.injEq, and_true]
    omega

theorem drop_take_lpEncodeString (s rest : List UInt8) :
    ((lpEncodeString s ++ rest).drop ((lpEncodeString s).length - s.length)).take s.length = s := by
  obtain ⟨header, written⟩ := lpEncodeString_eq_append s
  rw [written, List.length_append, Nat.add_sub_cancel, List.append_assoc, List.drop_left' rfl]
  exact List.take_left' rfl

theorem lpCurrentEncodedSizeUnsafe_string (s rest : List UInt8) (fits : s.length < 2 ^ 32) :
    lpCurrentEncodedSizeUnsafe (lpEncodeString s ++ rest) = (lpEncodeString s).length := by
  unfold lpEncodeString
  dsimp only
  split_ifs with six twelve
  · rw [List.cons_append, lpCurrentEncodedSizeUnsafe_6BitStr _ _ six, List.length_cons, Nat.add_comm]
  · have low : (UInt8.ofNat (s.length &&& 0xff)).toNat = s.length % 256 := by
      rw [UInt8.toNat_ofNat', and_255]
      omega
    rw [List.cons_append, List.cons_append,
      lpCurrentEncodedSizeUnsafe_12BitStr _ (s.length >>> 8) (by rw [Nat.shiftRight_eq_div_pow]; omega), low,
      Nat.shiftRight_eq_div_pow, shiftLeft_or_mod]
    simp only [List.length_cons]
    omega
  · simp only [List.cons_append, List.append_assoc]
    rw [lpCurrentEncodedSizeUnsafe_32BitStr,
      List.take_left' (length_encodeLE 4 _), decodeLE_encodeLE, Nat.mod_eq_of_lt (by omega)]
    simp only [List.length_cons, List.length_append, length_encodeLE]
    omega

theorem lpEncodeGetType_string {s : List UInt8} (rejected : string2ll s = none) :
    lpEncodeGetType s = (.string, [], (lpEncodeString s).length) := by
  unfold lpEncodeGetType lpEncodeString
  rw [rejected]
  dsimp only
  split_ifs <;> simp <;> omega

theorem lpDecodeBacklenLoop_continued {val shift g : Nat} (below : val < 2 ^ shift) (small : g < 128)
    (room : shift + 7 ≤ 28) (before : List UInt8) :
    lpDecodeBacklenLoop val shift (UInt8.ofNat (g ||| 128) :: before) =
      lpDecodeBacklenLoop (val + g * 2 ^ shift) (shift + 7) before := by
  obtain ⟨continued, payload⟩ := (by decide : ∀ g : Fin 128,
    (UInt8.ofNat (g ||| 128) &&& 128 = 0) = False ∧ (UInt8.ofNat (g ||| 128) &&& 127).toNat = g) ⟨g, small⟩
  simp only at continued payload
  simp only [lpDecodeBacklenLoop, continued, payload, if_false, if_neg (show ¬28 < shift + 7 by omega),
    or_shiftLeft_eq_add g below]

theorem lpDecodeBacklenLoop_last {val shift g : Nat} (below : val < 2 ^ shift) (small : g < 128)
    (before : List UInt8) : lpDecodeBacklenLoop val shift (UInt8.ofNat g :: before) = val + g * 2 ^ shift := by
  obtain ⟨last, payload⟩ := (by decide : ∀ g : Fin 128,
    (UInt8.ofNat g &&& 128 = 0) = True ∧ (UInt8.ofNat g &&& 127).toNat = g) ⟨g, small⟩
  simp only at last payload
  simp only [lpDecodeBacklenLoop, last, payload, if_true, or_shiftLeft_eq_add g below]

theorem lpDecodeBacklen_lpEncodeBacklen (l : Nat) (short : l < 2 ^ 35) (before : List UInt8) :
    lpDecodeBacklen ((lpEncodeBacklen l).reverse ++ before) = l := by
  unfold lpEncodeBacklen lpDecodeBacklen
  simp only [and_127, Nat.shiftRight_eq_div_pow]
  split_ifs <;>
    simp (disch := omega) only [List.reverse_cons, List.reverse_nil, List.nil_append, List.cons_append,
      lpDecodeBacklenLoop_continued, lpDecodeBacklenLoop_last] <;>
    omega

/-- The listpack entry codec: every integer entry, every string entry whose string is no integer,
and every backlen below 2^35 reads back as written. -/
theorem lpEntryCodec_roundTrip (v : Int64) (s : List UInt8) (l : Nat) (rest before : List UInt8)
    (fits : s.length < 2 ^ 32) (rejected : string2ll s = none) (short : l < 2 ^ 35) :
    (lpGetWithSize ((lpEncodeIntegerGetType v).1 ++ lpEncodeBacklen (lpEncodeIntegerGetType v).2 ++ rest) =
        (.int v, some ((lpEncodeIntegerGetType v).2 + (lpEncodeBacklen (lpEncodeIntegerGetType v).2).length)) ∧
      lpCurrentEncodedSizeUnsafe ((lpEncodeIntegerGetType v).1 ++ lpEncodeBacklen (lpEncodeIntegerGetType v).2 ++ rest) =
        (lpEncodeIntegerGetType v).2) ∧
    (∃ offset, lpGetWithSize (lpEncodeString s ++ rest) =
        (.str offset s.length, some ((lpEncodeString s).length + (lpEncodeBacklen (lpEncodeString s).length).length)) ∧
      ((lpEncodeString s ++ rest).drop offset).take s.length = s ∧
      lpCurrentEncodedSizeUnsafe (lpEncodeString s ++ rest) = (lpEncodeGetType s).2.2) ∧
    lpDecodeBacklen ((lpEncodeBacklen l).reverse ++ before) = l := by
  have oneByte := lpEncodeBacklen_of_le (lpEncodeIntegerGetType_le v)
  refine ⟨⟨?_, ?_⟩, ⟨_, lpGetWithSize_string s rest fits, drop_take_lpEncodeString s rest, ?_⟩,
    lpDecodeBacklen_lpEncodeBacklen l short before⟩
  · rw [List.append_assoc, lpGetWithSize_integer, oneByte, List.length_singleton]
  · rw [List.append_assoc, lpCurrentEncodedSizeUnsafe_integer]
  · rw [lpCurrentEncodedSizeUnsafe_string s rest fits, lpEncodeGetType_string rejected]

theorem lpEntryCodec_roundTrip_x :
    [120].length < 2 ^ 32 ∧ string2ll [120] = none ∧ 300 < 2 ^ 35 ∧
    ((lpGetWithSize ((lpEncodeIntegerGetType 1000).1 ++ lpEncodeBacklen (lpEncodeIntegerGetType 1000).2 ++ []) =
        (.int 1000, some ((lpEncodeIntegerGetType 1000).2 + (lpEncodeBacklen (lpEncodeIntegerGetType 1000).2).length)) ∧
      lpCurrentEncodedSizeUnsafe ((lpEncodeIntegerGetType 1000).1 ++ lpEncodeBacklen (lpEncodeIntegerGetType 1000).2 ++ []) =
        (lpEncodeIntegerGetType 1000).2) ∧
    (∃ offset, lpGetWithSize (lpEncodeString [120] ++ []) =
        (.str offset [120].length,
          some ((lpEncodeString [120]).length + (lpEncodeBacklen (lpEncodeString [120]).length).length)) ∧
      ((lpEncodeString [120] ++ []).drop offset).take [120].length = [120] ∧
      lpCurrentEncodedSizeUnsafe (lpEncodeString [120] ++ []) = (lpEncodeGetType [120]).2.2) ∧
    lpDecodeBacklen ((lpEncodeBacklen 300).reverse ++ []) = 300) :=
  ⟨by decide, by decide, by decide, lpEntryCodec_roundTrip 1000 [120] 300 [] [] (by decide) (by decide) (by decide)⟩

end RoundTrip

end Kv.Listpack
