import Kv.Foundations.Bytes

/-!
The length codec of RDB files (rdb.c). rdbSaveLen writes a length in one, two,
five or nine bytes, the top two bits of the first byte saying which, the long
forms big-endian; rdbLoadLenByRef reads it back, the fourth kind of first byte
(ENCVAL) marking a special encoding whose type is in its low six bits. A stream
is the list of bytes still to read; a read past its end fails, as rioRead
returns 0 there.
-/

namespace Kv.Rdb

open Foundations

def rdb6BitLen : UInt8 := 0

def rdb14BitLen : UInt8 := 1

def rdb32BitLen : UInt8 := 0x80

def rdb64BitLen : UInt8 := 0x81

def rdbEncVal : UInt8 := 3

def rdbLenErr : UInt64 := 0xFFFFFFFFFFFFFFFF

def rioRead (rdb : List UInt8) (count : Nat) : Option (List UInt8 × List UInt8) :=
  if count ≤ rdb.length then some (rdb.take count, rdb.drop count) else none

/-- rdbSaveLen: the bytes written for `len`. -/
def rdbSaveLen (len : UInt64) : List UInt8 :=
  if len.toNat < 1 <<< 6 then [UInt8.ofNat len.toNat ||| rdb6BitLen <<< 6]
  else if len.toNat < 1 <<< 14 then [UInt8.ofNat (len.toNat >>> 8) ||| rdb14BitLen <<< 6, UInt8.ofNat len.toNat]
  -- htonl and htonu64: the bytes most significant first
  else if len.toNat ≤ 0xFFFFFFFF then rdb32BitLen :: (encodeLE 4 len.toNat).reverse
  else rdb64BitLen :: (encodeLE 8 len.toNat).reverse

/-- rdbLoadLenByRef: `*isencoded`, `*lenptr` and the rest of the stream, or none where it returns -1 (a
short read, or a first byte of no known kind). -/
def rdbLoadLenByRef (rdb : List UInt8) : Option (Bool × UInt64 × List UInt8) := do
  let (buf, rdb) ← rioRead rdb 1
  let b := buf.headD 0
  let type := (b &&& 0xC0) >>> 6
  if type = rdbEncVal then some (true, UInt64.ofNat (b &&& 0x3F).toNat, rdb)
  else if type = rdb6BitLen then some (false, UInt64.ofNat (b &&& 0x3F).toNat, rdb)
  else if type = rdb14BitLen then do
    let (buf, rdb) ← rioRead rdb 1
    some (false, UInt64.ofNat ((b &&& 0x3F).toNat <<< 8 ||| (buf.headD 0).toNat), rdb)
  else if b = rdb32BitLen then do
    let (bytes, rdb) ← rioRead rdb 4
    some (false, UInt64.ofNat (decodeLE bytes.reverse), rdb)
  else if b = rdb64BitLen then do
    let (bytes, rdb) ← rioRead rdb 8
    some (false, UInt64.ofNat (decodeLE bytes.reverse), rdb)
  else none

def rdbLoadLen (rdb : List UInt8) : Bool × UInt64 × List UInt8 :=
  match rdbLoadLenByRef rdb with
  | some loaded => loaded
  | none => (false, rdbLenErr, rdb)

section RoundTrip

theorem rioRead_append (bytes rest : List UInt8) : rioRead (bytes ++ rest) bytes.length = some (bytes, rest) := by
  simp [rioRead]

theorem sixBit_byte : ∀ n < 64, ((UInt8.ofNat n ||| rdb6BitLen <<< 6) &&& 0xC0) >>> 6 = rdb6BitLen ∧
    ((UInt8.ofNat n ||| rdb6BitLen <<< 6) &&& 0x3F).toNat = n := by
  decide

theorem fourteenBit_byte : ∀ n < 64, ((UInt8.ofNat n ||| rdb14BitLen <<< 6) &&& 0xC0) >>> 6 = rdb14BitLen ∧
    ((UInt8.ofNat n ||| rdb14BitLen <<< 6) &&& 0x3F).toNat = n := by
  decide

theorem decodeLE_reverse_encodeLE {width n : Nat} (fits : n < 256 ^ width) :
    decodeLE (encodeLE width n).reverse.reverse = n := by
  rw [List.reverse_reverse, decodeLE_encodeLE, Nat.mod_eq_of_lt fits]

theorem rdbLoadLenByRef_encVal {b : UInt8} (kind : (b &&& 0xC0) >>> 6 = rdbEncVal) (rest : List UInt8) :
    rdbLoadLenByRef (b :: rest) = some (true, UInt64.ofNat (b &&& 0x3F).toNat, rest) := by
  simp [rdbLoadLenByRef, rioRead, kind]

theorem rdbLoadLenByRef_sixBit {b : UInt8} (kind : (b &&& 0xC0) >>> 6 = rdb6BitLen) (rest : List UInt8) :
    rdbLoadLenByRef (b :: rest) = some (false, UInt64.ofNat (b &&& 0x3F).toNat, rest) := by
  simp [rdbLoadLenByRef, rioRead, kind, rdb6BitLen, rdbEncVal]

theorem rdbLoadLenByRef_fourteenBit {b b1 : UInt8} (kind : (b &&& 0xC0) >>> 6 = rdb14BitLen) (rest : List UInt8) :
    rdbLoadLenByRef (b :: b1 :: rest) = some (false, UInt64.ofNat ((b &&& 0x3F).toNat <<< 8 ||| b1.toNat), rest) := by
  simp [rdbLoadLenByRef, rioRead, kind, rdb6BitLen, rdb14BitLen, rdbEncVal]

theorem rdb32BitLen_kind : (rdb32BitLen &&& 0xC0) >>> 6 = 2 := by decide

theorem rdb64BitLen_kind : (rdb64BitLen &&& 0xC0) >>> 6 = 2 := by decide

theorem rdbLoadLenByRef_thirtyTwoBit {bytes : List UInt8} (four : bytes.length = 4) (rest : List UInt8) :
    rdbLoadLenByRef (rdb32BitLen :: (bytes ++ rest)) = some (false, UInt64.ofNat (decodeLE bytes.reverse), rest) := by
  simp [rdbLoadLenByRef, rioRead, rdb32BitLen_kind, rdb6BitLen, rdb14BitLen, rdbEncVal, four]

theorem rdbLoadLenByRef_sixtyFourBit {bytes : List UInt8} (eight : bytes.length = 8) (rest : List UInt8) :
    rdbLoadLenByRef (rdb64BitLen :: (bytes ++ rest)) = some (false, UInt64.ofNat (decodeLE bytes.reverse), rest) := by
  have other : rdb64BitLen ≠ rdb32BitLen := by decide
  simp [rdbLoadLenByRef, rioRead, rdb64BitLen_kind, rdb6BitLen, rdb14BitLen, rdbEncVal, other, eight]

theorem rdbLoadLenByRef_rdbSaveLen (len : UInt64) (rest : List UInt8) :
    rdbLoadLenByRef (rdbSaveLen len ++ rest) = some (false, len, rest) := by
  have bound := len.toNat_lt
  unfold rdbSaveLen
  by_cases six : len.toNat < 1 <<< 6
  · -- one byte
    obtain ⟨kind, low⟩ := sixBit_byte len.toNat (by simpa using six)
    rw [if_pos six, List.singleton_append, rdbLoadLenByRef_sixBit kind, low, UInt64.ofNat_toNat]
  rw [if_neg six]
  by_cases fourteen : len.toNat < 1 <<< 14
  · -- two bytes: the high six bits in the first
    have high : len.toNat >>> 8 < 64 := by
      rw [Nat.shiftRight_eq_div_pow]
      simp at fourteen
      omega
    obtain ⟨kind, low⟩ := fourteenBit_byte (len.toNat >>> 8) high
    have joined : (len.toNat >>> 8) <<< 8 ||| (UInt8.ofNat len.toNat).toNat = len.toNat := by
      rw [← Nat.shiftLeft_add_eq_or_of_lt (by simp; omega), Nat.shiftLeft_eq, Nat.shiftRight_eq_div_pow]
      simp
      omega
    rw [if_pos fourteen, List.cons_append, List.singleton_append, rdbLoadLenByRef_fourteenBit kind, low, joined,
      UInt64.ofNat_toNat]
  rw [if_neg fourteen]
  by_cases thirtyTwo : len.toNat ≤ 0xFFFFFFFF
  · -- RDB_32BITLEN, then four bytes
    rw [if_pos thirtyTwo, List.cons_append, rdbLoadLenByRef_thirtyTwoBit (by simp),
      decodeLE_reverse_encodeLE (by omega), UInt64.ofNat_toNat]
  · -- RDB_64BITLEN, then eight bytes
    rw [if_neg thirtyTwo, List.cons_append, rdbLoadLenByRef_sixtyFourBit (by simp),
      decodeLE_reverse_encodeLE (by omega), UInt64.ofNat_toNat]

theorem rdbLoadLen_rdbSaveLen (len : UInt64) (rest : List UInt8) :
    rdbLoadLen (rdbSaveLen len ++ rest) = (false, len, rest) := by
  rw [rdbLoadLen, rdbLoadLenByRef_rdbSaveLen]

theorem ofNat_ne_rdbLenErr {n : Nat} (short : n < 2 ^ 64 - 1) : UInt64.ofNat n ≠ rdbLenErr := by
  intro same
  have sameNat := congrArg UInt64.toNat same
  have errNat : rdbLenErr.toNat = 2 ^ 64 - 1 := rfl
  rw [UInt64.toNat_ofNat_of_lt' (by unfold UInt64.size; omega), errNat] at sameNat
  omega

theorem toUInt64_rdbLenErr : (2 ^ 64 - 1 : Nat).toUInt64 = rdbLenErr := rfl

end RoundTrip

end Kv.Rdb
