import Kv.Rdb.Length
import Kv.Util.Conversions
import Kv.Lzf.Compress

/-!
Strings in RDB files (rdb.c). rdbSaveRawString writes a string as a small
integer when string2ll accepts it and it fits in 32 bits, as an LZF blob when
compression is on, the string is longer than 20 bytes and lzf_compress saves at
least four of them, and otherwise as its length and its bytes.
rdbGenericLoadStringObject reads any of the three back; with RDB_LOAD_PLAIN or
RDB_LOAD_SDS the result is the bytes, and `*lenptr` their number. Writes to the
stream do not fail, and allocations succeed. lzf_compress's hash table and the
output buffer it is given are not initialised: both are parameters.
-/

namespace Kv.Rdb

open Foundations Kv.Util Kv.Lzf

def rdbEncInt8 : UInt8 := 0

def rdbEncInt16 : UInt8 := 1

def rdbEncInt32 : UInt8 := 2

def rdbEncLzf : UInt8 := 3

/-- rdbEncodeInteger: the type byte, then `value` little-endian in 8, 16 or 32 bits (the C's `value & 0xFF`,
`(value >> 8) & 0xFF` and so on); no bytes (it returns 0) when 32 bits are not enough. -/
def rdbEncodeInteger (value : Int64) : List UInt8 :=
  if -128 ≤ value.toInt ∧ value.toInt ≤ 127 then
    (rdbEncVal <<< 6 ||| rdbEncInt8) :: encodeLE 1 (ofSigned 1 value.toInt)
  else if -32768 ≤ value.toInt ∧ value.toInt ≤ 32767 then
    (rdbEncVal <<< 6 ||| rdbEncInt16) :: encodeLE 2 (ofSigned 2 value.toInt)
  else if -2147483648 ≤ value.toInt ∧ value.toInt ≤ 2147483647 then
    (rdbEncVal <<< 6 ||| rdbEncInt32) :: encodeLE 4 (ofSigned 4 value.toInt)
  else []

/-- rdbLoadIntegerObject with RDB_LOAD_PLAIN or RDB_LOAD_SDS: the value read sign-extended, then its text by
ll2string into a buffer of LONG_STR_SIZE bytes. -/
def rdbLoadIntegerObject (rdb : List UInt8) (enctype : UInt8) : Option (List UInt8 × List UInt8) := do
  let (val, rdb) ← if enctype = rdbEncInt8 then do
      let (enc, rdb) ← rioRead rdb 1
      some (toSigned 1 (decodeLE enc), rdb)
    else if enctype = rdbEncInt16 then do
      let (enc, rdb) ← rioRead rdb 2
      some (toSigned 2 (decodeLE enc), rdb)
    else if enctype = rdbEncInt32 then do
      let (enc, rdb) ← rioRead rdb 4
      some (toSigned 4 (decodeLE enc), rdb)
    else none
  let buf ← ll2string longStrSize (Int64.ofInt val)
  some (buf, rdb)

/-- rdbTryIntegerEncoding: the integer encoding of what string2ll reads, if it accepts the string. -/
def rdbTryIntegerEncoding (s : List UInt8) : List UInt8 :=
  match string2ll s with
  | some value => rdbEncodeInteger value
  | none => []

def rdbSaveLzfBlob (data : List UInt8) (compressLen originalLen : Nat) : List UInt8 :=
  (rdbEncVal <<< 6 ||| rdbEncLzf) :: (rdbSaveLen compressLen.toUInt64 ++ rdbSaveLen originalLen.toUInt64 ++
    data.take compressLen)

/-- rdbSaveLzfStringObject: the blob when lzf_compress saves at least four bytes, no bytes when it returns 0.
The output buffer holds the bytes of `scratch` where it had them before. -/
def rdbSaveLzfStringObject (htab : Nat → Option Int) (scratch s : List UInt8) : Option (List UInt8) :=
  if s.length ≤ 4 then some []
  else do
    let outlen := s.length - 4
    let (comprlen, out) ← lzfCompress htab s (resizeBytes scratch outlen)
    some (if comprlen ≠ 0 then rdbSaveLzfBlob out comprlen s.length else [])

/-- rdbSaveRawString: the bytes written for `s`, with `server.rdb_compression` as `rdbCompression`. -/
def rdbSaveRawString (rdbCompression : Bool) (htab : Nat → Option Int) (scratch s : List UInt8) :
    Option (List UInt8) := do
  -- try integer encoding
  let enc := if s.length ≤ 11 then rdbTryIntegerEncoding s else []
  if enc ≠ [] then some enc
  else do
    -- try LZF compression: under 20 bytes it is unable to compress
    let compressed ← (if rdbCompression ∧ s.length > 20 then rdbSaveLzfStringObject htab scratch s else some [])
    if compressed ≠ [] then some compressed
    -- store verbatim
    else some (rdbSaveLen s.length.toUInt64 ++ s)

def rdbSaveLongLongAsStringObject (value : Int64) : Option (List UInt8) := do
  let enc := rdbEncodeInteger value
  if enc ≠ [] then some enc
  else do
    let buf ← ll2string 32 value
    if buf.length < 32 then some (rdbSaveLen buf.length.toUInt64 ++ buf) else none

/-- rdbLoadLzfStringObject with RDB_LOAD_PLAIN or RDB_LOAD_SDS: the two lengths, the compressed bytes, and
the string lzf_decompress makes of them when it is `len` bytes long. The target is not initialised; a
successful decompression writes all of it. -/
def rdbLoadLzfStringObject (rdb : List UInt8) : Option (List UInt8 × List UInt8) :=
  let (_, clen, rdb) := rdbLoadLen rdb
  if clen = rdbLenErr then none
  else
    let (_, len, rdb) := rdbLoadLen rdb
    if len = rdbLenErr then none
    else do
      let (c, rdb) ← rioRead rdb clen.toNat
      let (result, val) ← lzfDecompress c (List.replicate len.toNat 0)
      if result ≠ len.toNat then none else some (val, rdb)

/-- rdbGenericLoadStringObject with RDB_LOAD_PLAIN or RDB_LOAD_SDS: the string and the rest of the stream, or
none where it returns NULL. -/
def rdbGenericLoadStringObject (rdb : List UInt8) : Option (List UInt8 × List UInt8) :=
  let (isencoded, len, rdb) := rdbLoadLen rdb
  if len = rdbLenErr then none
  else if isencoded then
    if len = rdbEncInt8.toUInt64 ∨ len = rdbEncInt16.toUInt64 ∨ len = rdbEncInt32.toUInt64 then
      rdbLoadIntegerObject rdb len.toUInt8
    else if len = rdbEncLzf.toUInt64 then rdbLoadLzfStringObject rdb
    else none
  else if len = 0 then some ([], rdb)
  else rioRead rdb len.toNat

section RoundTrip

theorem rdbLoadLen_encType {t : UInt8} (special : t = rdbEncInt8 ∨ t = rdbEncInt16 ∨ t = rdbEncInt32 ∨ t = rdbEncLzf)
    (rest : List UInt8) : rdbLoadLen ((rdbEncVal <<< 6 ||| t) :: rest) = (true, t.toUInt64, rest) := by
  have kind : ((rdbEncVal <<< 6 ||| t) &&& 0xC0) >>> 6 = rdbEncVal ∧
      UInt64.ofNat ((rdbEncVal <<< 6 ||| t) &&& 0x3F).toNat = t.toUInt64 := by
    rcases special with rfl | rfl | rfl | rfl <;> decide
  rw [rdbLoadLen, rdbLoadLenByRef_encVal kind.1, kind.2]

theorem rdbGenericLoadStringObject_integer {t : UInt8} (int : t = rdbEncInt8 ∨ t = rdbEncInt16 ∨ t = rdbEncInt32)
    (rest : List UInt8) : rdbGenericLoadStringObject ((rdbEncVal <<< 6 ||| t) :: rest) = rdbLoadIntegerObject rest t := by
  rw [rdbGenericLoadStringObject, rdbLoadLen_encType (by rcases int with h | h | h <;> simp [h])]
  rcases int with rfl | rfl | rfl <;> simp [rdbLenErr, rdbEncInt8, rdbEncInt16, rdbEncInt32]

theorem rdbGenericLoadStringObject_lzf (rest : List UInt8) :
    rdbGenericLoadStringObject ((rdbEncVal <<< 6 ||| rdbEncLzf) :: rest) = rdbLoadLzfStringObject rest := by
  rw [rdbGenericLoadStringObject, rdbLoadLen_encType (by simp)]
  simp [rdbLenErr, rdbEncInt8, rdbEncInt16, rdbEncInt32, rdbEncLzf]

theorem rdbLoadIntegerObject_encodeLE {t : UInt8} {width : Nat}
    (form : t = rdbEncInt8 ∧ width = 1 ∨ t = rdbEncInt16 ∧ width = 2 ∨ t = rdbEncInt32 ∧ width = 4) {value : Int64}
    (low : -((256 ^ width : Nat) : Int) ≤ 2 * value.toInt) (high : 2 * value.toInt < (256 ^ width : Nat))
    {digits : List UInt8} (printed : ll2string longStrSize value = some digits) (rest : List UInt8) :
    rdbLoadIntegerObject (encodeLE width (ofSigned width value.toInt) ++ rest) t = some (digits, rest) := by
  have read : rioRead (encodeLE width (ofSigned width value.toInt) ++ rest) width =
      some (encodeLE width (ofSigned width value.toInt), rest) := by
    simpa using rioRead_append (encodeLE width (ofSigned width value.toInt)) rest
  have signed := toSigned_decodeLE_encodeLE low high
  rcases form with ⟨rfl, rfl⟩ | ⟨rfl, rfl⟩ | ⟨rfl, rfl⟩ <;>
    simp [rdbLoadIntegerObject, read, signed, printed, rdbEncInt8, rdbEncInt16, rdbEncInt32]

theorem rdbGenericLoadStringObject_rdbEncodeInteger {value : Int64} (encoded : rdbEncodeInteger value ≠ [])
    {digits : List UInt8} (printed : ll2string longStrSize value = some digits) (rest : List UInt8) :
    rdbGenericLoadStringObject (rdbEncodeInteger value ++ rest) = some (digits, rest) := by
  unfold rdbEncodeInteger at encoded ⊢
  by_cases int8 : -128 ≤ value.toInt ∧ value.toInt ≤ 127
  · rw [if_pos int8, List.cons_append, rdbGenericLoadStringObject_integer (.inl rfl),
      rdbLoadIntegerObject_encodeLE (.inl ⟨rfl, rfl⟩) (by omega) (by omega) printed]
  rw [if_neg int8] at encoded ⊢
  by_cases int16 : -32768 ≤ value.toInt ∧ value.toInt ≤ 32767
  · rw [if_pos int16, List.cons_append, rdbGenericLoadStringObject_integer (.inr (.inl rfl)),
      rdbLoadIntegerObject_encodeLE (.inr (.inl ⟨rfl, rfl⟩)) (by omega) (by omega) printed]
  rw [if_neg int16] at encoded ⊢
  by_cases int32 : -2147483648 ≤ value.toInt ∧ value.toInt ≤ 2147483647
  · rw [if_pos int32, List.cons_append, rdbGenericLoadStringObject_integer (.inr (.inr rfl)),
      rdbLoadIntegerObject_encodeLE (.inr (.inr ⟨rfl, rfl⟩)) (by omega) (by omega) printed]
  · rw [if_neg int32] at encoded
    exact absurd rfl encoded

theorem rdbGenericLoadStringObject_rdbTryIntegerEncoding {s : List UInt8} (encoded : rdbTryIntegerEncoding s ≠ [])
    (rest : List UInt8) : rdbGenericLoadStringObject (rdbTryIntegerEncoding s ++ rest) = some (s, rest) := by
  unfold rdbTryIntegerEncoding at encoded ⊢
  cases parsed : string2ll s with
  | none =>
    simp only [parsed] at encoded
    exact absurd rfl encoded
  | some value =>
    simp only [parsed] at encoded ⊢
    have canonical := string2llScalar_canonical parsed
    exact rdbGenericLoadStringObject_rdbEncodeInteger encoded (by rw [ll2string_eq le_rfl, ← canonical]) rest

theorem rdbGenericLoadStringObject_raw {s : List UInt8} (short : s.length < 2 ^ 64 - 1) (rest : List UInt8) :
    rdbGenericLoadStringObject (rdbSaveLen s.length.toUInt64 ++ s ++ rest) = some (s, rest) := by
  have notErr := ofNat_ne_rdbLenErr short
  rw [List.append_assoc, rdbGenericLoadStringObject, rdbLoadLen_rdbSaveLen]
  simp only [Nat.toUInt64_eq, notErr, if_false, Bool.false_eq_true]
  by_cases empty : s = []
  · subst empty
    simp
  · have fits : s.length < UInt64.size := by unfold UInt64.size; omega
    have nonzero : UInt64.ofNat s.length ≠ 0 := by
      intro zero
      have zeroNat := congrArg UInt64.toNat zero
      rw [UInt64.toNat_ofNat_of_lt' fits] at zeroNat
      exact empty (List.eq_nil_of_length_eq_zero zeroNat)
    rw [if_neg nonzero, UInt64.toNat_ofNat_of_lt' fits, rioRead_append]

theorem rdbGenericLoadStringObject_rdbSaveLzfBlob {data original : List UInt8} {compressLen : Nat}
    (fits : compressLen ≤ data.length) (smaller : compressLen ≤ original.length)
    (short : original.length < 2 ^ 64 - 1)
    (decompresses : ∀ buffer : List UInt8, buffer.length = original.length →
      lzfDecompress (data.take compressLen) buffer = some (original.length, original))
    (rest : List UInt8) :
    rdbGenericLoadStringObject (rdbSaveLzfBlob data compressLen original.length ++ rest) = some (original, rest) := by
  have compressedLen := ofNat_ne_rdbLenErr (n := compressLen) (by omega)
  have originalLen := ofNat_ne_rdbLenErr short
  have taken : (data.take compressLen).length = compressLen := by simp [fits]
  have read := rioRead_append (data.take compressLen) rest
  rw [taken] at read
  have unpacked := decompresses (List.replicate original.length 0) (by simp)
  rw [rdbSaveLzfBlob, List.cons_append, rdbGenericLoadStringObject_lzf, rdbLoadLzfStringObject, List.append_assoc,
    List.append_assoc, rdbLoadLen_rdbSaveLen]
  simp only [Nat.toUInt64_eq, compressedLen, if_false]
  rw [rdbLoadLen_rdbSaveLen]
  simp only [originalLen, if_false]
  rw [UInt64.toNat_ofNat_of_lt' (by unfold UInt64.size; omega), UInt64.toNat_ofNat_of_lt' (by unfold UInt64.size; omega)]
  simp [read, unpacked]

theorem rdbSaveLzfStringObject_spec (htab : Nat → Option Int) (scratch : List UInt8) {s : List UInt8}
    (long : 4 < s.length) :
    ∃ bytes, rdbSaveLzfStringObject htab scratch s = some bytes ∧
      (bytes = [] ∨ ∃ out compressLen, bytes = rdbSaveLzfBlob out compressLen s.length ∧
        compressLen ≤ out.length ∧ compressLen < s.length ∧
        ∀ buffer : List UInt8, buffer.length = s.length →
          lzfDecompress (out.take compressLen) buffer = some (s.length, s)) := by
  have notOne : s.length ≠ 1 := by omega
  obtain ⟨result, out', compressed, sized, -⟩ := lzfCompress_spec htab s (resizeBytes scratch (s.length - 4)) notOne
  obtain ⟨result', out'', compressed', within, decompresses⟩ :=
    lzfCompress_roundTrip htab s (resizeBytes scratch (s.length - 4)) notOne
  -- both describe the same call
  simp only [compressed, Option.some.injEq, Prod.mk.injEq] at compressed'
  obtain ⟨rfl, rfl⟩ := compressed'
  simp only [length_resizeBytes] at sized within
  refine ⟨if result ≠ 0 then rdbSaveLzfBlob out' result s.length else [], ?_, ?_⟩
  · rw [rdbSaveLzfStringObject, if_neg (by omega)]
    simp [compressed]
  · by_cases nonzero : result ≠ 0
    · rw [if_pos nonzero]
      exact .inr ⟨out', result, rfl, by omega, by omega, decompresses nonzero⟩
    · rw [if_neg nonzero]
      exact .inl rfl

theorem rdbSaveLzfStringObject_loads (htab : Nat → Option Int) (scratch : List UInt8) {s : List UInt8}
    (long : 4 < s.length) (short : s.length < 2 ^ 64 - 1) :
    ∃ bytes, rdbSaveLzfStringObject htab scratch s = some bytes ∧
      (bytes ≠ [] → ∀ rest, rdbGenericLoadStringObject (bytes ++ rest) = some (s, rest)) := by
  obtain ⟨bytes, saved, nothing | ⟨out, compressLen, rfl, fits, smaller, decompresses⟩⟩ :=
    rdbSaveLzfStringObject_spec htab scratch long
  · exact ⟨bytes, saved, fun nonempty => absurd nothing nonempty⟩
  · exact ⟨_, saved, fun _ rest =>
      rdbGenericLoadStringObject_rdbSaveLzfBlob fits (by omega) short decompresses rest⟩

theorem rdbSaveRawString_loads (rdbCompression : Bool) (htab : Nat → Option Int) (scratch : List UInt8)
    {s : List UInt8} (short : s.length < 2 ^ 64 - 1) :
    ∃ bytes, rdbSaveRawString rdbCompression htab scratch s = some bytes ∧
      ∀ rest, rdbGenericLoadStringObject (bytes ++ rest) = some (s, rest) := by
  -- the integer try gives nothing or an encoding that loads back
  have integer : ∀ rest, (if s.length ≤ 11 then rdbTryIntegerEncoding s else []) ≠ [] →
      rdbGenericLoadStringObject ((if s.length ≤ 11 then rdbTryIntegerEncoding s else []) ++ rest) =
        some (s, rest) := by
    intro rest encoded
    by_cases small : s.length ≤ 11
    · rw [if_pos small] at encoded ⊢
      exact rdbGenericLoadStringObject_rdbTryIntegerEncoding encoded rest
    · rw [if_neg small] at encoded
      exact absurd rfl encoded
  -- so does the LZF try
  obtain ⟨compressed, tried, loads⟩ : ∃ compressed,
      (if rdbCompression ∧ s.length > 20 then rdbSaveLzfStringObject htab scratch s else some []) = some compressed ∧
        (compressed ≠ [] → ∀ rest, rdbGenericLoadStringObject (compressed ++ rest) = some (s, rest)) := by
    by_cases compress : rdbCompression ∧ s.length > 20
    · rw [if_pos compress]
      exact rdbSaveLzfStringObject_loads htab scratch (by omega) short
    · rw [if_neg compress]
      exact ⟨[], rfl, fun nonempty => absurd rfl nonempty⟩
  unfold rdbSaveRawString
  generalize (if s.length ≤ 11 then rdbTryIntegerEncoding s else []) = enc at integer ⊢
  by_cases encoded : enc ≠ []
  · rw [if_pos encoded]
    exact ⟨enc, rfl, fun rest => integer rest encoded⟩
  rw [if_neg encoded, tried]
  simp only [Option.bind_eq_bind, Option.bind_some]
  by_cases nonempty : compressed ≠ []
  · rw [if_pos nonempty]
    exact ⟨compressed, rfl, loads nonempty⟩
  · -- stored verbatim
    rw [if_neg nonempty]
    exact ⟨_, rfl, fun rest => rdbGenericLoadStringObject_raw short rest⟩

theorem rdbSaveLongLongAsStringObject_loads (value : Int64) :
    ∃ bytes digits, rdbSaveLongLongAsStringObject value = some bytes ∧ ll2string 32 value = some digits ∧
      ∀ rest, rdbGenericLoadStringObject (bytes ++ rest) = some (digits, rest) := by
  obtain ⟨digits, printed⟩ : ∃ digits, ll2string longStrSize value = some digits := ⟨_, ll2string_eq le_rfl value⟩
  -- LONG_STR_SIZE bytes are enough: the 32-byte buffer holds the same text
  have same : ll2string 32 value = some digits := by
    rw [ll2string_eq (by decide), ← printed, ll2string_eq le_rfl]
  have bounded : digits.length ≤ 20 := by
    rw [ll2string_eq le_rfl, Option.some.injEq] at printed
    have atMost := length_decimal_natAbs value
    subst printed
    split
    · simp only [List.length_cons]
      omega
    · rw [show value.toInt.toNat = value.toInt.natAbs by omega]
      omega
  by_cases encoded : rdbEncodeInteger value ≠ []
  · refine ⟨rdbEncodeInteger value, digits, by simp [rdbSaveLongLongAsStringObject, encoded], same,
      fun rest => rdbGenericLoadStringObject_rdbEncodeInteger encoded printed rest⟩
  · refine ⟨rdbSaveLen digits.length.toUInt64 ++ digits, digits, ?_, same,
      fun rest => rdbGenericLoadStringObject_raw (by omega) rest⟩
    simp [rdbSaveLongLongAsStringObject, encoded, same, show digits.length < 32 by omega]

theorem rdbGenericLoadStringObject_rdbLenErr (rest : List UInt8) :
    rdbGenericLoadStringObject (rdbSaveLen rdbLenErr ++ rest) = none := by
  rw [rdbGenericLoadStringObject, rdbLoadLen_rdbSaveLen]
  simp

theorem rdbGenericLoadStringObject_rdbSaveLzfBlob_lenErr (data : List UInt8) (compressLen : Nat) (rest : List UInt8) :
    rdbGenericLoadStringObject (rdbSaveLzfBlob data compressLen (2 ^ 64 - 1) ++ rest) = none := by
  rw [rdbSaveLzfBlob, List.cons_append, rdbGenericLoadStringObject_lzf, rdbLoadLzfStringObject, List.append_assoc,
    List.append_assoc, rdbLoadLen_rdbSaveLen]
  by_cases err : compressLen.toUInt64 = rdbLenErr
  · simp only [err, if_true]
  · simp only [err, if_false]
    rw [rdbLoadLen_rdbSaveLen, toUInt64_rdbLenErr]
    simp

theorem rdbSaveRawString_unloadable (rdbCompression : Bool) (htab : Nat → Option Int) (scratch : List UInt8)
    {s : List UInt8} (longest : s.length = 2 ^ 64 - 1) (rest : List UInt8) :
    ∃ bytes, rdbSaveRawString rdbCompression htab scratch s = some bytes ∧
      rdbGenericLoadStringObject (bytes ++ rest) = none := by
  obtain ⟨compressed, tried, fails⟩ : ∃ compressed,
      (if rdbCompression ∧ s.length > 20 then rdbSaveLzfStringObject htab scratch s else some []) = some compressed ∧
        (compressed ≠ [] → rdbGenericLoadStringObject (compressed ++ rest) = none) := by
    by_cases compress : rdbCompression ∧ s.length > 20
    · rw [if_pos compress]
      obtain ⟨bytes, saved, nothing | ⟨out, compressLen, rfl, -, -, -⟩⟩ :=
        rdbSaveLzfStringObject_spec htab scratch (show 4 < s.length by omega)
      · exact ⟨bytes, saved, fun nonempty => absurd nothing nonempty⟩
      · refine ⟨_, saved, fun _ => ?_⟩
        rw [longest]
        exact rdbGenericLoadStringObject_rdbSaveLzfBlob_lenErr out compressLen rest
    · rw [if_neg compress]
      exact ⟨[], rfl, fun nonempty => absurd rfl nonempty⟩
  unfold rdbSaveRawString
  -- too long for the integer try
  rw [if_neg (show ¬s.length ≤ 11 by omega), if_neg (fun nonempty => nonempty rfl), tried]
  simp only [Option.bind_eq_bind, Option.bind_some]
  by_cases nonempty : compressed ≠ []
  · rw [if_pos nonempty]
    exact ⟨compressed, rfl, fails nonempty⟩
  · rw [if_neg nonempty]
    refine ⟨_, rfl, ?_⟩
    rw [longest, toUInt64_rdbLenErr, List.append_assoc, rdbGenericLoadStringObject_rdbLenErr]

theorem rdbSaveRawString_longest_unloadable :
    ∃ bytes, rdbSaveRawString true (fun _ => none) [] (List.replicate (2 ^ 64 - 1) 0) = some bytes ∧
      rdbGenericLoadStringObject (bytes ++ []) = none :=
  rdbSaveRawString_unloadable true (fun _ => none) [] (List.length_replicate ..) []

end RoundTrip

/-- The RDB codecs round trip: every length comes back from rdbSaveLen; every string shorter than RDB_LENERR
comes back from what rdbSaveRawString writes, under either compression setting and whatever hash table and
output buffer lzf_compress is given; and every long long comes back from rdbSaveLongLongAsStringObject as the
text ll2string makes of it. Each load stops right after the bytes written. -/
theorem rdbCodecs_roundTrip :
    (∀ (len : UInt64) (rest : List UInt8), rdbLoadLenByRef (rdbSaveLen len ++ rest) = some (false, len, rest)) ∧
    (∀ (rdbCompression : Bool) (htab : Nat → Option Int) (scratch s rest : List UInt8), s.length < 2 ^ 64 - 1 →
      ∃ bytes, rdbSaveRawString rdbCompression htab scratch s = some bytes ∧
        rdbGenericLoadStringObject (bytes ++ rest) = some (s, rest)) ∧
    (∀ (value : Int64) (rest : List UInt8), ∃ bytes digits, rdbSaveLongLongAsStringObject value = some bytes ∧
      ll2string 32 value = some digits ∧ rdbGenericLoadStringObject (bytes ++ rest) = some (digits, rest)) := by
  refine ⟨rdbLoadLenByRef_rdbSaveLen, fun rdbCompression htab scratch s rest short => ?_, fun value rest => ?_⟩
  · obtain ⟨bytes, saved, loads⟩ := rdbSaveRawString_loads rdbCompression htab scratch short
    exact ⟨bytes, saved, loads rest⟩
  · obtain ⟨bytes, digits, saved, printed, loads⟩ := rdbSaveLongLongAsStringObject_loads value
    exact ⟨bytes, digits, saved, printed, loads rest⟩

theorem rdbCodecs_roundTrip_letter :
    ∃ bytes, rdbSaveRawString true (fun _ => none) [] [97] = some bytes ∧
      rdbGenericLoadStringObject (bytes ++ []) = some ([97], []) :=
  rdbCodecs_roundTrip.2.1 true (fun _ => none) [] [97] [] (by simp)

end Kv.Rdb
