import Kv.Intset.Intset
import Mathlib.Tactic.Positivity
import Mathlib.Tactic.Ring

/-!
How the intset's primitives act on an allocation laid out as a header and then
records of one width: the fields read back, and a record read or written is
the one at its index. `Layout` says an intset holds a list of values this way;
`Represents` adds what makes it a set, sorted with no repeats.
-/

namespace Kv.Intset

open Foundations

def header (encoding length : Nat) : List UInt8 := encodeLE 4 encoding ++ encodeLE 4 length

def encodeRecord (width : Nat) (value : Int) : List UInt8 := encodeLE width (ofSigned width value)

def ValidEncoding (encoding : Nat) : Prop :=
  encoding = intsetEncInt16 ∨ encoding = intsetEncInt32 ∨ encoding = intsetEncInt64

def IsInt64 (v : Int) : Prop := -9223372036854775808 ≤ v ∧ v ≤ 9223372036854775807

@[simp] theorem length_header (encoding length : Nat) : (header encoding length).length = 8 := by
  simp [header]

@[simp] theorem length_encodeRecord (width : Nat) (value : Int) : (encodeRecord width value).length = width := by
  simp [encodeRecord]

theorem length_records (width : Nat) (values : List Int) :
    (values.flatMap (encodeRecord width)).length = values.length * width :=
  length_flatMap_chunks (length_encodeRecord width) values

theorem encodeRecord_zero (width : Nat) : encodeRecord width 0 = List.replicate width 0 := by
  simp [encodeRecord, ofSigned, encodeLE_zero]

section Header

variable {encoding length : Nat} {body : List UInt8}

@[simp] theorem encoding_header : (Intset.mk (header encoding length ++ body)).encoding = encoding % 2 ^ 32 := by
  have first : (header encoding length ++ body).take 4 = encodeLE 4 encoding := by
    simp [header]
  simp only [Intset.encoding, first, decodeLE_encodeLE]
  norm_num

@[simp] theorem length_header_field : (Intset.mk (header encoding length ++ body)).length = length % 2 ^ 32 := by
  have second : ((header encoding length ++ body).drop 4).take 4 = encodeLE 4 length := by
    simp [header]
  simp only [Intset.length, second, decodeLE_encodeLE]
  norm_num

@[simp] theorem setLength_header (length' : Nat) :
    (Intset.mk (header encoding length ++ body)).setLength length' = ⟨header encoding length' ++ body⟩ := by
  simp [Intset.setLength, header, List.drop_append]

@[simp] theorem setEncoding_header (encoding' : Nat) :
    (Intset.mk (header encoding length ++ body)).setEncoding encoding' = ⟨header encoding' length ++ body⟩ := by
  simp [Intset.setEncoding, header]

theorem offset_toNat (pos width : Nat) : (8 + (pos : Int) * (width : Int)).toNat = 8 + pos * width := by
  have cast : (8 + (pos : Int) * (width : Int)) = ((8 + pos * width : Nat) : Int) := by push_cast; ring
  rw [cast, Int.toNat_natCast]

theorem _intsetGetEncoded_header (pos : Nat) (enc : Nat) :
    _intsetGetEncoded ⟨header encoding length ++ body⟩ pos enc =
      (readBytes body (pos * recordWidth enc) (recordWidth enc)).map
        fun bytes => toSigned (recordWidth enc) (decodeLE bytes) := by
  have nonneg : ¬(8 + (pos : Int) * (recordWidth enc : Int) < 0) := by
    rw [not_lt]
    positivity
  simp only [_intsetGetEncoded, nonneg, if_false, offset_toNat]
  rw [← length_header encoding length, readBytes_append_offset]

theorem _intsetSet_header (pos : Nat) (value : Int) :
    _intsetSet ⟨header encoding length ++ body⟩ pos value =
      (writeBytes body (pos * recordWidth (encoding % 2 ^ 32))
        (encodeRecord (recordWidth (encoding % 2 ^ 32)) value)).map
        fun body => ⟨header encoding length ++ body⟩ := by
  have nonneg : ¬(8 + (pos : Int) * (recordWidth (encoding % 2 ^ 32) : Int) < 0) := by
    rw [not_lt]
    positivity
  simp only [_intsetSet, encoding_header, nonneg, if_false, offset_toNat, encodeRecord]
  rw [← length_header encoding length, writeBytes_append_offset, Option.map_map]
  rfl

end Header

section Encodings

variable {encoding : Nat}

theorem ValidEncoding.recordWidth (valid : ValidEncoding encoding) : recordWidth encoding = encoding := by
  rcases valid with rfl | rfl | rfl <;> rfl

theorem ValidEncoding.mod_byte (valid : ValidEncoding encoding) : encoding % 256 = encoding := by
  rcases valid with rfl | rfl | rfl <;> rfl

theorem ValidEncoding.mod_word (valid : ValidEncoding encoding) : encoding % 2 ^ 32 = encoding := by
  rcases valid with rfl | rfl | rfl <;> rfl

theorem ValidEncoding.le_eight (valid : ValidEncoding encoding) : encoding ≤ 8 := by
  rcases valid with rfl | rfl | rfl <;> decide

theorem validEncoding_valueEncoding (v : Int) : ValidEncoding (_intsetValueEncoding v) := by
  unfold _intsetValueEncoding ValidEncoding
  split_ifs <;> simp

theorem fits_of_valueEncoding {v : Int} (int64 : IsInt64 v) (valid : ValidEncoding encoding)
    (needs : _intsetValueEncoding v ≤ encoding) :
    -((256 ^ encoding : Nat) : Int) ≤ 2 * v ∧ 2 * v < (256 ^ encoding : Nat) := by
  unfold IsInt64 at int64
  unfold _intsetValueEncoding at needs
  rcases valid with rfl | rfl | rfl <;>
    split_ifs at needs <;> simp_all [intsetEncInt16, intsetEncInt32, intsetEncInt64] <;> omega

theorem decode_encodeRecord {v : Int} (int64 : IsInt64 v) (valid : ValidEncoding encoding)
    (needs : _intsetValueEncoding v ≤ encoding) :
    toSigned encoding (decodeLE (encodeRecord encoding v)) = v := by
  obtain ⟨low, high⟩ := fits_of_valueEncoding int64 valid needs
  rw [encodeRecord, decodeLE_encodeLE, Nat.mod_eq_of_lt (ofSigned_lt encoding v)]
  exact toSigned_ofSigned low high

end Encodings

section Records

variable {width : Nat}

theorem readBytes_records (values : List Int) (tail : List UInt8) {i : Nat} (inside : i < values.length) :
    readBytes (values.flatMap (encodeRecord width) ++ tail) (i * width) width =
      some (encodeRecord width values[i]) := by
  rw [flatMap_split values inside, List.append_assoc, List.append_assoc]
  rw [readBytes_append (by rw [length_records, List.length_take, Nat.min_eq_left inside.le])
    (by simp)]
  simp

theorem writeBytes_records (values : List Int) (tail : List UInt8) {i : Nat} (inside : i < values.length)
    (value : Int) :
    writeBytes (values.flatMap (encodeRecord width) ++ tail) (i * width) (encodeRecord width value) =
      some ((values.set i value).flatMap (encodeRecord width) ++ tail) := by
  rw [flatMap_split values inside, List.append_assoc, List.append_assoc]
  rw [writeBytes_append (by rw [length_records, List.length_take, Nat.min_eq_left inside.le])
    (by simp)]
  rw [flatMap_split (values.set i value) (by simpa using inside)]
  simp [List.take_set_of_le, List.drop_set_of_lt]

end Records

structure Layout (is : Intset) (values : List Int) : Prop where
  valid : ValidEncoding is.encoding
  bytes : is.bytes = header is.encoding values.length ++ values.flatMap (encodeRecord is.encoding)
  fits : ∀ v ∈ values, IsInt64 v ∧ _intsetValueEncoding v ≤ is.encoding

structure Represents (is : Intset) (values : List Int) : Prop extends Layout is values where
  sorted : values.Pairwise (· < ·)
  short : values.length < 2 ^ 31

namespace Layout

variable {is : Intset} {values : List Int}

theorem eq_header (layout : Layout is values) :
    is = ⟨header is.encoding values.length ++ values.flatMap (encodeRecord is.encoding)⟩ := by
  rw [← layout.bytes]

theorem exists_encoding (layout : Layout is values) :
    ∃ e, ValidEncoding e ∧ is = ⟨header e values.length ++ values.flatMap (encodeRecord e)⟩ ∧
      ∀ v ∈ values, IsInt64 v ∧ _intsetValueEncoding v ≤ e :=
  ⟨is.encoding, layout.valid, layout.eq_header, layout.fits⟩

theorem length (layout : Layout is values) : is.length = values.length % 2 ^ 32 := by
  rw [show is = ⟨is.bytes⟩ from rfl, layout.bytes, length_header_field]

theorem get (layout : Layout is values) {i : Nat} (inside : i < values.length) :
    _intsetGet is i = some values[i] := by
  rw [_intsetGet, show is = ⟨is.bytes⟩ from rfl, layout.bytes, _intsetGetEncoded_header, ← layout.bytes,
    layout.valid.mod_byte, layout.valid.recordWidth, ← List.append_nil (List.flatMap _ _),
    readBytes_records values [] inside, Option.map_some]
  obtain ⟨int64, needs⟩ := layout.fits values[i] (List.getElem_mem inside)
  rw [decode_encodeRecord int64 layout.valid needs]

end Layout

end Kv.Intset
