import Mathlib.Data.List.Basic
import Mathlib.Data.List.DropRight
import Mathlib.Algebra.Order.Group.Int
import Mathlib.Algebra.Group.Nat.Defs

/-!
Byte buffers: little-endian words, two's complement, and reads and writes of a
buffer at an offset, with `none` for an access past its end. Records of one
width laid end to end are read and written by the chunk lemmas, and a long
long and an unsigned long long are converted into each other as C does.
-/

namespace Foundations

def encodeLE : Nat → Nat → List UInt8
  | 0, _ => []
  | width + 1, n => UInt8.ofNat (n % 256) :: encodeLE width (n / 256)

def decodeLE : List UInt8 → Nat
  | [] => 0
  | byte :: bytes => byte.toNat + 256 * decodeLE bytes

theorem encodeLE_succ (width n : Nat) : encodeLE (width + 1) n = UInt8.ofNat (n % 256) :: encodeLE width (n / 256) :=
  rfl

theorem decodeLE_cons (byte : UInt8) (bytes : List UInt8) : decodeLE (byte :: bytes) = byte.toNat + 256 * decodeLE bytes :=
  rfl

@[simp] theorem length_encodeLE (width n : Nat) : (encodeLE width n).length = width := by
  induction width generalizing n with
  | zero => rfl
  | succ width ih => rw [encodeLE_succ, List.length_cons, ih]

theorem decodeLE_encodeLE (width n : Nat) : decodeLE (encodeLE width n) = n % 256 ^ width := by
  induction width generalizing n with
  | zero => rw [Nat.pow_zero, Nat.mod_one]; rfl
  | succ width ih =>
    have low : (UInt8.ofNat (n % 256)).toNat = n % 256 := by simp
    rw [encodeLE_succ, decodeLE_cons, ih, low]
    rw [Nat.pow_succ, Nat.mul_comm (256 ^ width) 256, Nat.mod_mul]

theorem encodeLE_zero (width : Nat) : encodeLE width 0 = List.replicate width 0 := by
  induction width with
  | zero => rfl
  | succ width ih => rw [encodeLE_succ, Nat.zero_div, ih, List.replicate_succ]; rfl

def toSigned (width n : Nat) : Int :=
  if 2 * n < 256 ^ width then n else (n : Int) - (256 ^ width : Nat)

def ofSigned (width : Nat) (v : Int) : Nat :=
  (v % (256 ^ width : Nat)).toNat

theorem toSigned_def (width n : Nat) :
    toSigned width n = if 2 * n < 256 ^ width then (n : Int) else (n : Int) - (256 ^ width : Nat) :=
  rfl

theorem ofSigned_def (width : Nat) (v : Int) : ofSigned width v = (v % (256 ^ width : Nat)).toNat := rfl

theorem ofSigned_lt (width : Nat) (v : Int) : ofSigned width v < 256 ^ width := by
  have positive : (0 : Int) < (256 ^ width : Nat) := by exact_mod_cast Nat.pow_pos (by decide : 0 < 256)
  have below := Int.emod_lt_of_pos v positive
  have nonneg := Int.emod_nonneg v positive.ne'
  rw [ofSigned_def]
  omega

theorem toSigned_ofSigned {width : Nat} {v : Int} (low : -((256 ^ width : Nat) : Int) ≤ 2 * v)
    (high : 2 * v < (256 ^ width : Nat)) : toSigned width (ofSigned width v) = v := by
  rw [toSigned_def, ofSigned_def]
  generalize 256 ^ width = modulus at low high ⊢
  by_cases sign : 0 ≤ v
  · have same : v % (modulus : Int) = v := Int.emod_eq_of_lt sign (by omega)
    rw [same, if_pos (by omega)]
    omega
  · -- a negative value wraps to its pattern above the signed range
    have shifted : v % (modulus : Int) = v + modulus := by
      rw [← Int.add_emod_right]
      exact Int.emod_eq_of_lt (by omega) (by omega)
    rw [shifted, if_neg (by omega)]
    omega

theorem toSigned_decodeLE_encodeLE {width : Nat} {v : Int} (low : -((256 ^ width : Nat) : Int) ≤ 2 * v)
    (high : 2 * v < (256 ^ width : Nat)) : toSigned width (decodeLE (encodeLE width (ofSigned width v))) = v := by
  rw [decodeLE_encodeLE, Nat.mod_eq_of_lt (ofSigned_lt width v), toSigned_ofSigned low high]

theorem toSigned_of_lt {width n : Nat} (small : 2 * n < 256 ^ width) : toSigned width n = n := by
  rw [toSigned_def, if_pos small]

theorem ofSigned_of_lt {width : Nat} {n : Nat} (small : n < 256 ^ width) : ofSigned width n = n := by
  rw [ofSigned_def, Int.emod_eq_of_lt (by omega) (by exact_mod_cast small)]
  rfl

theorem ofSigned_of_nonneg {width : Nat} {v : Int} (low : 0 ≤ v) (high : v < (256 ^ width : Nat)) :
    ofSigned width v = v.toNat := by
  rw [ofSigned_def, Int.emod_eq_of_lt low high]

def readBytes (buffer : List UInt8) (offset count : Nat) : Option (List UInt8) :=
  if offset + count ≤ buffer.length then some ((buffer.drop offset).take count) else none

def writeBytes (buffer : List UInt8) (offset : Nat) (bytes : List UInt8) : Option (List UInt8) :=
  if offset + bytes.length ≤ buffer.length then some (buffer.take offset ++ bytes ++ buffer.drop (offset + bytes.length))
  else none

def moveBytes (buffer : List UInt8) (target source count : Nat) : Option (List UInt8) := do
  let bytes ← readBytes buffer source count
  writeBytes buffer target bytes

def resizeBytes (buffer : List UInt8) (size : Nat) : List UInt8 :=
  buffer.take size ++ List.replicate (size - buffer.length) 0

theorem readBytes_def (buffer : List UInt8) (offset count : Nat) :
    readBytes buffer offset count = if offset + count ≤ buffer.length then some ((buffer.drop offset).take count) else none :=
  rfl

theorem writeBytes_def (buffer : List UInt8) (offset : Nat) (bytes : List UInt8) :
    writeBytes buffer offset bytes =
      if offset + bytes.length ≤ buffer.length then some (buffer.take offset ++ bytes ++ buffer.drop (offset + bytes.length))
      else none :=
  rfl

theorem moveBytes_def (buffer : List UInt8) (target source count : Nat) :
    moveBytes buffer target source count = (readBytes buffer source count).bind (writeBytes buffer target) :=
  rfl

theorem resizeBytes_def (buffer : List UInt8) (size : Nat) :
    resizeBytes buffer size = buffer.take size ++ List.replicate (size - buffer.length) 0 :=
  rfl

section Buffers

variable {pre rest : List UInt8} {offset : Nat}

theorem readBytes_append (start : offset = pre.length) {count : Nat} (fits : count ≤ rest.length) :
    readBytes (pre ++ rest) offset count = some (rest.take count) := by
  subst start
  simp [readBytes_def, fits]

theorem writeBytes_append (start : offset = pre.length) {bytes : List UInt8} (fits : bytes.length ≤ rest.length) :
    writeBytes (pre ++ rest) offset bytes = some (pre ++ bytes ++ rest.drop bytes.length) := by
  subst start
  simp [writeBytes_def, fits, List.drop_append]

theorem readBytes_append_offset (pre rest : List UInt8) (k count : Nat) :
    readBytes (pre ++ rest) (pre.length + k) count = readBytes rest k count := by
  rw [readBytes_def, readBytes_def]
  by_cases fits : k + count ≤ rest.length
  · rw [if_pos (by simp; omega), if_pos fits, List.drop_length_add_append]
  · rw [if_neg (by simp; omega), if_neg fits]

theorem writeBytes_append_offset (pre rest bytes : List UInt8) (k : Nat) :
    writeBytes (pre ++ rest) (pre.length + k) bytes = (writeBytes rest k bytes).map (pre ++ ·) := by
  rw [writeBytes_def, writeBytes_def]
  by_cases fits : k + bytes.length ≤ rest.length
  · rw [if_pos (by simp; omega), if_pos fits, List.take_length_add_append, Nat.add_assoc,
      List.drop_length_add_append]
    simp
  · rw [if_neg (by simp; omega), if_neg fits]
    rfl

theorem moveBytes_append_offset (pre rest : List UInt8) (target source count : Nat) :
    moveBytes (pre ++ rest) (pre.length + target) (pre.length + source) count =
      (moveBytes rest target source count).map (pre ++ ·) := by
  rw [moveBytes_def, moveBytes_def, readBytes_append_offset]
  cases readBytes rest source count with
  | none => rfl
  | some bytes => simp only [Option.bind_some, writeBytes_append_offset]

theorem resizeBytes_append_offset (pre rest : List UInt8) (size : Nat) :
    resizeBytes (pre ++ rest) (pre.length + size) = pre ++ resizeBytes rest size := by
  rw [resizeBytes_def, resizeBytes_def, List.take_length_add_append, List.length_append, Nat.add_sub_add_left, List.append_assoc]

theorem writeBytes_cons (pre post : List UInt8) (old new : UInt8) :
    writeBytes (pre ++ old :: post) pre.length [new] = some (pre ++ new :: post) := by
  rw [writeBytes_append rfl (by simp)]
  simp

theorem readBytes_eq_some {buffer : List UInt8} {count : Nat} (fits : offset + count ≤ buffer.length) :
    readBytes buffer offset count = some ((buffer.drop offset).take count) := by
  rw [readBytes_def, if_pos fits]

theorem writeBytes_eq_some {buffer bytes : List UInt8} (fits : offset + bytes.length ≤ buffer.length) :
    writeBytes buffer offset bytes = some (buffer.take offset ++ bytes ++ buffer.drop (offset + bytes.length)) := by
  rw [writeBytes_def, if_pos fits]

theorem length_of_writeBytes {buffer bytes written : List UInt8} (wrote : writeBytes buffer offset bytes = some written) :
    written.length = buffer.length := by
  rw [writeBytes_def] at wrote
  split at wrote
  · next fits =>
    cases wrote
    simp only [List.length_append, List.length_take, List.length_drop]
    omega
  · cases wrote

theorem moveBytes_eq_some {buffer : List UInt8} {target source count : Nat} (read : source + count ≤ buffer.length)
    (write : target + count ≤ buffer.length) :
    moveBytes buffer target source count =
      some (buffer.take target ++ (buffer.drop source).take count ++ buffer.drop (target + count)) := by
  have taken : ((buffer.drop source).take count).length = count := by
    simp only [List.length_take, List.length_drop]
    omega
  rw [moveBytes_def, readBytes_eq_some read, Option.bind_some, writeBytes_eq_some (by omega), taken]

/-- The bytes up to a point past the start of a write: those before it, then the written ones. -/
theorem take_written {buffer bytes : List UInt8} (fits : offset ≤ buffer.length) {n : Nat} (within : offset ≤ n)
    (below : n ≤ offset + bytes.length) :
    (buffer.take offset ++ bytes ++ buffer.drop (offset + bytes.length)).take n =
      buffer.take offset ++ bytes.take (n - offset) := by
  have front : (buffer.take offset).length = offset := by
    simp only [List.length_take]
    omega
  rw [List.append_assoc, List.take_append, List.take_of_length_le (by omega), front,
    List.take_append_of_le_length (by omega)]

theorem getElem?_written {buffer bytes : List UInt8} (fits : offset ≤ buffer.length) {i : Nat} (within : offset ≤ i)
    (below : i < offset + bytes.length) :
    (buffer.take offset ++ bytes ++ buffer.drop (offset + bytes.length))[i]? = bytes[i - offset]? := by
  have front : (buffer.take offset).length = offset := by
    simp only [List.length_take]
    omega
  rw [List.append_assoc, List.getElem?_append_right (by omega), front, List.getElem?_append_left (by omega)]

theorem length_written {buffer bytes : List UInt8} (fits : offset + bytes.length ≤ buffer.length) :
    (buffer.take offset ++ bytes ++ buffer.drop (offset + bytes.length)).length = buffer.length := by
  simp only [List.length_append, List.length_take, List.length_drop]
  omega

theorem readBytes_eq_none {buffer : List UInt8} {count : Nat} (past : buffer.length < offset + count) :
    readBytes buffer offset count = none := by
  rw [readBytes_def, if_neg (Nat.not_le.mpr past)]

theorem writeBytes_eq_none {buffer bytes : List UInt8} (past : buffer.length < offset + bytes.length) :
    writeBytes buffer offset bytes = none := by
  rw [writeBytes_def, if_neg (Nat.not_le.mpr past)]

theorem resizeBytes_append_zero (buffer : List UInt8) (extra : Nat) :
    resizeBytes buffer (buffer.length + extra) = buffer ++ List.replicate extra 0 := by
  simp [resizeBytes_def, List.take_of_length_le]

@[simp] theorem length_resizeBytes (buffer : List UInt8) (size : Nat) : (resizeBytes buffer size).length = size := by
  simp only [resizeBytes_def, List.length_append, List.length_take, List.length_replicate]
  omega

theorem resizeBytes_of_length (start : offset = pre.length) : resizeBytes (pre ++ rest) offset = pre := by
  subst start
  simp [resizeBytes_def]

end Buffers

section Chunks

/-! Records of one width laid end to end. -/

variable {α : Type} {f : α → List UInt8} {width : Nat}

theorem length_flatMap_chunks (uniform : ∀ x, (f x).length = width) (xs : List α) :
    (xs.flatMap f).length = xs.length * width := by
  induction xs with
  | nil => simp
  | cons x xs ih => simp [uniform, ih, Nat.succ_mul, Nat.add_comm]

theorem take_flatMap_chunks (uniform : ∀ x, (f x).length = width) :
    ∀ (xs : List α) (k : Nat), (xs.flatMap f).take (k * width) = (xs.take k).flatMap f
  | [], _ => by simp
  | _ :: _, 0 => by simp
  | x :: xs, k + 1 => by
    have split : (k + 1) * width = (f x).length + k * width := by rw [uniform, Nat.succ_mul, Nat.add_comm]
    rw [List.flatMap_cons, split, List.take_length_add_append, take_flatMap_chunks uniform xs k]
    simp

theorem drop_flatMap_chunks (uniform : ∀ x, (f x).length = width) :
    ∀ (xs : List α) (k : Nat), (xs.flatMap f).drop (k * width) = (xs.drop k).flatMap f
  | [], _ => by simp
  | _ :: _, 0 => by simp
  | x :: xs, k + 1 => by
    have split : (k + 1) * width = (f x).length + k * width := by rw [uniform, Nat.succ_mul, Nat.add_comm]
    rw [List.flatMap_cons, split, List.drop_length_add_append, drop_flatMap_chunks uniform xs k]
    simp

theorem flatMap_split (xs : List α) {i : Nat} (inside : i < xs.length) :
    xs.flatMap f = (xs.take i).flatMap f ++ (f xs[i] ++ (xs.drop (i + 1)).flatMap f) := by
  rw [← List.flatMap_cons, ← List.flatMap_append, ← List.drop_eq_getElem_cons inside, List.take_append_drop]

end Chunks

section Words

theorem toInt_toInt64 (u : UInt64) : u.toInt64.toInt = if u.toNat < 2 ^ 63 then (u.toNat : Int) else u.toNat - 2 ^ 64 := by
  have cond := BitVec.toInt_eq_toNat_cond u.toBitVec
  change u.toInt64.toInt = if 2 * u.toNat < 2 ^ 64 then (u.toNat : Int) else u.toNat - 2 ^ 64 at cond
  rw [cond]
  by_cases low : u.toNat < 2 ^ 63
  · rw [if_pos (by omega), if_pos low]
  · rw [if_neg (by omega), if_neg low]

theorem toNat_toUInt64 (x : Int64) : (x.toUInt64.toNat : Int) = x.toInt % 2 ^ 64 := by
  have cond := BitVec.toInt_eq_toNat_cond x.toBitVec
  have below := x.toBitVec.isLt
  change x.toInt = if 2 * x.toUInt64.toNat < 2 ^ 64 then (x.toUInt64.toNat : Int) else x.toUInt64.toNat - 2 ^ 64
    at cond
  change x.toUInt64.toNat < 2 ^ 64 at below
  split at cond <;> omega

end Words

section Trimming

variable {α : Type} {p : α → Bool}

theorem dropWhile_eq_drop (l : List α) : l.dropWhile p = l.drop (l.takeWhile p).length :=
  calc l.dropWhile p = (l.takeWhile p ++ l.dropWhile p).drop (l.takeWhile p).length := List.drop_left.symm
    _ = l.drop (l.takeWhile p).length := by rw [List.takeWhile_append_dropWhile]

theorem rdropWhile_eq_take (l : List α) : l.rdropWhile p = l.take (l.length - (l.rtakeWhile p).length) := by
  have whole := List.rdropWhile_append_rtakeWhile (p := p) (l := l)
  have kept : l.length - (l.rtakeWhile p).length = (l.rdropWhile p).length := by
    have lengths := congrArg List.length whole
    rw [List.length_append] at lengths
    omega
  calc l.rdropWhile p = (l.rdropWhile p ++ l.rtakeWhile p).take (l.rdropWhile p).length := (List.take_left' rfl).symm
    _ = l.take (l.length - (l.rtakeWhile p).length) := by rw [whole, kept]

theorem rdropWhile_cons_of_not {x : α} (l : List α) (fails : p x = false) :
    (x :: l).rdropWhile p = x :: l.rdropWhile p := by
  have kept : [x].dropWhile p = [x] := List.dropWhile_cons_of_neg (by simp [fails])
  simp only [List.rdropWhile, List.reverse_cons, List.dropWhile_append, kept]
  split
  · next empty => simp [List.isEmpty_iff.mp empty]
  · simp

/-- Cutting from both ends the elements `p` holds of keeps the elements from the first one `p` fails of, up to the
last one it fails of after that. -/
theorem rdropWhile_dropWhile (l : List α) :
    (l.dropWhile p).rdropWhile p = (l.drop (l.takeWhile p).length).take
      (l.length - (l.takeWhile p).length - ((l.drop ((l.takeWhile p).length + 1)).rtakeWhile p).length) := by
  have front := dropWhile_eq_drop (p := p) l
  cases rest : l.dropWhile p with
  | nil =>
    rw [front] at rest
    simp [rest]
  | cons x r =>
    -- the first element kept is one `p` fails of, and all after it are `r`
    have fails : p x = false := by simpa [rest] using List.head_dropWhile_not p (l := l) (by simp [rest])
    rw [front] at rest
    have after : l.drop ((l.takeWhile p).length + 1) = r := by
      rw [← List.drop_drop, rest, List.drop_one, List.tail_cons]
    have lengths : l.length - (l.takeWhile p).length = r.length + 1 := by
      have := congrArg List.length rest
      simp only [List.length_drop, List.length_cons] at this
      exact this
    have back : (r.rtakeWhile p).length ≤ r.length := (List.rtakeWhile_suffix p r).length_le
    rw [rest, after, rdropWhile_cons_of_not r fails, rdropWhile_eq_take r, lengths,
      show r.length + 1 - (r.rtakeWhile p).length = r.length - (r.rtakeWhile p).length + 1 by omega,
      List.take_succ_cons]

end Trimming

end Foundations
