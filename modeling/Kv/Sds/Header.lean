import Mathlib.Data.ENat.Basic
import Kv.Foundations.Bytes

/-!
The header of an sds string (sds.h, sds.c). The flags byte before the string
holds the header type; SDS_TYPE_5 keeps the length in the flags byte's five
high bits and records no allocation, the other types have len and alloc fields
of 8, 16, 32 or 64 bits. A string is the header and the bytes of its allocation
from `s[0]` on; sizes are Nats, so no size_t arithmetic overflows, and
SDS_TYPE_64's bound, SIZE_MAX, is above every size. The allocator may give any
usable size at least the one asked for, its bytes holding anything;
allocations do not fail. The aux bits of the flags byte are not modelled.
-/

namespace Kv.Sds

open Foundations

inductive SdsType where
  | type5
  | type8
  | type16
  | type32
  | type64
  deriving DecidableEq, Repr

def SdsType.tag : SdsType → Nat
  | type5 => 0
  | type8 => 1
  | type16 => 2
  | type32 => 3
  | type64 => 4

def sdsHdrSize : SdsType → Nat
  | .type5 => 1
  | .type8 => 3
  | .type16 => 5
  | .type32 => 9
  | .type64 => 17

/-- sdsReqType: the smallest type whose header can record a string of `stringSize` bytes. -/
def sdsReqType (stringSize : Nat) : SdsType :=
  if stringSize < 1 <<< 5 then .type5
  else if stringSize ≤ (1 <<< 8) - sdsHdrSize .type8 - 1 then .type8
  else if stringSize ≤ (1 <<< 16) - sdsHdrSize .type16 - 1 then .type16
  else if stringSize ≤ (1 <<< 32) - sdsHdrSize .type32 - 1 then .type32
  else .type64

def sdsTypeMaxSize : SdsType → ℕ∞
  | .type5 => ((1 <<< 5) - 1 : Nat)
  | .type8 => ((1 <<< 8) - 1 : Nat)
  | .type16 => ((1 <<< 16) - 1 : Nat)
  | .type32 => ((1 <<< 32) - 1 : Nat)
  | .type64 => ⊤

def storeField : SdsType → Nat → Nat
  | .type5, n => n % 2 ^ 5
  | .type8, n => n % 2 ^ 8
  | .type16, n => n % 2 ^ 16
  | .type32, n => n % 2 ^ 32
  | .type64, n => n

structure SdsString where
  type : SdsType
  len : Nat
  alloc : Nat
  buf : List UInt8
  deriving DecidableEq, Repr

def SdsString.bufsize (s : SdsString) : Nat := sdsHdrSize s.type + s.buf.length

def sdslen (s : SdsString) : Nat := s.len

def sdsalloc (s : SdsString) : Nat := if s.type = .type5 then s.len else s.alloc

def sdsReqSize (len : Nat) (type : SdsType) : Nat := len + sdsHdrSize type + 1

def sdsAllocSize (s : SdsString) : Nat := if s.type = .type5 then s.bufsize else sdsHdrSize s.type + sdsalloc s + 1

def sdsavail (s : SdsString) : Nat := if s.type = .type5 then 0 else s.alloc - s.len

def sdssetlen (s : SdsString) (newlen : Nat) : SdsString := { s with len := storeField s.type newlen }

def sdssetalloc (s : SdsString) (newlen : Nat) : SdsString :=
  if s.type = .type5 then s else { s with alloc := storeField s.type newlen }

@[simp] theorem sdssetlen_buf (s : SdsString) (n : Nat) : (sdssetlen s n).buf = s.buf := rfl

@[simp] theorem sdssetlen_type (s : SdsString) (n : Nat) : (sdssetlen s n).type = s.type := rfl

@[simp] theorem sdssetlen_alloc (s : SdsString) (n : Nat) : (sdssetlen s n).alloc = s.alloc := rfl

@[simp] theorem sdssetlen_len (s : SdsString) (n : Nat) : (sdssetlen s n).len = storeField s.type n := rfl

@[simp] theorem sdssetalloc_buf (s : SdsString) (n : Nat) : (sdssetalloc s n).buf = s.buf := by
  unfold sdssetalloc
  split <;> rfl

@[simp] theorem sdssetalloc_type (s : SdsString) (n : Nat) : (sdssetalloc s n).type = s.type := by
  unfold sdssetalloc
  split <;> rfl

@[simp] theorem sdssetalloc_len (s : SdsString) (n : Nat) : (sdssetalloc s n).len = s.len := by
  unfold sdssetalloc
  split <;> rfl

theorem sdssetalloc_alloc {s : SdsString} (notFive : s.type ≠ .type5) (n : Nat) :
    (sdssetalloc s n).alloc = storeField s.type n := by
  simp [sdssetalloc, notFive]

structure Allocator where
  malloc : Nat → List UInt8
  enough : ∀ n, n ≤ (malloc n).length

def Allocator.exact : Allocator := ⟨fun n => List.replicate n 0, fun n => by simp⟩

def Allocator.reallocPast (a : Allocator) (hdrlen : Nat) (buf : List UInt8) (n : Nat) : List UInt8 :=
  buf.take ((a.malloc n).length - hdrlen) ++ (a.malloc n).drop (hdrlen + buf.length)

/-- adjustTypeIfNeeded: the type to use instead when the allocation's usable part, past a header of the type,
is more than the type records (never for SDS_TYPE_5). -/
def adjustTypeIfNeeded (type : SdsType) (bufsize : Nat) : Option SdsType :=
  let usable := bufsize - sdsHdrSize type - 1
  if type ≠ .type5 ∧ sdsTypeMaxSize type < usable then some (sdsReqType usable) else none

def sdswrite (mem : List UInt8) (type : SdsType) (init : List UInt8) : Option SdsString :=
  if mem.length < init.length + sdsHdrSize type + 1 then none
  else
    let usable := mem.length - sdsHdrSize type - 1
    if type ≠ .type5 ∧ ¬(usable : ℕ∞) ≤ sdsTypeMaxSize type then none
    else do
      let buf ← writeBytes (mem.drop (sdsHdrSize type)) 0 (init ++ [0])
      some { type, len := storeField type init.length,
             alloc := if type = .type5 then 0 else storeField type usable, buf }

/-- _sdsnewlen: a new string holding `init`. -/
def _sdsnewlen (a : Allocator) (init : List UInt8) : Option SdsString :=
  let type := sdsReqType init.length
  -- empty strings are usually created in order to append: type 8, since type 5 is not good at this
  let type := if type = .type5 ∧ init.length = 0 then .type8 else type
  let mem := a.malloc (sdsHdrSize type + init.length + 1)
  let type := (adjustTypeIfNeeded type mem.length).getD type
  sdswrite mem type init

/-- sdsnewlen. -/
def sdsnewlen (a : Allocator) (init : List UInt8) : Option SdsString := _sdsnewlen a init

def sdsContent (s : SdsString) : List UInt8 := s.buf.take s.len

def sdsdup (a : Allocator) (s : SdsString) : Option SdsString := sdsnewlen a (sdsContent s)

structure SdsString.Valid (s : SdsString) : Prop where
  terminated : s.buf[s.len]? = some 0
  short : s.type = .type5 → s.len < 32
  alloc_eq : s.type ≠ .type5 → s.alloc = s.bufsize - sdsHdrSize s.type - 1
  len_le : s.type ≠ .type5 → s.len ≤ s.alloc
  within : s.type ≠ .type5 → (s.alloc : ℕ∞) ≤ sdsTypeMaxSize s.type

theorem SdsString.Valid.length_content {s : SdsString} (valid : s.Valid) : (sdsContent s).length = sdslen s := by
  have inside : s.len < s.buf.length := (List.getElem?_eq_some_iff.mp valid.terminated).1
  simp only [sdsContent, sdslen, List.length_take]
  omega

section Types

theorem sdsReqType_cases (n : Nat) :
    sdsReqType n = .type5 ∧ n < 32 ∨ sdsReqType n = .type8 ∧ 32 ≤ n ∧ n ≤ 252 ∨
      sdsReqType n = .type16 ∧ 252 < n ∧ n ≤ 65530 ∨ sdsReqType n = .type32 ∧ 65530 < n ∧ n ≤ 4294967286 ∨
      sdsReqType n = .type64 ∧ 4294967286 < n := by
  unfold sdsReqType
  simp only [Nat.one_shiftLeft, sdsHdrSize]
  split_ifs with five eight sixteen thirtyTwo
  · exact .inl ⟨rfl, five⟩
  · exact .inr (.inl ⟨rfl, by omega, eight⟩)
  · exact .inr (.inr (.inl ⟨rfl, by omega, sixteen⟩))
  · exact .inr (.inr (.inr (.inl ⟨rfl, by omega, thirtyTwo⟩)))
  · exact .inr (.inr (.inr (.inr ⟨rfl, by omega⟩)))

theorem sdsReqType_tag_le {n : Nat} {t : SdsType} (req : (sdsReqType n).tag ≤ t.tag) :
    (t = .type5 → n < 32) ∧ (t = .type8 → n ≤ 252) ∧ (t = .type16 → n ≤ 65530) ∧
      (t = .type32 → n ≤ 4294967286) := by
  rcases sdsReqType_cases n with ⟨kind, bound⟩ | ⟨kind, bound⟩ | ⟨kind, bound⟩ | ⟨kind, bound⟩ | ⟨kind, bound⟩ <;>
    rw [kind] at req <;> cases t <;> simp only [SdsType.tag] at req <;> simp <;> omega

theorem sdsReqType_eq_type5 (n : Nat) : sdsReqType n = .type5 ↔ n < 32 := by
  rcases sdsReqType_cases n with ⟨kind, bound⟩ | ⟨kind, bound⟩ | ⟨kind, bound⟩ | ⟨kind, bound⟩ | ⟨kind, bound⟩ <;>
    rw [kind] <;> simp <;> omega

theorem sdsReqType_recorded (n : Nat) : (n : ℕ∞) ≤ sdsTypeMaxSize (sdsReqType n) := by
  rcases sdsReqType_cases n with ⟨kind, bound⟩ | ⟨kind, bound⟩ | ⟨kind, bound⟩ | ⟨kind, bound⟩ | ⟨kind, -⟩ <;>
    rw [kind] <;> simp [sdsTypeMaxSize, Nat.one_shiftLeft] <;> omega

theorem coe_le_sdsTypeMaxSize (t : SdsType) (n : Nat) :
    (n : ℕ∞) ≤ sdsTypeMaxSize t ↔
      (t = .type5 → n ≤ 31) ∧ (t = .type8 → n ≤ 255) ∧ (t = .type16 → n ≤ 65535) ∧
        (t = .type32 → n ≤ 4294967295) := by
  cases t <;> simp [sdsTypeMaxSize, Nat.one_shiftLeft]

theorem storeField_of_le {t : SdsType} {n : Nat} (within : (n : ℕ∞) ≤ sdsTypeMaxSize t) : storeField t n = n := by
  obtain ⟨five, eight, sixteen, thirtyTwo⟩ := (coe_le_sdsTypeMaxSize t n).mp within
  cases t
  · exact Nat.mod_eq_of_lt (by simp at five; omega)
  · exact Nat.mod_eq_of_lt (by simp at eight; omega)
  · exact Nat.mod_eq_of_lt (by simp at sixteen; omega)
  · exact Nat.mod_eq_of_lt (by simp at thirtyTwo; omega)
  · rfl

theorem adjustTypeIfNeeded_type5 (bufsize : Nat) : adjustTypeIfNeeded .type5 bufsize = none := by
  simp [adjustTypeIfNeeded]

theorem adjustTypeIfNeeded_spec {t t' : SdsType} (notFive : t ≠ .type5) {n : Nat} (bufsize : Nat)
    (req : (sdsReqType n).tag ≤ t.tag) (room : sdsHdrSize t + n + 1 ≤ bufsize)
    (adjusted : (adjustTypeIfNeeded t bufsize).getD t = t') :
    t' ≠ .type5 ∧ sdsHdrSize t ≤ sdsHdrSize t' ∧ sdsHdrSize t' + n + 1 ≤ bufsize ∧
      ((bufsize - sdsHdrSize t' - 1 : Nat) : ℕ∞) ≤ sdsTypeMaxSize t' := by
  obtain ⟨-, short8, short16, short32⟩ := sdsReqType_tag_le req
  unfold adjustTypeIfNeeded at adjusted
  dsimp only at adjusted
  split at adjusted
  · next exceeds =>
    -- the usable part is more than `t` records: the type sdsReqType gives it
    simp only [Option.getD_some] at adjusted
    subst adjusted
    have beyond := (coe_le_sdsTypeMaxSize t _).not.mp (not_le.mpr exceeds.2)
    rw [coe_le_sdsTypeMaxSize]
    rcases sdsReqType_cases (bufsize - sdsHdrSize t - 1) with ⟨kind, bound⟩ | ⟨kind, bound⟩ | ⟨kind, bound⟩ |
      ⟨kind, bound⟩ | ⟨kind, bound⟩ <;> rw [kind] <;> cases t <;> simp_all [sdsHdrSize] <;> omega
  · next fits =>
    simp only [Option.getD_none] at adjusted
    subst adjusted
    have recorded : ¬sdsTypeMaxSize t < ((bufsize - sdsHdrSize t - 1 : Nat) : ℕ∞) := fun larger => fits ⟨notFive, larger⟩
    exact ⟨notFive, le_refl _, room, not_lt.mp recorded⟩

/-- The type the string ends with after adjustTypeIfNeeded, whichever it is: SDS_TYPE_5 exactly when it was asked
for, and the usable part recorded by its header. -/
theorem adjustTypeIfNeeded_getD {t : SdsType} {n : Nat} (bufsize : Nat) (req : (sdsReqType n).tag ≤ t.tag)
    (room : sdsHdrSize t + n + 1 ≤ bufsize) :
    ((adjustTypeIfNeeded t bufsize).getD t = .type5 ↔ t = .type5) ∧
      sdsHdrSize ((adjustTypeIfNeeded t bufsize).getD t) + n + 1 ≤ bufsize ∧
      ((adjustTypeIfNeeded t bufsize).getD t ≠ .type5 →
        ((bufsize - sdsHdrSize ((adjustTypeIfNeeded t bufsize).getD t) - 1 : Nat) : ℕ∞) ≤
          sdsTypeMaxSize ((adjustTypeIfNeeded t bufsize).getD t)) := by
  by_cases five : t = .type5
  · subst five
    rw [adjustTypeIfNeeded_type5, Option.getD_none]
    exact ⟨Iff.rfl, room, fun notFive => absurd rfl notFive⟩
  · obtain ⟨notFive, -, fits, within⟩ := adjustTypeIfNeeded_spec five bufsize req room rfl
    exact ⟨⟨fun isFive => absurd isFive notFive, fun isFive => absurd isFive five⟩, fits, fun _ => within⟩

end Types

section Create

theorem sdswrite_spec (mem : List UInt8) (t : SdsType) (init : List UInt8)
    (room : init.length + sdsHdrSize t + 1 ≤ mem.length) (short : t = .type5 → init.length < 32)
    (within : t ≠ .type5 → ((mem.length - sdsHdrSize t - 1 : Nat) : ℕ∞) ≤ sdsTypeMaxSize t) :
    ∃ s, sdswrite mem t init = some s ∧ s.Valid ∧ sdsContent s = init ∧ s.type = t := by
  have written : writeBytes (mem.drop (sdsHdrSize t)) 0 (init ++ [0]) =
      some (init ++ 0 :: (mem.drop (sdsHdrSize t)).drop (init.length + 1)) := by
    simp [writeBytes]
    omega
  -- the length and the usable size are what the fields keep
  have lenKept : storeField t init.length = init.length := by
    by_cases five : t = .type5
    · subst five
      exact Nat.mod_eq_of_lt (short rfl)
    · exact storeField_of_le (le_trans (Nat.cast_le.mpr (by omega)) (within five))
  unfold sdswrite
  rw [if_neg (by omega), if_neg (fun failed => failed.2 (within failed.1)), written]
  refine ⟨_, rfl, ⟨?_, ?_, ?_, ?_, ?_⟩, ?_, rfl⟩
  · simp [lenKept]
  · exact fun five => by rw [lenKept]; exact short five
  · intro five
    simp only [if_neg five, storeField_of_le (within five), SdsString.bufsize, List.length_append,
      List.length_cons, List.length_drop]
    omega
  · intro five
    simp only [if_neg five, storeField_of_le (within five), lenKept]
    omega
  · intro five
    simp only [if_neg five, storeField_of_le (within five)]
    exact within five
  · simp [sdsContent, lenKept]

theorem length_buf_of_sdswrite {mem init : List UInt8} {t : SdsType} {s : SdsString}
    (written : sdswrite mem t init = some s) : s.buf.length = mem.length - sdsHdrSize t := by
  unfold sdswrite at written
  dsimp only at written
  split at written
  · cases written
  · split at written
    · cases written
    · obtain ⟨buf, wrote, built⟩ := Option.bind_eq_some_iff.mp written
      cases built
      rw [length_of_writeBytes wrote, List.length_drop]

theorem sdswrite_eq_none_of_unrecorded {mem init : List UInt8} {t : SdsType} (notFive : t ≠ .type5)
    (sized : mem.length = sdsReqSize init.length t) (unrecorded : ¬(init.length : ℕ∞) ≤ sdsTypeMaxSize t) :
    sdswrite mem t init = none := by
  have usable : mem.length - sdsHdrSize t - 1 = init.length := by
    rw [sized, sdsReqSize]
    omega
  unfold sdswrite
  rw [if_neg (by rw [sized, sdsReqSize]; omega), usable, if_pos ⟨notFive, unrecorded⟩]

/-- _sdsnewlen gives a valid string holding `init`, whatever block the allocator gives. -/
theorem _sdsnewlen_spec (a : Allocator) (init : List UInt8) :
    ∃ s, _sdsnewlen a init = some s ∧ s.Valid ∧ sdsContent s = init := by
  unfold _sdsnewlen
  dsimp only
  generalize chosen : (if sdsReqType init.length = .type5 ∧ init.length = 0 then SdsType.type8
    else sdsReqType init.length) = t
  have req : (sdsReqType init.length).tag ≤ t.tag := by
    subst chosen
    split
    · next empty => rw [empty.1]; simp [SdsType.tag]
    · exact le_refl _
  have room := a.enough (sdsHdrSize t + init.length + 1)
  obtain ⟨five, fits, within⟩ := adjustTypeIfNeeded_getD _ req room
  -- a string left under the flags byte alone is short enough for it
  have short : (adjustTypeIfNeeded t (a.malloc (sdsHdrSize t + init.length + 1)).length).getD t = .type5 →
      init.length < 32 :=
    fun isFive => (sdsReqType_tag_le req).1 (five.mp isFive)
  obtain ⟨s, written, valid, content, -⟩ := sdswrite_spec _ _ init (by omega) short within
  exact ⟨s, written, valid, content⟩

/-- sdsnewlen gives a valid string holding `init`, whatever block the allocator gives. -/
theorem sdsnewlen_spec (a : Allocator) (init : List UInt8) :
    ∃ s, sdsnewlen a init = some s ∧ s.Valid ∧ sdsContent s = init :=
  _sdsnewlen_spec a init

end Create

end Kv.Sds
