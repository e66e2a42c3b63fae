import Kv.Sds.Room
import Kv.Sds.Range

/-!
Writing into an sds string (sds.c): sdscatlen and sdscpylen copy bytes in and
sdsgrowzero pads with zero bytes, each after sdsMakeRoomFor where the free space
is short; sdsIncrLen moves the length over bytes a caller wrote past the content,
within the bounds its assertion checks; sdstrim cuts from both ends the bytes
strchr finds in a C string of characters, and strchr finds its terminator too.
-/

namespace Kv.Sds

open Foundations

/-- The assertion of sdsIncrLen: under SDS_TYPE_5 a string grows to below 32 bytes, under the other types within
its free space, and under every type shrinks to at least empty. -/
def sdsIncrLenAsserted (s : SdsString) (incr : Int) : Bool :=
  if s.type = .type5 then decide ((0 < incr ∧ s.len + incr < 32) ∨ (incr < 0 ∧ -incr ≤ s.len))
  else decide ((0 ≤ incr ∧ incr ≤ (s.alloc : Int) - s.len) ∨ (incr < 0 ∧ -incr ≤ s.len))

/-- sdsIncrLen: the length moved by `incr` and the terminator written at the new end. -/
def sdsIncrLen (s : SdsString) (incr : Int) : Option SdsString :=
  if sdsIncrLenAsserted s incr then
    let len := (s.len + incr).toNat
    (writeBytes s.buf len [0]).map fun buf => sdssetlen { s with buf } len
  else none

/-- sdsgrowzero: the string grown to `len` bytes, the new ones zero; a string as long is left as it is. -/
def sdsgrowzero (a : Allocator) (s : SdsString) (len : Nat) : Option SdsString :=
  let curlen := sdslen s
  if len ≤ curlen then some s
  else do
    let s ← sdsMakeRoomFor a s (len - curlen)
    -- the added region and the terminator are zeroed
    let buf ← writeBytes s.buf curlen (List.replicate (len - curlen + 1) 0)
    some (sdssetlen { s with buf } len)

/-- sdscatlen: the bytes `t` appended. -/
def sdscatlen (a : Allocator) (s : SdsString) (t : List UInt8) : Option SdsString := do
  let curlen := sdslen s
  let s ← sdsMakeRoomFor a s t.length
  let buf ← writeBytes s.buf curlen t
  let s := sdssetlen { s with buf } (curlen + t.length)
  let buf ← writeBytes s.buf (curlen + t.length) [0]
  some { s with buf }

/-- sdscpylen: the content replaced by the bytes `t`. -/
def sdscpylen (a : Allocator) (s : SdsString) (t : List UInt8) : Option SdsString := do
  let s ← if sdsalloc s < t.length then sdsMakeRoomFor a s (t.length - sdslen s) else some s
  let buf ← writeBytes s.buf 0 t
  let buf ← writeBytes buf t.length [0]
  some (sdssetlen { s with buf } t.length)

/-- strchr on a C string, as a test: whether `c` is one of the characters before the terminator, or the
terminator itself. -/
def strchr (cset : List UInt8) (c : UInt8) : Bool := decide (c ∈ cset.takeWhile (· != 0) ++ [0])

/-- sdstrim: the bytes strchr finds in `cset` cut from both ends, the rest moved to the front. -/
def sdstrim (s : SdsString) (cset : List UInt8) : Option SdsString :=
  let content := sdsContent s
  -- sp: forward over the bytes found, up to the end
  let sp := (content.takeWhile (strchr cset)).length
  -- ep: back from the end over the bytes found, down to sp; the ep - sp + 1 bytes from sp are kept
  let back := ((content.drop (sp + 1)).rtakeWhile (strchr cset)).length
  let len := sdslen s - sp - back
  do
    let buf ← if sp ≠ 0 then moveBytes s.buf 0 sp len else some s.buf
    let buf ← writeBytes buf len [0]
    some (sdssetlen { s with buf } len)

section Specs

variable (a : Allocator) {s : SdsString}

/-- The allocation of a valid string: its content, the terminator, then the bytes past them. -/
theorem SdsString.Valid.buf_eq (valid : s.Valid) : s.buf = sdsContent s ++ 0 :: s.buf.drop (s.len + 1) := by
  obtain ⟨inside, ended⟩ := List.getElem?_eq_some_iff.mp valid.terminated
  calc s.buf = s.buf.take s.len ++ s.buf.drop s.len := (List.take_append_drop _ _).symm
    _ = sdsContent s ++ 0 :: s.buf.drop (s.len + 1) := by rw [List.drop_eq_getElem_cons inside, ended]; rfl

theorem SdsString.Valid.sdsalloc_eq (valid : s.Valid) : sdsalloc s = s.len + sdsavail s := by
  by_cases five : s.type = .type5
  · simp [sdsalloc, sdsavail, five]
  · have := valid.len_le five
    simp only [sdsalloc, sdsavail, five, if_false]
    omega

theorem sdsIncrLen_spec (valid : s.Valid) {incr : Int} (asserted : sdsIncrLenAsserted s incr = true)
    (inside : s.len + incr < s.buf.length) :
    ∃ s', sdsIncrLen s incr = some s' ∧ s'.Valid ∧
      ∃ spare, sdsContent s' = (sdsContent s ++ 0 :: spare).take (s.len + incr).toNat := by
  -- the new length is one the header can take: the assertion checks it
  have fits : s.Fits (s.len + incr).toNat := by
    unfold sdsIncrLenAsserted at asserted
    refine ⟨fun five => ?_, fun five => ?_⟩
    · rw [if_pos five] at asserted
      simp only [decide_eq_true_eq] at asserted
      have := valid.short five
      omega
    · rw [if_neg five] at asserted
      simp only [decide_eq_true_eq] at asserted
      have := valid.len_le five
      omega
  have end_ : (s.len + incr).toNat + [(0 : UInt8)].length ≤ s.buf.length := by
    have := (List.getElem?_eq_some_iff.mp valid.terminated).1
    simp only [List.length_singleton]
    omega
  unfold sdsIncrLen
  rw [if_pos asserted]
  dsimp only
  rw [writeBytes_eq_some end_, Option.map_some]
  refine ⟨_, rfl, valid.sdssetlen_of_fits (length_written end_) fits ?_, s.buf.drop (s.len + 1), ?_⟩
  · rw [getElem?_written (by omega) le_rfl (by simp)]
    simp
  · rw [sdsContent, sdssetlen_buf, sdssetlen_len, valid.storeField_of_fits fits,
      take_written (by omega) le_rfl (by simp), ← valid.buf_eq]
    simp

theorem sdsgrowzero_spec (valid : s.Valid) (len : Nat) :
    ∃ s', sdsgrowzero a s len = some s' ∧ s'.Valid ∧
      sdsContent s' = sdsContent s ++ List.replicate (len - sdslen s) 0 := by
  unfold sdsgrowzero
  dsimp only
  by_cases short : len ≤ sdslen s
  · rw [if_pos short]
    exact ⟨s, rfl, valid, by simp [Nat.sub_eq_zero_of_le short]⟩
  rw [if_neg short]
  obtain ⟨s1, made, valid1, content1, len1, room1⟩ := _sdsMakeRoomFor_spec a valid (len - sdslen s) true
  have below := valid1.len_add_avail_lt
  have lenEq : sdslen s = s.len := rfl
  have front : s1.buf.take (sdslen s) = sdsContent s := by
    rw [← content1, sdsContent, len1]
    rfl
  have zeros : sdslen s + (List.replicate (len - sdslen s + 1) (0 : UInt8)).length ≤ s1.buf.length := by
    simp only [List.length_replicate]
    omega
  simp only [sdsMakeRoomFor, made, Option.bind_eq_bind, Option.bind_some, writeBytes_eq_some zeros]
  refine ⟨_, rfl, valid1.sdssetlen (length_written zeros) (by omega) ?_, ?_⟩
  · rw [getElem?_written (by omega) (by omega) (by simp; omega)]
    simp
  · rw [sdsContent, sdssetlen_buf, sdssetlen_len, valid1.storeField_of_le (by omega),
      take_written (by omega) (by omega) (by simp; omega), front]
    simp

theorem sdscatlen_spec (valid : s.Valid) (t : List UInt8) :
    ∃ s', sdscatlen a s t = some s' ∧ s'.Valid ∧ sdsContent s' = sdsContent s ++ t := by
  obtain ⟨s1, made, valid1, content1, len1, room1⟩ := _sdsMakeRoomFor_spec a valid t.length true
  have below := valid1.len_add_avail_lt
  have lenEq : sdslen s = s.len := rfl
  have front : s1.buf.take (sdslen s) = sdsContent s := by
    rw [← content1, sdsContent, len1]
    rfl
  have copied : sdslen s + t.length ≤ s1.buf.length := by omega
  have ended : sdslen s + t.length + [(0 : UInt8)].length ≤
      (s1.buf.take (sdslen s) ++ t ++ s1.buf.drop (sdslen s + t.length)).length := by
    rw [length_written copied, List.length_singleton]
    omega
  unfold sdscatlen
  simp only [sdsMakeRoomFor, made, Option.bind_eq_bind, Option.bind_some, writeBytes_eq_some copied,
    sdssetlen_buf, writeBytes_eq_some ended]
  -- the terminator is written after the length is set: the same string as setting it over both writes
  refine ⟨sdssetlen { s1 with buf := _ } (sdslen s + t.length), rfl,
    valid1.sdssetlen (by rw [length_written ended, length_written copied]) (by omega) ?_, ?_⟩
  · rw [getElem?_written (by omega) le_rfl (by simp)]
    simp
  · rw [sdsContent, sdssetlen_buf, sdssetlen_len, valid1.storeField_of_le (by omega),
      take_written (by rw [length_written copied]; omega) le_rfl (by simp), Nat.sub_self, List.take_zero,
      List.append_nil, take_written (by omega) (by omega) le_rfl, front]
    simp

theorem sdscpylen_spec (valid : s.Valid) (t : List UInt8) :
    ∃ s', sdscpylen a s t = some s' ∧ s'.Valid ∧ sdsContent s' = t := by
  -- the copy and its terminator, over any valid string with room for them
  have finish : ∀ s1 : SdsString, s1.Valid → t.length ≤ s1.len + sdsavail s1 →
      ∃ s', ((writeBytes s1.buf 0 t).bind fun buf => (writeBytes buf t.length [0]).bind fun buf =>
        some (sdssetlen { s1 with buf } t.length)) = some s' ∧ s'.Valid ∧ sdsContent s' = t := by
    intro s1 valid1 room1
    have below := valid1.len_add_avail_lt
    have copied : 0 + t.length ≤ s1.buf.length := by omega
    have ended : t.length + [(0 : UInt8)].length ≤ (s1.buf.take 0 ++ t ++ s1.buf.drop (0 + t.length)).length := by
      rw [length_written copied, List.length_singleton]
      omega
    rw [writeBytes_eq_some copied, Option.bind_some, writeBytes_eq_some ended, Option.bind_some]
    refine ⟨_, rfl, valid1.sdssetlen (by rw [length_written ended, length_written copied]) room1 ?_, ?_⟩
    · rw [getElem?_written (by rw [length_written copied]; omega) le_rfl (by simp)]
      simp
    · rw [sdsContent, sdssetlen_buf, sdssetlen_len, valid1.storeField_of_le room1,
        take_written (by rw [length_written copied]; omega) le_rfl (by simp)]
      simp
  have alloc := valid.sdsalloc_eq
  unfold sdscpylen
  by_cases short : sdsalloc s < t.length
  · -- room made first where the allocation is shorter than the copy
    obtain ⟨s1, grown, valid1, -, -, room1⟩ := _sdsMakeRoomFor_spec a valid (t.length - sdslen s) true
    simp only [if_pos short, sdsMakeRoomFor, grown, Option.bind_eq_bind, Option.bind_some]
    exact finish s1 valid1 (by simp only [sdslen] at room1; omega)
  · simp only [if_neg short, Option.bind_eq_bind]
    exact finish s valid (by omega)

theorem sdstrim_spec (valid : s.Valid) (cset : List UInt8) :
    ∃ s', sdstrim s cset = some s' ∧ s'.Valid ∧
      sdsContent s' = ((sdsContent s).dropWhile (strchr cset)).rdropWhile (strchr cset) := by
  have inside : s.len < s.buf.length := (List.getElem?_eq_some_iff.mp valid.terminated).1
  have length := valid.length_content
  rw [rdropWhile_dropWhile, length]
  unfold sdstrim
  dsimp only
  have front : ((sdsContent s).takeWhile (strchr cset)).length ≤ sdslen s := by
    rw [← length]
    exact (List.takeWhile_prefix _).length_le
  generalize ((sdsContent s).takeWhile (strchr cset)).length = sp at *
  generalize (((sdsContent s).drop (sp + 1)).rtakeWhile (strchr cset)).length = back
  have lenEq : sdslen s = s.len := rfl
  -- the bytes kept are the ones from sp, whatever moved them to the front, before the terminator goes after them
  have finish : ∀ moved : List UInt8, moved.length = s.buf.length →
      moved.take (sdslen s - sp - back) = (s.buf.drop sp).take (sdslen s - sp - back) →
      ∃ s', ((writeBytes moved (sdslen s - sp - back) [0]).bind fun buf =>
        some (sdssetlen { s with buf } (sdslen s - sp - back))) = some s' ∧ s'.Valid ∧
        sdsContent s' = ((sdsContent s).drop sp).take (sdslen s - sp - back) := by
    intro moved sameSize kept
    have ended : sdslen s - sp - back + [(0 : UInt8)].length ≤ moved.length := by
      simp only [List.length_singleton]
      omega
    rw [writeBytes_eq_some ended, Option.bind_some]
    refine ⟨_, rfl, valid.sdssetlen (by rw [length_written ended, sameSize]) (by omega) ?_, ?_⟩
    · rw [getElem?_written (by omega) le_rfl (by simp)]
      simp
    · rw [sdsContent, sdssetlen_buf, sdssetlen_len, valid.storeField_of_le (by omega),
        take_written (by omega) le_rfl (by simp), Nat.sub_self, List.take_zero, List.append_nil, kept, sdsContent,
        List.drop_take, List.take_take, Nat.min_eq_left (by omega)]
  by_cases still : sp = 0
  · -- nothing cut from the front: the bytes stay where they are
    subst still
    simp only [ne_eq, not_true_eq_false, if_false, Option.bind_eq_bind, Option.bind_some]
    exact finish s.buf rfl (by rw [List.drop_zero])
  · have cut : ((s.buf.drop sp).take (sdslen s - sp - back)).length = sdslen s - sp - back := by
      simp only [List.length_take, List.length_drop]
      omega
    simp only [still, ne_eq, not_false_eq_true, if_true, Option.bind_eq_bind,
      moveBytes_eq_some (show sp + (sdslen s - sp - back) ≤ s.buf.length by omega)
        (show 0 + (sdslen s - sp - back) ≤ s.buf.length by omega), Option.bind_some]
    refine finish _ ?_ ?_
    · simp only [List.length_append, List.length_take, List.length_drop, cut]
      omega
    · rw [List.take_zero, List.nil_append, List.take_left' cut]

end Specs

end Kv.Sds
