import Kv.Sds.Header

/-!
Growing and shrinking the allocation of an sds string (sds.c): _sdsMakeRoomFor,
greedy or not, and sdsResize with sdsRemoveFreeSpace. Both realloc the
allocation when the header type stays, and move the string to a new allocation
when it changes; after a realloc, adjustTypeIfNeeded may still find the usable
size too large for the header and move the string past a larger one.
-/

namespace Kv.Sds

open Foundations

def sdsMaxPrealloc : Nat := 1024 * 1024

def shiftString (buf : List UInt8) (shift count : Nat) : Option (List UInt8) :=
  (moveBytes buf shift 0 count).map (List.drop shift)

def sdsReallocKeep (a : Allocator) (s : SdsString) (newlen len : Nat) : Option SdsString :=
  let buf := a.reallocPast (sdsHdrSize s.type) s.buf newlen
  match adjustTypeIfNeeded s.type (sdsHdrSize s.type + buf.length) with
  | some type => do
    let buf ← shiftString buf (sdsHdrSize type - sdsHdrSize s.type) (len + 1)
    some (sdssetlen { s with type, buf } len)
  | none => some { s with buf }

def sdsMallocMove (a : Allocator) (s : SdsString) (type : SdsType) (newlen len : Nat) : Option SdsString := do
  let mem := a.malloc newlen
  let type := (adjustTypeIfNeeded type mem.length).getD type
  let content ← readBytes s.buf 0 (len + 1)
  let buf ← writeBytes (mem.drop (sdsHdrSize type)) 0 content
  some { s with type, buf }

/-- _sdsMakeRoomFor: room for `addlen` more bytes past the content, and, when greedy, more than that. -/
def _sdsMakeRoomFor (a : Allocator) (s : SdsString) (addlen : Nat) (greedy : Bool) : Option SdsString :=
  -- return ASAP if there is enough space left
  if addlen ≤ sdsavail s then some s
  else
    let len := sdslen s
    let reqlen := len + addlen
    let newlen :=
      if greedy then (if reqlen < sdsMaxPrealloc then reqlen * 2 else reqlen + sdsMaxPrealloc) else reqlen
    -- type 5 cannot remember empty space: not for a string that is being appended to
    let type := if sdsReqType newlen = .type5 then .type8 else sdsReqType newlen
    let hdrlen := sdsHdrSize type
    do
      let s ← if s.type = type then sdsReallocKeep a s (hdrlen + newlen + 1) len
        else (sdsMallocMove a s type (hdrlen + newlen + 1) len).map (sdssetlen · len)
      let usable := s.buf.length - 1
      if s.type ≠ .type5 ∧ ¬(usable : ℕ∞) ≤ sdsTypeMaxSize s.type then none
      else some (sdssetalloc s usable)

def sdsMakeRoomFor (a : Allocator) (s : SdsString) (addlen : Nat) : Option SdsString :=
  _sdsMakeRoomFor a s addlen true

def sdsMakeRoomForNonGreedy (a : Allocator) (s : SdsString) (addlen : Nat) : Option SdsString :=
  _sdsMakeRoomFor a s addlen false

/-- sdsResize: the allocation made to hold `size` bytes, the content cut to them. Under jemalloc the realloc is
skipped when it would give the same usable size; that is the realloc here of an allocator giving it. -/
def sdsResize (a : Allocator) (s : SdsString) (size : Nat) (wouldRegrow : Bool) : Option SdsString :=
  let oldtype := s.type
  let oldhdrlen := sdsHdrSize oldtype
  -- return ASAP if the size is already good
  if sdsalloc s = size then some s
  else
    -- truncate len if needed
    let len := if size < sdslen s then size else sdslen s
    let type := sdsReqType size
    -- type 5 is not good for strings that are expected to grow back
    let type := if wouldRegrow ∧ type = .type5 then .type8 else type
    let hdrlen := sdsHdrSize type
    -- the same type, or a smaller one above SDS_TYPE_8: realloc under the old header
    let useRealloc := oldtype = type ∨ (type.tag < oldtype.tag ∧ type.tag > SdsType.type8.tag)
    let newlen := if useRealloc then oldhdrlen + size + 1 else hdrlen + size + 1
    do
      let s ← if useRealloc then sdsReallocKeep a s newlen len else sdsMallocMove a s type newlen len
      let newsize := s.buf.length - 1
      if s.type ≠ .type5 ∧ ¬(newsize : ℕ∞) ≤ sdsTypeMaxSize s.type then none
      else do
        let buf ← writeBytes s.buf len [0]
        some (sdssetalloc (sdssetlen { s with buf } len) newsize)

/-- sdsRemoveFreeSpace. -/
def sdsRemoveFreeSpace (a : Allocator) (s : SdsString) (wouldRegrow : Bool) : Option SdsString :=
  sdsResize a s (sdslen s) wouldRegrow

section Moves

theorem length_reallocPast (a : Allocator) {hdrlen n : Nat} (buf : List UInt8) (room : hdrlen ≤ (a.malloc n).length) :
    (a.reallocPast hdrlen buf n).length = (a.malloc n).length - hdrlen := by
  simp only [Allocator.reallocPast, List.length_append, List.length_take, List.length_drop]
  omega

theorem take_reallocPast (a : Allocator) {hdrlen n k : Nat} {buf : List UInt8} (kept : k ≤ buf.length)
    (fits : k ≤ (a.malloc n).length - hdrlen) : (a.reallocPast hdrlen buf n).take k = buf.take k := by
  have prefixLen : (buf.take ((a.malloc n).length - hdrlen)).length = min buf.length ((a.malloc n).length - hdrlen) := by
    simp only [List.length_take]
    omega
  rw [Allocator.reallocPast, List.take_append_of_le_length (by omega), List.take_take, Nat.min_eq_left fits]

theorem shiftString_eq {buf : List UInt8} {shift count : Nat} (fits : shift + count ≤ buf.length) :
    shiftString buf shift count = some (buf.take count ++ buf.drop (shift + count)) := by
  have before : (buf.take shift).length = shift := by
    simp only [List.length_take]
    omega
  rw [shiftString, moveBytes_eq_some (by omega) fits, Option.map_some, List.drop_zero, List.append_assoc,
    List.drop_left' before]

structure Moved (s s' : SdsString) (len n : Nat) : Prop where
  kept : s'.buf.take (len + 1) = s.buf.take (len + 1)
  room : n + 1 ≤ s'.buf.length
  within : s'.type ≠ .type5 → ((s'.buf.length - 1 : Nat) : ℕ∞) ≤ sdsTypeMaxSize s'.type

variable (a : Allocator) {s : SdsString} {len n : Nat}

theorem sdsReallocKeep_spec (valid : s.Valid) (short : len ≤ s.len) (fits : len ≤ n)
    (req : (sdsReqType n).tag ≤ s.type.tag) :
    ∃ s', sdsReallocKeep a s (sdsHdrSize s.type + n + 1) len = some s' ∧ Moved s s' len n ∧
      (s'.type = .type5 ↔ s.type = .type5) ∧ (s'.len = s.len ∨ s'.len = len) ∧ s'.alloc = s.alloc := by
  have enough := a.enough (sdsHdrSize s.type + n + 1)
  have inside : s.len < s.buf.length := (List.getElem?_eq_some_iff.mp valid.terminated).1
  have bufLen := length_reallocPast a s.buf
    (show sdsHdrSize s.type ≤ (a.malloc (sdsHdrSize s.type + n + 1)).length by omega)
  have kept := take_reallocPast a (show len + 1 ≤ s.buf.length by omega)
    (show len + 1 ≤ (a.malloc (sdsHdrSize s.type + n + 1)).length - sdsHdrSize s.type by omega)
  have room : sdsHdrSize s.type + n + 1 ≤
      sdsHdrSize s.type + (a.reallocPast (sdsHdrSize s.type) s.buf (sdsHdrSize s.type + n + 1)).length := by
    omega
  unfold sdsReallocKeep
  dsimp only
  generalize a.reallocPast (sdsHdrSize s.type) s.buf (sdsHdrSize s.type + n + 1) = buf at kept room ⊢
  by_cases typeFive : s.type = .type5
  · -- SDS_TYPE_5 is never adjusted
    rw [typeFive, adjustTypeIfNeeded_type5]
    exact ⟨_, rfl, ⟨kept, by simp only; omega, fun notFive => absurd rfl notFive⟩, Iff.rfl, .inl rfl, rfl⟩
  cases adjusted : adjustTypeIfNeeded s.type (sdsHdrSize s.type + buf.length) with
  | none =>
    obtain ⟨-, -, -, within⟩ := adjustTypeIfNeeded_spec typeFive (sdsHdrSize s.type + buf.length) req
      room (by rw [adjusted])
    refine ⟨_, rfl, ⟨kept, by simp only; omega, fun _ => ?_⟩, Iff.rfl, .inl rfl, rfl⟩
    simp only
    rw [show buf.length - 1 = sdsHdrSize s.type + buf.length - sdsHdrSize s.type - 1 by omega]
    exact within
  | some t =>
    -- a larger header: the content and its terminator move past it
    have adj : (adjustTypeIfNeeded s.type (sdsHdrSize s.type + buf.length)).getD s.type = t := by
      simp [adjusted]
    obtain ⟨notFive, grown, fitsNew, within⟩ := adjustTypeIfNeeded_spec typeFive (sdsHdrSize s.type + buf.length)
      req room adj
    have shiftedLen : (buf.take (len + 1) ++ buf.drop (sdsHdrSize t - sdsHdrSize s.type + (len + 1))).length =
        sdsHdrSize s.type + buf.length - sdsHdrSize t := by
      simp only [List.length_append, List.length_take, List.length_drop]
      omega
    dsimp only
    rw [shiftString_eq (by omega)]
    refine ⟨_, rfl, ⟨?_, ?_, fun _ => ?_⟩, ?_, .inr ?_, rfl⟩
    · rw [sdssetlen, List.take_left' (by simp only [List.length_take]; omega)]
      exact kept
    · simp only [sdssetlen, shiftedLen]
      omega
    · simp only [sdssetlen, shiftedLen]
      exact within
    · simp [sdssetlen, notFive, typeFive]
    · -- the new header records `len`, which fits in its usable size
      exact storeField_of_le (le_trans (Nat.cast_le.mpr (show len ≤ sdsHdrSize s.type + buf.length -
        sdsHdrSize t - 1 by omega)) within)

theorem Moved.take_len {s' : SdsString} (moved : Moved s s' len n) : s'.buf.take len = s.buf.take len := by
  simpa [List.take_take] using congrArg (List.take len) moved.kept

theorem Moved.getElem?_len {s' : SdsString} (moved : Moved s s' len n) : s'.buf[len]? = s.buf[len]? := by
  simpa [List.getElem?_take] using congrArg (·[len]?) moved.kept

theorem Moved.sdssetlen {s' : SdsString} (moved : Moved s s' len n) (m : Nat) : Moved s (sdssetlen s' m) len n :=
  ⟨moved.kept, moved.room, moved.within⟩

theorem sdsMallocMove_spec (valid : s.Valid) {t : SdsType} (short : len ≤ s.len) (fits : len ≤ n)
    (req : (sdsReqType n).tag ≤ t.tag) :
    ∃ s', sdsMallocMove a s t (sdsHdrSize t + n + 1) len = some s' ∧ Moved s s' len n ∧
      (s'.type = .type5 ↔ t = .type5) ∧ s'.len = s.len := by
  have inside : s.len < s.buf.length := (List.getElem?_eq_some_iff.mp valid.terminated).1
  obtain ⟨five, room, within⟩ := adjustTypeIfNeeded_getD _ req (a.enough (sdsHdrSize t + n + 1))
  unfold sdsMallocMove
  dsimp only
  generalize a.malloc (sdsHdrSize t + n + 1) = mem at five room within
  generalize (adjustTypeIfNeeded t mem.length).getD t = t' at five room within
  have content : ((s.buf.drop 0).take (len + 1)).length = len + 1 := by
    simp only [List.drop_zero, List.length_take]
    omega
  simp only [readBytes_eq_some (show 0 + (len + 1) ≤ s.buf.length by omega), Option.bind_eq_bind, Option.bind_some,
    writeBytes_eq_some (show 0 + ((s.buf.drop 0).take (len + 1)).length ≤ (mem.drop (sdsHdrSize t')).length by
      simp only [content, List.length_drop]; omega)]
  -- the new allocation past its header: the content and terminator copied, then the allocator's bytes
  have bufLen : ((mem.drop (sdsHdrSize t')).take 0 ++ (s.buf.drop 0).take (len + 1) ++
      (mem.drop (sdsHdrSize t')).drop (0 + ((s.buf.drop 0).take (len + 1)).length)).length =
        mem.length - sdsHdrSize t' := by
    simp only [List.length_append, List.length_take, List.length_drop, content]
    omega
  refine ⟨_, rfl, ⟨?_, ?_, fun notFive => ?_⟩, five, rfl⟩
  · simp [Nat.min_eq_left (show len + 1 ≤ s.buf.length by omega)]
  · simp only [bufLen]
    omega
  · simp only [bufLen]
    exact within notFive

end Moves

section Room

variable (a : Allocator) {s : SdsString}

/-- A string that ends inside its allocation, whose header records the usable size past it and, under
SDS_TYPE_5, its short length, is valid once alloc is set to that usable size. -/
theorem sdssetalloc_valid (terminated : s.buf[s.len]? = some 0) (short : s.type = .type5 → s.len < 32)
    (within : s.type ≠ .type5 → ((s.buf.length - 1 : Nat) : ℕ∞) ≤ sdsTypeMaxSize s.type) :
    (sdssetalloc s (s.buf.length - 1)).Valid := by
  have inside : s.len < s.buf.length := (List.getElem?_eq_some_iff.mp terminated).1
  have alloc : s.type ≠ .type5 → (sdssetalloc s (s.buf.length - 1)).alloc = s.buf.length - 1 :=
    fun notFive => by rw [sdssetalloc_alloc notFive, storeField_of_le (within notFive)]
  refine ⟨by simpa using terminated, fun five => by simpa using short (by simpa using five), fun five => ?_,
    fun five => ?_, fun five => ?_⟩ <;> simp only [sdssetalloc_type] at five ⊢
  · rw [alloc five]
    simp only [SdsString.bufsize, sdssetalloc_buf, sdssetalloc_type]
    omega
  · rw [alloc five, sdssetalloc_len]
    omega
  · rw [alloc five]
    exact within five

/-- _sdsMakeRoomFor leaves a valid string with the same content and room for `addlen` more bytes past it. -/
theorem _sdsMakeRoomFor_spec (valid : s.Valid) (addlen : Nat) (greedy : Bool) :
    ∃ s', _sdsMakeRoomFor a s addlen greedy = some s' ∧ s'.Valid ∧ sdsContent s' = sdsContent s ∧
      s'.len = s.len ∧ s.len + addlen ≤ s'.len + sdsavail s' := by
  unfold _sdsMakeRoomFor
  by_cases enough : addlen ≤ sdsavail s
  · -- room enough already: the string is returned as it is
    rw [if_pos enough]
    exact ⟨s, rfl, valid, rfl, rfl, by omega⟩
  rw [if_neg enough]
  dsimp only
  generalize grownEq : (if greedy = true then
      if sdslen s + addlen < sdsMaxPrealloc then (sdslen s + addlen) * 2 else sdslen s + addlen + sdsMaxPrealloc
    else sdslen s + addlen) = newlen
  have grown : s.len + addlen ≤ newlen := by
    rw [← grownEq]
    split_ifs <;> simp only [sdslen] <;> omega
  generalize typeEq : (if sdsReqType newlen = SdsType.type5 then SdsType.type8 else sdsReqType newlen) = t
  -- SDS_TYPE_5 cannot record free space: a string being appended to gets at least SDS_TYPE_8
  have notFive : t ≠ .type5 := by
    rw [← typeEq]
    split
    · exact fun isFive => absurd isFive (by decide)
    · assumption
  have req : (sdsReqType newlen).tag ≤ t.tag := by
    rw [← typeEq]
    split
    · next five => rw [five]; exact Nat.zero_le _
    · exact le_refl _
  -- the allocation is recorded as usable size once the content has moved, by either path
  have finish : ∀ s1 : SdsString, Moved s s1 s.len newlen → s1.type ≠ .type5 → s1.len = s.len →
      ∃ s', (if s1.type ≠ .type5 ∧ ¬((s1.buf.length - 1 : Nat) : ℕ∞) ≤ sdsTypeMaxSize s1.type then none
        else some (sdssetalloc s1 (s1.buf.length - 1))) = some s' ∧ s'.Valid ∧ sdsContent s' = sdsContent s ∧
        s'.len = s.len ∧ s.len + addlen ≤ s'.len + sdsavail s' := by
    intro s1 moved five1 len1
    have room := moved.room
    rw [if_neg fun failed => failed.2 (moved.within failed.1)]
    refine ⟨_, rfl, sdssetalloc_valid (by rw [len1, moved.getElem?_len]; exact valid.terminated)
      (fun five => absurd five five1) moved.within, ?_, by simp [len1], ?_⟩
    · simp only [sdsContent, sdssetalloc_buf, sdssetalloc_len, len1, moved.take_len]
    · simp only [sdsavail, sdssetalloc_type, five1, if_false, sdssetalloc_alloc five1,
        storeField_of_le (moved.within five1), sdssetalloc_len, len1]
      omega
  by_cases same : s.type = t
  · -- the same header: realloc in place
    rw [if_pos same]
    obtain ⟨s1, kept, moved, five, lenEq, -⟩ :=
      sdsReallocKeep_spec a valid (le_refl (sdslen s)) (by simp only [sdslen]; omega) (same ▸ req)
    rw [← same, kept]
    simp only [Option.bind_eq_bind, Option.bind_some]
    exact finish s1 moved (fun isFive => notFive (same ▸ five.mp isFive)) (lenEq.elim id id)
  · -- another header: a new allocation, the length set under it
    rw [if_neg same]
    obtain ⟨s1, kept, moved, five, -⟩ :=
      sdsMallocMove_spec a valid (le_refl (sdslen s)) (by simp only [sdslen]; omega) req
    have five1 : s1.type ≠ .type5 := fun isFive => notFive (five.mp isFive)
    rw [kept]
    simp only [Option.map_some, Option.bind_eq_bind, Option.bind_some]
    refine finish _ (moved.sdssetlen _) five1 ?_
    -- the length fits the new header
    have room := moved.room
    exact storeField_of_le (le_trans (Nat.cast_le.mpr (by simp only [sdslen]; omega)) (moved.within five1))

/-- sdsResize leaves a valid string holding its content cut to `size` bytes. -/
theorem sdsResize_spec (valid : s.Valid) (size : Nat) (wouldRegrow : Bool) :
    ∃ s', sdsResize a s size wouldRegrow = some s' ∧ s'.Valid ∧ sdsContent s' = (sdsContent s).take size := by
  unfold sdsResize
  by_cases good : sdsalloc s = size
  · -- the size already good: the string is returned as it is, its content no longer than the allocation
    rw [if_pos good]
    refine ⟨s, rfl, valid, (List.take_of_length_le ?_).symm⟩
    rw [valid.length_content, ← good]
    by_cases five : s.type = .type5
    · simp only [sdsalloc, five, if_true, sdslen, le_refl]
    · simpa [sdsalloc, five, sdslen] using valid.len_le five
  rw [if_neg good]
  dsimp only
  generalize lenEq : (if size < sdslen s then size else sdslen s) = len
  have short : len ≤ s.len := by
    rw [← lenEq]
    split <;> simp only [sdslen] at * <;> omega
  have fits : len ≤ size := by
    rw [← lenEq]
    split <;> simp only [sdslen] at * <;> omega
  generalize typeEq : (if wouldRegrow = true ∧ sdsReqType size = SdsType.type5 then SdsType.type8
    else sdsReqType size) = t
  have req : (sdsReqType size).tag ≤ t.tag := by
    rw [← typeEq]
    split
    · next five => rw [five.2]; exact Nat.zero_le _
    · exact le_refl _
  have small : t = .type5 → size < 32 := by
    rw [← typeEq]
    split
    · exact fun isFive => absurd isFive (by decide)
    · exact (sdsReqType_eq_type5 size).mp
  -- the content cut and terminated, the length and the usable size recorded, after either path
  have finish : ∀ s1 : SdsString, Moved s s1 len size → (s1.type = .type5 → size < 32) →
      ∃ s', (if s1.type ≠ .type5 ∧ ¬((s1.buf.length - 1 : Nat) : ℕ∞) ≤ sdsTypeMaxSize s1.type then none
        else (writeBytes s1.buf len [0]).bind fun buf =>
          some (sdssetalloc (sdssetlen { s1 with buf } len) (s1.buf.length - 1))) = some s' ∧
        s'.Valid ∧ sdsContent s' = (sdsContent s).take size := by
    intro s1 moved small1
    have room := moved.room
    have stored : storeField s1.type len = len := by
      by_cases five : s1.type = .type5
      · rw [five]
        exact Nat.mod_eq_of_lt (by have := small1 five; omega)
      · exact storeField_of_le (le_trans (Nat.cast_le.mpr (by omega)) (moved.within five))
    have cut : (s1.buf.take len ++ [0] ++ s1.buf.drop (len + [(0 : UInt8)].length)).length = s1.buf.length := by
      simp only [List.length_append, List.length_take, List.length_singleton, List.length_drop]
      omega
    rw [if_neg fun failed => failed.2 (moved.within failed.1), writeBytes_eq_some (by simp only [List.length_singleton]; omega),
      Option.bind_some, ← cut]
    refine ⟨_, rfl, sdssetalloc_valid ?_ ?_ ?_, ?_⟩
    · simp [stored, Nat.min_eq_left (show len ≤ s1.buf.length by omega)]
    · simpa [stored] using fun five => by have := small1 five; omega
    · simp only [sdssetlen_type, sdssetlen_buf, cut]
      exact moved.within
    · have shorter : (sdsContent s).take size = s.buf.take len := by
        rw [sdsContent, List.take_take, ← lenEq]
        split <;> simp only [sdslen] at * <;> congr 1 <;> omega
      simp only [sdsContent, sdssetalloc_buf, sdssetalloc_len, sdssetlen_buf, sdssetlen_len, stored]
      rw [List.take_append_of_le_length (by simp; omega), List.take_append_of_le_length (by simp; omega),
        List.take_take, Nat.min_self, moved.take_len]
      exact shorter.symm
  by_cases realloc : s.type = t ∨ t.tag < s.type.tag ∧ t.tag > SdsType.type8.tag
  · -- the same header, or a smaller one above SDS_TYPE_8: realloc under the old header
    simp only [if_pos realloc]
    have below : (sdsReqType size).tag ≤ s.type.tag := by
      rcases realloc with same | ⟨smaller, -⟩
      · exact same ▸ req
      · omega
    obtain ⟨s1, kept, moved, five, -⟩ := sdsReallocKeep_spec a valid short fits below
    rw [kept]
    simp only [Option.bind_eq_bind, Option.bind_some]
    refine finish s1 moved fun isFive => small ?_
    -- SDS_TYPE_5 stays only when it was asked for: no type is smaller
    rcases realloc with same | ⟨smaller, -⟩
    · exact same ▸ five.mp isFive
    · rw [five.mp isFive] at smaller
      exact absurd smaller (Nat.not_lt_zero _)
  · -- another header: a new allocation
    simp only [if_neg realloc]
    obtain ⟨s1, kept, moved, five, -⟩ := sdsMallocMove_spec a valid short fits req
    rw [kept]
    simp only [Option.bind_eq_bind, Option.bind_some]
    exact finish s1 moved fun isFive => small (five.mp isFive)

end Room

end Kv.Sds
