import Kv.Crc.Crc64
import Kv.Crc.Combine

/-!
crcspeed.c and the top of crc64.c: the CRC-64 a byte at a time from a table,
eight bytes at a time from eight tables, and, past the cutoffs, two or three
segments of the buffer hashed side by side and stitched back with
crc64_combine. The tables crcspeed64little_init fills hold powers of the
zero-byte operator (`crcspeed64littleInit_apply`); DO_8_2 is eight zero bytes
(`do8_2_eq`); each loop of crcspeed64little is the reflected CRC of the bytes it
consumes, and together they consume the whole buffer (`crcspeed64little_eq`).
The tables and the combine cache are static state, which crc64_init, the
cutoff setter, crc64 and crc64_combine share; from the program's start, after
crc64_init, every crc64 returns the byte-wise CRC (`crc64_eq_bytewise`).
-/

namespace Kv.Crc

open Foundations

/-- CRC64_REVERSED_POLY -/
def crc64ReversedPoly : UInt64 := 0x95ac9329ac4bc9b5

/-- CRC64_LEN_MASK -/
def crc64LenMask : Nat := 0x7ffffffffffffff8

/-- The eight lookup tables `table[k][n]`. -/
abbrev CrcTable := Nat → UInt8 → UInt64

/-- crcspeed64little_init: `table[0][n]` is the CRC of the single byte `n` from 0, and each later row takes one
more step of `crc = table[0][crc & 0xff] ^ (crc >> 8)`. -/
def crcspeed64littleInit (crcfn : UInt64 → List UInt8 → Nat → UInt64) : CrcTable :=
  let table0 : UInt8 → UInt64 := fun n => crcfn 0 [n] 1
  fun k n => (fun crc : UInt64 => table0 (crc &&& 0xff).toUInt8 ^^^ (crc >>> 8))^[k] (table0 n)

/-- `crc1 = little_table[0][(crc1 ^ *next1++) & 0xff] ^ (crc1 >> 8)` -/
def crcByteStep (table : CrcTable) (crc : UInt64) (b : UInt8) : UInt64 :=
  table 0 ((crc ^^^ b.toUInt64) &&& 0xff).toUInt8 ^^^ (crc >>> 8)

/-- DO_8_2: one table per byte of the register. -/
def do8_2 (table : CrcTable) (crc : UInt64) : UInt64 :=
  table 7 crc.toUInt8 ^^^ table 6 (crc >>> 8).toUInt8 ^^^ table 5 (crc >>> 16).toUInt8 ^^^
    table 4 (crc >>> 24).toUInt8 ^^^ table 3 (crc >>> 32).toUInt8 ^^^ table 2 (crc >>> 40).toUInt8 ^^^
    table 1 (crc >>> 48).toUInt8 ^^^ table 0 (crc >>> 56).toUInt8

/-- `*(uint64_t *)next` on a little-endian machine. -/
def loadWord (buf : List UInt8) (next : Nat) : UInt64 := wordOfBytes ((buf.drop next).take 8)

/-- `while (len && ((uintptr_t)next1 & 7) != 0)`: single bytes until next1, at address `addr + next1`, is
8-aligned. -/
def crcAlignLoop (table : CrcTable) (buf : List UInt8) (addr : Nat) : UInt64 → Nat → Nat → UInt64 × Nat × Nat
  | crc, next, 0 => (crc, next, 0)
  | crc, next, len + 1 =>
    if (addr + next) &&& 7 ≠ 0 then crcAlignLoop table buf addr (crcByteStep table crc (buf.getD next 0)) (next + 1) len
    else (crc, next, len + 1)

/-- `while (len) { ...; len--; }`: the remaining bytes one at a time. -/
def crcByteLoop (table : CrcTable) (buf : List UInt8) : UInt64 → Nat → Nat → UInt64
  | crc, _, 0 => crc
  | crc, next, len + 1 => crcByteLoop table buf (crcByteStep table crc (buf.getD next 0)) (next + 1) len

/-- One lane of the eight-byte loops: DO_8_1, the word at the lane's pointer xored in and the pointer moved on,
then DO_8_2. -/
def crcLaneStep (table : CrcTable) (buf : List UInt8) (lane : UInt64 × Nat) : UInt64 × Nat :=
  (do8_2 table (lane.1 ^^^ loadWord buf lane.2), lane.2 + 8)

/-- `while (len >= 8) { len -= 8; ... }` over one, two or three lanes. -/
def crcLaneLoop (table : CrcTable) (buf : List UInt8) : List (UInt64 × Nat) → Nat → List (UInt64 × Nat) × Nat
  | lanes, len + 8 => crcLaneLoop table buf (lanes.map (crcLaneStep table buf)) len
  | lanes, len => (lanes, len)

/-- CRC64_SPLIT(div), the lane loop, MERGE_CRC of each later lane into crc1, and MERGE_END: `div` segments whose
length is a multiple of 8, hashed side by side, the first from crc1 and the others from 0. -/
def crc64SplitMerge (mul : CrcMultiply) (table : CrcTable) (buf : List UInt8) (cache : CombineCache) (div : Nat)
    (crc1 : UInt64) (next1 len : Nat) : (UInt64 × Nat × Nat) × CombineCache :=
  let olen := len
  let len := (len / div) &&& crc64LenMask
  let lanes := ((List.range div).map fun j => (if j = 0 then crc1 else 0, next1 + j * len), len)
  let lanes := (crcLaneLoop table buf lanes.1 lanes.2).1
  -- next2 - next1 after the loop
  let segment := (lanes.getD 1 (0, 0)).2 - (lanes.getD 0 (0, 0)).2
  let merged := lanes.tail.foldl
    (fun (acc : UInt64 × CombineCache) lane =>
      crc64Combine mul acc.2 acc.1 lane.1 segment.toUInt64 crc64ReversedPoly 64)
    ((lanes.getD 0 (0, 0)).1, cache)
  ((merged.1, (lanes.getLastD (0, 0)).2, olen - segment * div), merged.2)

/-- crcspeed64little over the `len` bytes of `buf`, which starts at address `addr`, with the cutoffs
CRC64_DUAL_CUTOFF and CRC64_TRI_CUTOFF and the combine cache it may fill. -/
def crcspeed64little (mul : CrcMultiply) (dualCutoff triCutoff : Nat) (table : CrcTable) (cache : CombineCache)
    (crc1 : UInt64) (addr : Nat) (buf : List UInt8) (len : Nat) : UInt64 × CombineCache :=
  if dualCutoff < 1 then (crcByteLoop table buf crc1 0 len, cache)
  else
    let aligned := crcAlignLoop table buf addr crc1 0 len
    let split :=
      if aligned.2.2 > triCutoff then crc64SplitMerge mul table buf cache 3 aligned.1 aligned.2.1 aligned.2.2
      else if aligned.2.2 > dualCutoff then crc64SplitMerge mul table buf cache 2 aligned.1 aligned.2.1 aligned.2.2
      else (aligned, cache)
    let words := crcLaneLoop table buf [(split.1.1, split.1.2.1)] split.1.2.2
    let lane := words.1.headD (0, 0)
    (crcByteLoop table buf lane.1 lane.2 words.2, split.2)

/-- The static state the CRC-64 functions share: crc64_table, CRC64_DUAL_CUTOFF and CRC64_TRI_CUTOFF, and
combine_cache. -/
structure Crc64State where
  table : CrcTable
  dualCutoff : Nat
  triCutoff : Nat
  combineCache : CombineCache

/-- The program's start: zeroed tables and cache, and the build's default cutoffs. -/
def Crc64State.initial (dualCutoff triCutoff : Nat) : Crc64State :=
  ⟨fun _ _ => 0, dualCutoff, triCutoff, combineCacheZero⟩

/-- crc64_init, through crcspeed64native_init on a little-endian machine. -/
def crc64Init (st : Crc64State) : Crc64State := { st with table := crcspeed64littleInit _crc64 }

def setCrc64Cutoffs (st : Crc64State) (dualCutoff triCutoff : Nat) : Crc64State :=
  { st with dualCutoff := dualCutoff, triCutoff := triCutoff }

/-- crc64, through crcspeed64native on a little-endian machine. -/
def crc64 (mul : CrcMultiply) (st : Crc64State) (crc : UInt64) (addr : Nat) (s : List UInt8) (l : Nat) :
    UInt64 × Crc64State :=
  let result := crcspeed64little mul st.dualCutoff st.triCutoff st.table st.combineCache crc addr s l
  (result.1, { st with combineCache := result.2 })

/-- The calls that read or write the shared state; crc64_combine as crcspeed calls it, with the Jones polynomial
over 64 bits. -/
inductive Crc64Call where
  | init
  | setCutoffs (dualCutoff triCutoff : Nat)
  | crc64 (crc : UInt64) (addr : Nat) (s : List UInt8) (l : Nat)
  | combine (crc1 crc2 len2 : UInt64)

def crc64Step (mul : CrcMultiply) (st : Crc64State) : Crc64Call → Crc64State
  | .init => crc64Init st
  | .setCutoffs dualCutoff triCutoff => setCrc64Cutoffs st dualCutoff triCutoff
  | .crc64 crc addr s l => (crc64 mul st crc addr s l).2
  | .combine crc1 crc2 len2 =>
    { st with combineCache := (crc64Combine mul st.combineCache crc1 crc2 len2 crc64ReversedPoly 64).2 }

/-- The byte-wise CRC the fast paths are to agree with: `R(c, b :: t) = R(T0[(c ^ b) & 0xff] ^ (c >> 8), t)`, with
`T0[n] = _crc64(0, [n], 1)`. -/
def crc64Bytewise (c : UInt64) (s : List UInt8) : UInt64 :=
  s.foldl (fun c b => _crc64 0 [((c ^^^ b.toUInt64) &&& 0xff).toUInt8] 1 ^^^ (c >>> 8)) c

/-! The tables. -/

theorem reverse64_poly : reverse64 poly = crc64ReversedPoly := by
  rw [← crcReflect_eq_reverse64]
  decide

/-- `T0[n]` is a zero byte after `n`. -/
theorem _crc64_single (n : UInt8) : _crc64 0 [n] 1 = zeroByte crc64ReversedPoly n.toUInt64 := by
  rw [_crc64_eq_crcBytes, reverse64_poly, reverse64_zero]
  simp

theorem toUInt8_and_byte (x : UInt64) : (x &&& 0xff).toUInt8 = x.toUInt8 := by
  apply UInt8.toNat_inj.mp
  rw [UInt64.toNat_toUInt8, UInt64.toNat_toUInt8, UInt64.toNat_and, show (0xff : UInt64).toNat = 2 ^ 8 - 1 from rfl,
    Nat.and_two_pow_sub_one_eq_mod, Nat.mod_mod]

/-- The byte step of the tables is a zero byte after the byte is xored in. -/
theorem table0_step (c : UInt64) (b : UInt8) :
    zeroByte crc64ReversedPoly ((c ^^^ b.toUInt64) &&& 0xff).toUInt8.toUInt64 ^^^ (c >>> 8) =
      zeroByte crc64ReversedPoly (c ^^^ b.toUInt64) := by
  have high : (c ^^^ b.toUInt64) >>> 8 = c >>> 8 := by
    rw [UInt64.shiftRight_xor]
    have gone : b.toUInt64 >>> 8 = 0 := by
      apply UInt64.toNat_inj.mp
      rw [UInt64.toNat_shiftRight, UInt8.toNat_toUInt64, Nat.shiftRight_eq_div_pow]
      exact Nat.div_eq_of_lt b.toNat_lt
    rw [gone, UInt64.xor_zero]
  rw [toUInt8_and_byte, ← high, ← zeroByte_split]

/-- The claim's byte-wise CRC is the reflected CRC of the Jones polynomial. -/
theorem crc64Bytewise_eq_crcBytes (c : UInt64) (s : List UInt8) :
    crc64Bytewise c s = crcBytes crc64ReversedPoly c s := by
  induction s generalizing c with
  | nil => rfl
  | cons b s ih =>
    rw [crc64Bytewise, List.foldl_cons, ← crc64Bytewise, ih, _crc64_single, table0_step, crcBytes_cons]

/-- Row `k` of the tables crc64_init fills holds `k + 1` zero bytes after its index. -/
theorem crcspeed64littleInit_apply (k : Nat) (n : UInt8) :
    crcspeed64littleInit _crc64 k n = (zeroByte crc64ReversedPoly)^[k + 1] n.toUInt64 := by
  have step : (fun crc : UInt64 => _crc64 0 [(crc &&& 0xff).toUInt8] 1 ^^^ (crc >>> 8)) =
      zeroByte crc64ReversedPoly := by
    funext crc
    rw [_crc64_single, toUInt8_and_byte, ← zeroByte_split]
  show (fun crc : UInt64 => _crc64 0 [(crc &&& 0xff).toUInt8] 1 ^^^ (crc >>> 8))^[k] (_crc64 0 [n] 1) = _
  rw [step, _crc64_single, Function.iterate_succ_apply]

/-- A byte step from the filled tables is one byte of the reflected CRC. -/
theorem crcByteStep_eq (crc : UInt64) (b : UInt8) :
    crcByteStep (crcspeed64littleInit _crc64) crc b = crcBytes crc64ReversedPoly crc [b] := by
  rw [crcByteStep, crcspeed64littleInit_apply, Function.iterate_one, table0_step]
  rfl

theorem toUInt8_toUInt64_shiftRight_56 (y : UInt64) : (y >>> 56).toUInt8.toUInt64 = y >>> 56 := by
  apply UInt64.toNat_inj.mp
  rw [UInt64.toUInt64_toUInt8, UInt64.toNat_mod, UInt64.toNat_shiftRight, Nat.shiftRight_eq_div_pow]
  exact Nat.mod_eq_of_lt (Nat.div_lt_of_lt_mul (by have := y.toNat_lt; simp at this ⊢; omega))

theorem uint64_shiftRight_shiftRight (y a b c : UInt64) (sum : a.toNat + b.toNat = c.toNat) (small : c.toNat < 64) :
    (y >>> a) >>> b = y >>> c := by
  apply UInt64.toNat_inj.mp
  rw [UInt64.toNat_shiftRight, UInt64.toNat_shiftRight, UInt64.toNat_shiftRight, Nat.mod_eq_of_lt small,
    Nat.mod_eq_of_lt (by omega), Nat.mod_eq_of_lt (by omega), Nat.shiftRight_eq_div_pow, Nat.shiftRight_eq_div_pow,
    Nat.shiftRight_eq_div_pow, Nat.div_div_eq_div_mul, ← Nat.pow_add, sum]

/-- DO_8_2 from the filled tables is eight zero bytes. -/
theorem do8_2_eq (crc : UInt64) :
    do8_2 (crcspeed64littleInit _crc64) crc = (zeroByte crc64ReversedPoly)^[8] crc := by
  -- peel a byte at a time: `m + 1` zero bytes after a word are those after its low byte and `m` after the rest
  have peel := iterate_zeroByte_succ crc64ReversedPoly
  have shifted : ∀ a c : UInt64, a.toNat + 8 = c.toNat → c.toNat < 64 → crc >>> a >>> 8 = crc >>> c :=
    fun a c sum small => uint64_shiftRight_shiftRight crc a 8 c sum small
  simp only [do8_2, crcspeed64littleInit_apply]
  rw [toUInt8_toUInt64_shiftRight_56 crc]
  conv =>
    rhs
    rw [peel 7 crc, peel 6, shifted 8 16 rfl (by decide), peel 5, shifted 16 24 rfl (by decide), peel 4,
      shifted 24 32 rfl (by decide), peel 3, shifted 32 40 rfl (by decide), peel 2, shifted 40 48 rfl (by decide),
      peel 1, shifted 48 56 rfl (by decide)]
  simp only [UInt64.xor_assoc]

/-! The loops. -/

section Loops

variable (buf : List UInt8)

/-- The next `n` bytes from `p`. -/
theorem take_drop_append (p a b : Nat) :
    (buf.drop p).take a ++ (buf.drop (p + a)).take b = (buf.drop p).take (a + b) := by
  rw [List.take_add, List.drop_drop]

theorem take_drop_one {p : Nat} (inside : p < buf.length) : (buf.drop p).take 1 = [buf.getD p 0] := by
  rw [List.drop_eq_getElem_cons inside, List.take_succ_cons, List.take_zero, List.getD_eq_getElem?_getD,
    List.getElem?_eq_getElem inside]
  rfl

/-- A byte step at `p` and then `k` bytes from `p + 1` are `k + 1` bytes from `p`. -/
theorem crcBytes_crcByteStep (crc : UInt64) {p : Nat} (inside : p < buf.length) (k : Nat) :
    crcBytes crc64ReversedPoly (crcByteStep (crcspeed64littleInit _crc64) crc (buf.getD p 0))
        ((buf.drop (p + 1)).take k) =
      crcBytes crc64ReversedPoly crc ((buf.drop p).take (k + 1)) := by
  rw [crcByteStep_eq, ← crcBytes_append, ← take_drop_one buf inside, take_drop_append, Nat.add_comm 1 k]

theorem crcByteLoop_eq (crc : UInt64) (p len : Nat) (within : p + len ≤ buf.length) :
    crcByteLoop (crcspeed64littleInit _crc64) buf crc p len =
      crcBytes crc64ReversedPoly crc ((buf.drop p).take len) := by
  induction len generalizing crc p with
  | zero => simp [crcByteLoop]
  | succ len ih => rw [crcByteLoop, ih _ _ (by omega), crcBytes_crcByteStep buf crc (by omega)]

/-- The alignment loop consumes some of the bytes, each as one byte of the CRC. -/
theorem crcAlignLoop_eq (addr : Nat) (crc : UInt64) (p len : Nat) (within : p + len ≤ buf.length) :
    ∃ k ≤ len, crcAlignLoop (crcspeed64littleInit _crc64) buf addr crc p len =
      (crcBytes crc64ReversedPoly crc ((buf.drop p).take k), p + k, len - k) := by
  induction len generalizing crc p with
  | zero => exact ⟨0, le_refl 0, by simp [crcAlignLoop]⟩
  | succ len ih =>
    rw [crcAlignLoop]
    by_cases unaligned : (addr + p) &&& 7 ≠ 0
    · obtain ⟨k, fewer, rest⟩ := ih (crcByteStep (crcspeed64littleInit _crc64) crc (buf.getD p 0)) (p + 1) (by omega)
      refine ⟨k + 1, by omega, ?_⟩
      rw [if_pos unaligned, rest, crcBytes_crcByteStep buf crc (by omega), show p + 1 + k = p + (k + 1) by omega,
        show len + 1 - (k + 1) = len - k by omega]
    · exact ⟨0, by omega, by rw [if_neg unaligned]; simp⟩

/-- A lane step from the filled tables is eight bytes of the CRC. -/
theorem crcLaneStep_eq (crc : UInt64) (p : Nat) (within : p + 8 ≤ buf.length) :
    crcLaneStep (crcspeed64littleInit _crc64) buf (crc, p) =
      (crcBytes crc64ReversedPoly crc ((buf.drop p).take 8), p + 8) := by
  have eight : ((buf.drop p).take 8).length = 8 := by
    rw [List.length_take, List.length_drop]
    omega
  rw [crcLaneStep, do8_2_eq, loadWord, crcBytes_eq_word _ _ _ (by omega), eight]

/-- The eight-byte loop runs `w` times over each lane and leaves the `r` bytes below 8. -/
theorem crcLaneLoop_eq (lanes : List (UInt64 × Nat)) (w r : Nat) (short : r < 8)
    (within : ∀ lane ∈ lanes, lane.2 + 8 * w ≤ buf.length) :
    crcLaneLoop (crcspeed64littleInit _crc64) buf lanes (8 * w + r) =
      (lanes.map fun lane => (crcBytes crc64ReversedPoly lane.1 ((buf.drop lane.2).take (8 * w)), lane.2 + 8 * w),
        r) := by
  induction w generalizing lanes with
  | zero =>
    have done : crcLaneLoop (crcspeed64littleInit _crc64) buf lanes r = (lanes, r) := by
      interval_cases r <;> rfl
    simp [done]
  | succ w ih =>
    have stepped : ∀ lane ∈ lanes.map (crcLaneStep (crcspeed64littleInit _crc64) buf),
        lane.2 + 8 * w ≤ buf.length := by
      intro lane mem
      obtain ⟨⟨crc, p⟩, mem', rfl⟩ := List.mem_map.mp mem
      have := within _ mem'
      simp only [crcLaneStep]
      omega
    rw [show 8 * (w + 1) + r = 8 * w + r + 8 by omega, crcLaneLoop, ih _ stepped, List.map_map]
    congr 1
    apply List.map_congr_left
    intro ⟨crc, p⟩ mem
    have := within _ mem
    simp only [Function.comp_apply]
    rw [crcLaneStep_eq buf crc p (by omega), ← crcBytes_append, take_drop_append,
      show 8 + 8 * w = 8 * (w + 1) by omega, show p + 8 + 8 * w = p + 8 * (w + 1) by omega]

/-! The split into segments. -/

variable (mul : CrcMultiply)

theorem crc64LenMask_aligned (n : Nat) : (n &&& crc64LenMask) % 8 = 0 := by
  rw [show (8 : Nat) = 2 ^ 3 from rfl, ← Nat.and_two_pow_sub_one_eq_mod, Nat.and_assoc,
    show crc64LenMask &&& (2 ^ 3 - 1) = 0 by decide, Nat.and_zero]

theorem getD_map_range {α : Type} (f : Nat → α) (d : α) {j n : Nat} (below : j < n) :
    ((List.range n).map f).getD j d = f j := by
  rw [List.getD_eq_getElem?_getD, List.getElem?_map, List.getElem?_range below]
  rfl

theorem getLastD_map_range_succ {α : Type} (f : Nat → α) (d : α) (n : Nat) :
    ((List.range (n + 1)).map f).getLastD d = f n := by
  rw [List.range_succ, List.map_append, List.map_singleton, List.getLastD_concat]

theorem tail_map_range_succ {α : Type} (f : Nat → α) (n : Nat) :
    ((List.range (n + 1)).map f).tail = (List.range n).map fun j => f (j + 1) := by
  rw [List.range_succ_eq_map, List.map_cons, List.tail_cons, List.map_map]
  rfl

/-- After the lane loop of CRC64_SPLIT each lane holds the CRC of its segment and points past it. -/
theorem crcLaneLoop_split (crc1 : UInt64) (next1 seg div : Nat) (aligned : seg % 8 = 0)
    (within : next1 + div * seg ≤ buf.length) :
    (crcLaneLoop (crcspeed64littleInit _crc64) buf
        ((List.range div).map fun j => (if j = 0 then crc1 else 0, next1 + j * seg)) seg).1 =
      (List.range div).map fun j =>
        (crcBytes crc64ReversedPoly (if j = 0 then crc1 else 0) ((buf.drop (next1 + j * seg)).take seg),
          next1 + j * seg + seg) := by
  have eight : 8 * (seg / 8) = seg := by omega
  have loop := crcLaneLoop_eq buf ((List.range div).map fun j => (if j = 0 then crc1 else 0, next1 + j * seg))
    (seg / 8) 0 (by decide) (by
      intro lane mem
      obtain ⟨j, range, rfl⟩ := List.mem_map.mp mem
      have bound : (j + 1) * seg ≤ div * seg := Nat.mul_le_mul_right seg (List.mem_range.mp range)
      rw [Nat.succ_mul] at bound
      show next1 + j * seg + 8 * (seg / 8) ≤ buf.length
      omega)
  rw [eight, Nat.add_zero] at loop
  rw [loop, List.map_map]
  rfl

/-- MERGE_CRC over the later segments: each combine appends the next segment to what crc1 covers. -/
theorem mergeCrc_fold {cache : CombineCache} (ok : CacheOk crc64ReversedPoly cache) (crc1 : UInt64)
    (next1 seg : Nat) (small : seg < 2 ^ 64) (m : Nat) (within : next1 + (m + 1) * seg ≤ buf.length) :
    ∃ cache', CacheOk crc64ReversedPoly cache' ∧
      ((List.range m).map fun j =>
          (crcBytes crc64ReversedPoly 0 ((buf.drop (next1 + (j + 1) * seg)).take seg),
            next1 + (j + 1) * seg + seg)).foldl
        (fun (acc : UInt64 × CombineCache) lane =>
          crc64Combine mul acc.2 acc.1 lane.1 seg.toUInt64 crc64ReversedPoly 64)
        (crcBytes crc64ReversedPoly crc1 ((buf.drop next1).take seg), cache) =
      (crcBytes crc64ReversedPoly crc1 ((buf.drop next1).take ((m + 1) * seg)), cache') := by
  induction m with
  | zero => exact ⟨cache, ok, by simp⟩
  | succ m ih =>
    rw [Nat.succ_mul] at within
    obtain ⟨cache', ok', folded⟩ := ih (by omega)
    -- the next segment has its full length inside the buffer
    have length : ((buf.drop (next1 + (m + 1) * seg)).take seg).length = seg := by
      rw [List.length_take, List.length_drop]
      omega
    obtain ⟨value, ok''⟩ := crc64Combine_append mul crc64ReversedPoly ok' crc1
      ((buf.drop next1).take ((m + 1) * seg)) ((buf.drop (next1 + (m + 1) * seg)).take seg) (by omega)
    have lenU : seg.toUInt64 = ((buf.drop (next1 + (m + 1) * seg)).take seg).length.toUInt64 := by rw [length]
    refine ⟨_, ok'', ?_⟩
    rw [List.range_succ, List.map_append, List.foldl_append, folded, List.map_singleton, List.foldl_cons,
      List.foldl_nil, lenU]
    dsimp only
    refine Prod.ext ?_ rfl
    rw [value, take_drop_append, ← Nat.succ_mul]

/-- CRC64_SPLIT and the merges consume `div` whole segments: crc1 comes out as the CRC of all of them. -/
theorem crc64SplitMerge_eq {cache : CombineCache} (ok : CacheOk crc64ReversedPoly cache) (div : Nat) (two : 2 ≤ div)
    (crc1 : UInt64) (next1 len : Nat) (within : next1 + len ≤ buf.length) :
    ∃ consumed ≤ len, ∃ cache', CacheOk crc64ReversedPoly cache' ∧
      crc64SplitMerge mul (crcspeed64littleInit _crc64) buf cache div crc1 next1 len =
        ((crcBytes crc64ReversedPoly crc1 ((buf.drop next1).take consumed), next1 + consumed, len - consumed),
          cache') := by
  -- the segment length: a multiple of 8, `div` of which fit in `len`
  have fewer : (len / div) &&& crc64LenMask ≤ len / div := Nat.and_le_left
  have fits : div * ((len / div) &&& crc64LenMask) ≤ len :=
    Nat.le_trans (Nat.mul_le_mul_left div fewer) (Nat.mul_div_le len div)
  have small : (len / div) &&& crc64LenMask < 2 ^ 64 :=
    Nat.lt_of_le_of_lt Nat.and_le_right (by decide)
  generalize segDef : (len / div) &&& crc64LenMask = seg at fewer fits small
  have aligned : seg % 8 = 0 := segDef ▸ crc64LenMask_aligned (len / div)
  obtain ⟨d, rfl⟩ : ∃ d, div = d + 1 := ⟨div - 1, by omega⟩
  have lanes := crcLaneLoop_split buf crc1 next1 seg (d + 1) aligned (by omega)
  obtain ⟨cache', ok', merged⟩ := mergeCrc_fold buf mul ok crc1 next1 seg small d (by rw [Nat.succ_mul] at fits ⊢; omega)
  refine ⟨(d + 1) * seg, fits, cache', ok', ?_⟩
  -- the merges read lanes 0 and 1, fold over the tail and end at the last lane
  simp only [crc64SplitMerge, segDef, lanes, getD_map_range _ _ (show 0 < d + 1 by omega),
    getD_map_range _ _ (show 1 < d + 1 by omega), tail_map_range_succ, getLastD_map_range_succ, ↓reduceIte,
    Nat.add_one_ne_zero, Nat.zero_mul, Nat.one_mul, Nat.add_zero, merged,
    show next1 + seg + seg - (next1 + seg) = seg by omega]
  rw [Nat.succ_mul, show next1 + d * seg + seg = next1 + (d * seg + seg) by omega, Nat.mul_comm seg (d + 1),
    Nat.succ_mul]

/-- The split step of crcspeed64little, whichever branch the cutoffs choose, takes some of the bytes into crc1. -/
theorem crcSplit_eq {cache : CombineCache} (ok : CacheOk crc64ReversedPoly cache) (dualCutoff triCutoff : Nat)
    (crc1 : UInt64) (next1 len : Nat) (within : next1 + len ≤ buf.length) :
    ∃ consumed ≤ len, ∃ cache', CacheOk crc64ReversedPoly cache' ∧
      (if len > triCutoff then crc64SplitMerge mul (crcspeed64littleInit _crc64) buf cache 3 crc1 next1 len
        else if len > dualCutoff then crc64SplitMerge mul (crcspeed64littleInit _crc64) buf cache 2 crc1 next1 len
        else ((crc1, next1, len), cache)) =
      ((crcBytes crc64ReversedPoly crc1 ((buf.drop next1).take consumed), next1 + consumed, len - consumed),
        cache') := by
  by_cases tri : len > triCutoff
  · rw [if_pos tri]
    exact crc64SplitMerge_eq buf mul ok 3 (by decide) crc1 next1 len within
  · by_cases dual : len > dualCutoff
    · rw [if_neg tri, if_pos dual]
      exact crc64SplitMerge_eq buf mul ok 2 (by decide) crc1 next1 len within
    · rw [if_neg tri, if_neg dual]
      exact ⟨0, Nat.zero_le _, cache, ok, by simp⟩

/-- crcspeed64little from the filled tables is the reflected CRC of the first `len` bytes, whatever the cutoffs and
the buffer's address. -/
theorem crcspeed64little_eq {cache : CombineCache} (ok : CacheOk crc64ReversedPoly cache)
    (dualCutoff triCutoff : Nat) (crc : UInt64) (addr len : Nat) (within : len ≤ buf.length) :
    (crcspeed64little mul dualCutoff triCutoff (crcspeed64littleInit _crc64) cache crc addr buf len).1 =
      crcBytes crc64ReversedPoly crc (buf.take len) := by
  rw [crcspeed64little]
  by_cases final : dualCutoff < 1
  · -- goto final: every byte by the byte loop
    rw [if_pos final, crcByteLoop_eq buf crc 0 len (by omega), List.drop_zero]
  · rw [if_neg final]
    -- the alignment bytes, the split, the eight-byte loop and the last bytes, one after another
    obtain ⟨k, fewer, aligned⟩ := crcAlignLoop_eq buf addr crc 0 len (by omega)
    obtain ⟨consumed, less, cache', -, split⟩ := crcSplit_eq buf mul ok dualCutoff triCutoff
      (crcBytes crc64ReversedPoly crc ((buf.drop 0).take k)) (0 + k) (len - k) (by omega)
    have words := crcLaneLoop_eq buf
      [(crcBytes crc64ReversedPoly (crcBytes crc64ReversedPoly crc ((buf.drop 0).take k))
        ((buf.drop (0 + k)).take consumed), 0 + k + consumed)] ((len - k - consumed) / 8) ((len - k - consumed) % 8)
      (Nat.mod_lt _ (by decide)) (by
        intro lane mem
        rw [List.mem_singleton.mp mem]
        have := Nat.div_add_mod (len - k - consumed) 8
        show 0 + k + consumed + 8 * ((len - k - consumed) / 8) ≤ buf.length
        omega)
    rw [Nat.div_add_mod] at words
    dsimp only
    rw [aligned]
    dsimp only
    rw [split]
    dsimp only
    rw [words]
    simp only [List.map_cons, List.map_nil, List.headD_cons]
    have split8 := Nat.div_add_mod (len - k - consumed) 8
    rw [crcByteLoop_eq buf _ _ _ (by omega), ← crcBytes_append, ← crcBytes_append, ← crcBytes_append,
      take_drop_append, take_drop_append, take_drop_append, List.drop_zero]
    congr 2
    omega

/-- Whatever the tables hold, crcspeed64little leaves the cache untouched or filled: only its merges touch it. -/
theorem crcspeed64little_cacheOk (table : CrcTable) {cache : CombineCache} (ok : CacheOk crc64ReversedPoly cache)
    (dualCutoff triCutoff : Nat) (crc : UInt64) (addr len : Nat) :
    CacheOk crc64ReversedPoly (crcspeed64little mul dualCutoff triCutoff table cache crc addr buf len).2 := by
  have merges : ∀ div crc1 next1 len,
      CacheOk crc64ReversedPoly (crc64SplitMerge mul table buf cache div crc1 next1 len).2 := by
    intro div crc1 next1 len
    exact foldl_crc64Combine_cacheOk mul crc64ReversedPoly _ _ ok
  rw [crcspeed64little]
  by_cases final : dualCutoff < 1
  · rw [if_pos final]
    exact ok
  · rw [if_neg final]
    dsimp only
    by_cases tri : (crcAlignLoop table buf addr crc 0 len).2.2 > triCutoff
    · rw [if_pos tri]
      exact merges _ _ _ _
    · rw [if_neg tri]
      by_cases dual : (crcAlignLoop table buf addr crc 0 len).2.2 > dualCutoff
      · rw [if_pos dual]
        exact merges _ _ _ _
      · rw [if_neg dual]
        exact ok

end Loops

/-! The shared state over whole runs. -/

/-- The state after crc64_init: the filled tables, and a combine cache untouched or filled. -/
def Crc64Ready (st : Crc64State) : Prop :=
  st.table = crcspeed64littleInit _crc64 ∧ CacheOk crc64ReversedPoly st.combineCache

section Runs

variable (mul : CrcMultiply)

/-- Every call leaves the combine cache untouched or filled, before crc64_init as after it. -/
theorem crc64Step_cacheOk {st : Crc64State} (ok : CacheOk crc64ReversedPoly st.combineCache) (call : Crc64Call) :
    CacheOk crc64ReversedPoly (crc64Step mul st call).combineCache := by
  cases call with
  | init => exact ok
  | setCutoffs => exact ok
  | crc64 crc addr s l => exact crcspeed64little_cacheOk s mul st.table ok _ _ crc addr l
  | combine crc1 crc2 len2 => exact (crc64Combine_spec mul crc64ReversedPoly ok crc1 crc2 len2).2

theorem crc64Step_ready {st : Crc64State} (ready : Crc64Ready st) (call : Crc64Call) :
    Crc64Ready (crc64Step mul st call) := by
  refine ⟨?_, crc64Step_cacheOk mul ready.2 call⟩
  cases call with
  | init => rfl
  | setCutoffs => exact ready.1
  | crc64 => exact ready.1
  | combine => exact ready.1

theorem crc64Run_cacheOk (calls : List Crc64Call) {st : Crc64State}
    (ok : CacheOk crc64ReversedPoly st.combineCache) :
    CacheOk crc64ReversedPoly (calls.foldl (crc64Step mul) st).combineCache := by
  induction calls generalizing st with
  | nil => exact ok
  | cons call calls ih => exact ih (crc64Step_cacheOk mul ok call)

theorem crc64Run_ready (calls : List Crc64Call) {st : Crc64State} (ready : Crc64Ready st) :
    Crc64Ready (calls.foldl (crc64Step mul) st) := by
  induction calls generalizing st with
  | nil => exact ready
  | cons call calls ih => exact ih (crc64Step_ready mul ready call)

/-- From the program's start, any run with crc64_init somewhere in it is ready after that call. -/
theorem crc64Run_init_ready (dualCutoff triCutoff : Nat) (before after : List Crc64Call) :
    Crc64Ready ((before ++ Crc64Call.init :: after).foldl (crc64Step mul) (Crc64State.initial dualCutoff triCutoff)) := by
  rw [List.foldl_append, List.foldl_cons]
  exact crc64Run_ready mul after ⟨rfl, crc64Run_cacheOk mul before (cacheOk_zero crc64ReversedPoly)⟩

/-- crc64 from a ready state is the byte-wise CRC of the first `l` bytes. -/
theorem crc64_eq_bytewise_of_ready {st : Crc64State} (ready : Crc64Ready st) (c : UInt64) (addr : Nat)
    (s : List UInt8) (l : Nat) (within : l ≤ s.length) : (crc64 mul st c addr s l).1 = crc64Bytewise c (s.take l) := by
  rw [crc64Bytewise_eq_crcBytes, ← crcspeed64little_eq s mul ready.2 st.dualCutoff st.triCutoff c addr l within,
    ← ready.1]
  rfl

end Runs

/-- The CRC-64 fast paths agree with the byte-wise CRC: after crc64_init, for any cutoffs, buffer, address and
length, crc64 returns it; from 0 it is _crc64; crc64_combine of two CRCs, whatever the calls before it, is the CRC
of the concatenation; and the two products CRC_MULTIPLY may name agree. -/
theorem crc64_fast_paths_eq_bytewise :
    (∀ (mul : CrcMultiply) (dualCutoff triCutoff : Nat) (before after : List Crc64Call) (c : UInt64) (addr : Nat)
        (s : List UInt8) (l : Nat), l ≤ s.length →
      (crc64 mul ((before ++ Crc64Call.init :: after).foldl (crc64Step mul)
        (Crc64State.initial dualCutoff triCutoff)) c addr s l).1 = crc64Bytewise c (s.take l)) ∧
    (∀ s : List UInt8, crc64Bytewise 0 s = _crc64 0 s s.length) ∧
    (∀ (mul : CrcMultiply) (dualCutoff triCutoff : Nat) (calls : List Crc64Call) (c : UInt64)
        (front back : List UInt8), back.length < 2 ^ 64 →
      (crc64Combine mul (calls.foldl (crc64Step mul) (Crc64State.initial dualCutoff triCutoff)).combineCache
        (crc64Bytewise c front) (crc64Bytewise 0 back) back.length.toUInt64 crc64ReversedPoly 64).1 =
          crc64Bytewise c (front ++ back)) ∧
    (∀ (mat : Nat → UInt64) (vec : UInt64), gf2MatrixTimesSwitch mat vec = gf2MatrixTimesVec2 mat vec) := by
  refine ⟨?_, ?_, ?_, ?_⟩
  · intro mul dualCutoff triCutoff before after c addr s l within
    exact crc64_eq_bytewise_of_ready mul (crc64Run_init_ready mul dualCutoff triCutoff before after) c addr s l within
  · intro s
    rw [crc64Bytewise_eq_crcBytes, _crc64_eq_crcBytes, reverse64_poly, reverse64_zero, List.take_length]
  · intro mul dualCutoff triCutoff calls c front back small
    simp only [crc64Bytewise_eq_crcBytes]
    exact (crc64Combine_append mul crc64ReversedPoly (crc64Run_cacheOk mul calls (cacheOk_zero crc64ReversedPoly)) c front back small).1
  · intro mat vec
    rw [gf2MatrixTimesSwitch_eq, gf2MatrixTimesVec2_eq]

theorem crc64_fast_paths_eq_bytewise_abc :
    3 ≤ ([97, 98, 99] : List UInt8).length ∧
      (crc64 .switch (([] ++ Crc64Call.init :: [.setCutoffs 1 1]).foldl (crc64Step .switch)
        (Crc64State.initial 1024 16384)) 0 5 [97, 98, 99] 3).1 = crc64Bytewise 0 (([97, 98, 99] : List UInt8).take 3) ∧
    ([99] : List UInt8).length < 2 ^ 64 ∧
      (crc64Combine .vec2 ([Crc64Call.combine 1 2 3].foldl (crc64Step .vec2) (Crc64State.initial 1024 16384)).combineCache
        (crc64Bytewise 7 [97, 98]) (crc64Bytewise 0 [99]) ([99] : List UInt8).length.toUInt64 crc64ReversedPoly 64).1 =
          crc64Bytewise 7 ([97, 98] ++ [99]) :=
  ⟨by decide, crc64_fast_paths_eq_bytewise.1 .switch 1024 16384 [] [.setCutoffs 1 1] 0 5 [97, 98, 99] 3 (by decide),
    by decide, crc64_fast_paths_eq_bytewise.2.2.1 .vec2 1024 16384 [.combine 1 2 3] 7 [97, 98] [99] (by decide)⟩

end Kv.Crc
