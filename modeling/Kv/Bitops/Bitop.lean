import Kv.Foundations.Lanes
import Mathlib.Data.List.GetD

/-!
BITOP of bitops.c: the AND, OR or XOR of the strings at the source keys, or the NOT of the one
source, stored at the target key, every string read as padded with zero bytes to the longest and a
missing key read as an empty string. When every source holds at least 32 bytes and there are at
most 16 of them, the code first runs a fast path over blocks of four `unsigned long` words (64-bit
and little-endian on the machines it is built for with the fast path), and finishes with a loop
over bytes that stops combining a byte once AND has made it 0 or OR has made it 0xff.
-/

namespace Kv.Bitops

open Foundations

inductive BitopOp
  | and
  | or
  | xor
  | not
  deriving DecidableEq, Repr

def toLowerByte (c : UInt8) : UInt8 := if 65 ≤ c ∧ c ≤ 90 then c + 32 else c

def strcaseEq (s t : List UInt8) : Bool := (s.takeWhile (· ≠ 0)).map toLowerByte == t.map toLowerByte

def bitopOpName (opname : List UInt8) : Option BitopOp :=
  if strcaseEq opname [97, 110, 100] then some .and
  else if strcaseEq opname [111, 114] then some .or
  else if strcaseEq opname [120, 111, 114] then some .xor
  else if strcaseEq opname [110, 111, 116] then some .not
  else none

def byteOp : BitopOp → UInt8 → UInt8 → UInt8
  | .and, a, b => a &&& b
  | .or, a, b => a ||| b
  | .xor, a, b => a ^^^ b
  | .not, a, _ => ~~~a

def wordOp : BitopOp → UInt64 → UInt64 → UInt64
  | .and, a, b => a &&& b
  | .or, a, b => a ||| b
  | .xor, a, b => a ^^^ b
  | .not, a, _ => ~~~a

def load64 (s : List UInt8) (i : Nat) : UInt64 :=
  UInt64.ofNat (ofLanes 8 ((List.range 8).map fun t => (s.getD (i + t) 0).toNat))

def store64 (s : List UInt8) (i : Nat) (w : UInt64) : List UInt8 :=
  s.mapIdx fun t c => if i ≤ t ∧ t < i + 8 then UInt8.ofNat (lane 8 w.toNat (t - i)) else c

def combineWord (op : BitopOp) (i : Nat) (res s : List UInt8) : List UInt8 :=
  store64 res i (wordOp op (load64 res i) (load64 s i))

def combineBlock (op : BitopOp) (j : Nat) (res s : List UInt8) : List UInt8 :=
  (List.range 4).foldl (fun res k => combineWord op (j + 8 * k) res s) res

def bitopFastBlock (op : BitopOp) (src : List (List UInt8)) (res : List UInt8) (j : Nat) : List UInt8 :=
  if op = .not then combineBlock op j res [] else src.tail.foldl (combineBlock op j) res

def bitopFastLoop (op : BitopOp) (src : List (List UInt8)) : List UInt8 → Nat → Nat → List UInt8 × Nat
  | res, j, 0 => (res, j)
  | res, j, n + 1 => bitopFastLoop op src (bitopFastBlock op src res j) (j + 32) n

def bitopCombine (op : BitopOp) (j : Nat) : UInt8 → List (List UInt8) → UInt8
  | output, [] => output
  | output, s :: rest =>
    let byte := s.getD j 0
    match op with
    | .and =>
      let output := output &&& byte
      if output = 0 then output else bitopCombine op j output rest
    | .or =>
      let output := output ||| byte
      if output = 0xff then output else bitopCombine op j output rest
    | .xor => bitopCombine op j (output ^^^ byte) rest
    | .not => bitopCombine op j output rest

def bitopByte (op : BitopOp) (src : List (List UInt8)) (j : Nat) : UInt8 :=
  let output := (src.headD []).getD j 0
  let output := if op = .not then ~~~output else output
  bitopCombine op j output src.tail

def bitopByteLoop (op : BitopOp) (src : List (List UInt8)) : List UInt8 → Nat → Nat → List UInt8
  | res, _, 0 => res
  | res, j, n + 1 => bitopByteLoop op src (res.set j (bitopByte op src j)) (j + 1) n

def bitopLengths : List (Option (List UInt8)) → Nat → Nat × Nat → Nat × Nat
  | [], _, lengths => lengths
  | none :: rest, j, (maxlen, _) => bitopLengths rest (j + 1) (maxlen, 0)
  | some s :: rest, j, (maxlen, minlen) =>
    bitopLengths rest (j + 1)
      (if s.length > maxlen then s.length else maxlen, if j = 0 ∨ s.length < minlen then s.length else minlen)

structure BitopReply where
  maxlen : Nat
  target : Option (List UInt8)
  deriving DecidableEq, Repr

/-- bitopCommand, from the operation name and the strings at the source keys (none for a missing key). -/
def bitopCommand (opname : List UInt8) (sources : List (Option (List UInt8))) : Except String BitopReply :=
  match bitopOpName opname with
  | none => .error "syntax error"
  | some op =>
    if op = .not ∧ sources.length ≠ 1 then .error "BITOP NOT must be called with a single source key."
    else
      let src := sources.map (·.getD [])
      let (maxlen, minlen) := bitopLengths sources 0 (0, 0)
      if maxlen = 0 then .ok ⟨0, none⟩
      else
        let res := List.replicate maxlen 0
        let (res, j) :=
          if minlen ≥ 32 ∧ sources.length ≤ 16 then
            -- memcpy(res, src[0], minlen), then the blocks
            bitopFastLoop op src ((src.headD []).take minlen ++ res.drop minlen) 0 (minlen / 32)
          else (res, 0)
        .ok ⟨maxlen, some (bitopByteLoop op src res j (maxlen - j))⟩

def bitopReference (op : BitopOp) (src : List (List UInt8)) (j : Nat) : UInt8 :=
  if op = .not then ~~~((src.headD []).getD j 0)
  else src.tail.foldl (fun output s => byteOp op output (s.getD j 0)) ((src.headD []).getD j 0)

section Equations

/-! One equation for each definition the proofs read, so that they cite it and never unfold the definition. -/

variable (op : BitopOp) (src : List (List UInt8))

theorem byteOp_and (a b : UInt8) : byteOp .and a b = a &&& b := rfl

theorem byteOp_or (a b : UInt8) : byteOp .or a b = a ||| b := rfl

theorem load64_def (s : List UInt8) (i : Nat) :
    load64 s i = UInt64.ofNat (ofLanes 8 ((List.range 8).map fun t => (s.getD (i + t) 0).toNat)) := rfl

theorem store64_def (s : List UInt8) (i : Nat) (w : UInt64) :
    store64 s i w = s.mapIdx fun t c => if i ≤ t ∧ t < i + 8 then UInt8.ofNat (lane 8 w.toNat (t - i)) else c := rfl

theorem combineWord_def (i : Nat) (res s : List UInt8) :
    combineWord op i res s = store64 res i (wordOp op (load64 res i) (load64 s i)) := rfl

theorem combineBlock_def (j : Nat) (res s : List UInt8) :
    combineBlock op j res s = (List.range 4).foldl (fun res k => combineWord op (j + 8 * k) res s) res := rfl

theorem bitopFastBlock_def (res : List UInt8) (j : Nat) :
    bitopFastBlock op src res j = if op = .not then combineBlock op j res [] else src.tail.foldl (combineBlock op j) res :=
  rfl

theorem bitopFastLoop_succ (res : List UInt8) (j n : Nat) :
    bitopFastLoop op src res j (n + 1) = bitopFastLoop op src (bitopFastBlock op src res j) (j + 32) n := rfl

theorem bitopCombine_and (j : Nat) (output : UInt8) (s : List UInt8) (rest : List (List UInt8)) :
    bitopCombine .and j output (s :: rest) =
      if output &&& s.getD j 0 = 0 then output &&& s.getD j 0 else bitopCombine .and j (output &&& s.getD j 0) rest :=
  rfl

theorem bitopCombine_or (j : Nat) (output : UInt8) (s : List UInt8) (rest : List (List UInt8)) :
    bitopCombine .or j output (s :: rest) =
      if output ||| s.getD j 0 = 0xff then output ||| s.getD j 0 else bitopCombine .or j (output ||| s.getD j 0) rest :=
  rfl

theorem bitopCombine_xor (j : Nat) (output : UInt8) (s : List UInt8) (rest : List (List UInt8)) :
    bitopCombine .xor j output (s :: rest) = bitopCombine .xor j (output ^^^ s.getD j 0) rest := rfl

theorem bitopByte_def (j : Nat) :
    bitopByte op src j = bitopCombine op j (if op = .not then ~~~((src.headD []).getD j 0) else (src.headD []).getD j 0)
      src.tail := rfl

theorem bitopByteLoop_succ (res : List UInt8) (j n : Nat) :
    bitopByteLoop op src res j (n + 1) = bitopByteLoop op src (res.set j (bitopByte op src j)) (j + 1) n := rfl

theorem bitopLengths_none (rest : List (Option (List UInt8))) (j maxlen minlen : Nat) :
    bitopLengths (none :: rest) j (maxlen, minlen) = bitopLengths rest (j + 1) (maxlen, 0) := rfl

theorem bitopLengths_some (s : List UInt8) (rest : List (Option (List UInt8))) (j maxlen minlen : Nat) :
    bitopLengths (some s :: rest) j (maxlen, minlen) = bitopLengths rest (j + 1)
      (if s.length > maxlen then s.length else maxlen, if j = 0 ∨ s.length < minlen then s.length else minlen) := rfl

theorem bitopReference_def (j : Nat) :
    bitopReference op src j = if op = .not then ~~~((src.headD []).getD j 0)
      else src.tail.foldl (fun output s => byteOp op output (s.getD j 0)) ((src.headD []).getD j 0) := rfl

end Equations

section Words

/-! A word operation acts on the eight bytes of its operands one by one. -/

variable {t : Nat}

theorem loadBytes_lt (s : List UInt8) (i n : Nat) :
    ∀ b ∈ (List.range n).map (fun t => (s.getD (i + t) 0).toNat), b < 2 ^ 8 := by
  intro b mem
  obtain ⟨t, -, rfl⟩ := List.mem_map.mp mem
  exact UInt8.toNat_lt _

theorem lane_load64 (s : List UInt8) (i : Nat) (inside : t < 8) :
    lane 8 (load64 s i).toNat t = (s.getD (i + t) 0).toNat := by
  have small := ofLanes_lt (loadBytes_lt s i 8)
  rw [List.length_map, List.length_range] at small
  rw [load64_def, UInt64.toNat_ofNat', Nat.mod_eq_of_lt small, lane_ofLanes (loadBytes_lt s i 8),
    List.getD_eq_getElem _ _ (by simpa using inside), List.getElem_map, List.getElem_range]

theorem lane_wordOp (op : BitopOp) (a b : UInt64) (inside : t < 8) :
    lane 8 (wordOp op a b).toNat t = (byteOp op (UInt8.ofNat (lane 8 a.toNat t)) (UInt8.ofNat (lane 8 b.toNat t))).toNat := by
  have la : lane 8 a.toNat t % 2 ^ 8 = lane 8 a.toNat t := Nat.mod_eq_of_lt (lane_lt 8 a.toNat t)
  have lb : lane 8 b.toNat t % 2 ^ 8 = lane 8 b.toNat t := Nat.mod_eq_of_lt (lane_lt 8 b.toNat t)
  cases op with
  | and => rw [wordOp, byteOp, UInt64.toNat_and, lane_and, UInt8.toNat_and, UInt8.toNat_ofNat', UInt8.toNat_ofNat', la, lb]
  | or => rw [wordOp, byteOp, UInt64.toNat_or, lane_or, UInt8.toNat_or, UInt8.toNat_ofNat', UInt8.toNat_ofNat', la, lb]
  | xor =>
    rw [wordOp, byteOp, UInt64.toNat_xor, lane_xor, UInt8.toNat_xor, UInt8.toNat_ofNat', UInt8.toNat_ofNat', la, lb]
  | not =>
    -- the complement in 64 bits complements each byte lane in 8
    rw [wordOp, byteOp, UInt64.toNat_not, UInt8.toNat_not, UInt8.toNat_ofNat', la]
    exact lane_complement a.toNat_lt (by omega)

theorem length_store64 (s : List UInt8) (i : Nat) (w : UInt64) : (store64 s i w).length = s.length :=
  List.length_mapIdx

theorem getD_store64 (s : List UInt8) (i : Nat) (w : UInt64) (t : Nat) :
    (store64 s i w).getD t 0 =
      if i ≤ t ∧ t < i + 8 ∧ t < s.length then UInt8.ofNat (lane 8 w.toNat (t - i)) else s.getD t 0 := by
  rw [List.getD_eq_getElem?_getD, store64_def, List.getElem?_mapIdx]
  by_cases inside : t < s.length
  · rw [List.getElem?_eq_getElem inside, Option.map_some, Option.getD_some, List.getD_eq_getElem _ _ inside]
    by_cases word : i ≤ t ∧ t < i + 8
    · rw [if_pos word, if_pos ⟨word.1, word.2, inside⟩]
    · rw [if_neg word, if_neg fun all => word ⟨all.1, all.2.1⟩]
  · rw [List.getElem?_eq_none (by omega), Option.map_none, Option.getD_none, List.getD_eq_default _ _ (by omega),
      if_neg fun all => inside all.2.2]

theorem length_combineWord (op : BitopOp) (i : Nat) (res s : List UInt8) : (combineWord op i res s).length = res.length :=
  length_store64 _ _ _

theorem getD_combineWord (op : BitopOp) (i : Nat) (res s : List UInt8) (t : Nat) :
    (combineWord op i res s).getD t 0 =
      if i ≤ t ∧ t < i + 8 ∧ t < res.length then byteOp op (res.getD t 0) (s.getD t 0) else res.getD t 0 := by
  rw [combineWord_def, getD_store64]
  split
  · next word =>
    obtain ⟨low, high, -⟩ := word
    have offset : i + (t - i) = t := by omega
    rw [← UInt8.toNat_inj, UInt8.toNat_ofNat', Nat.mod_eq_of_lt (lane_lt _ _ _), lane_wordOp op _ _ (by omega),
      lane_load64 _ _ (by omega), lane_load64 _ _ (by omega), offset, UInt8.ofNat_toNat, UInt8.ofNat_toNat]
  · rfl

end Words

section Blocks

variable (op : BitopOp) (src : List (List UInt8))

theorem length_combineBlock (j : Nat) (res s : List UInt8) : (combineBlock op j res s).length = res.length := by
  rw [combineBlock_def]
  induction (List.range 4) using List.reverseRecOn with
  | nil => rfl
  | append_singleton ks k ih => rw [List.foldl_append, List.foldl_cons, List.foldl_nil, length_combineWord, ih]

theorem getD_combineBlock (j : Nat) (res s : List UInt8) (t : Nat) :
    (combineBlock op j res s).getD t 0 =
      if j ≤ t ∧ t < j + 32 ∧ t < res.length then byteOp op (res.getD t 0) (s.getD t 0) else res.getD t 0 := by
  -- the first `k` words of the block, by induction on `k`
  have words : ∀ k, ((List.range k).foldl (fun res q => combineWord op (j + 8 * q) res s) res).length = res.length ∧
      ((List.range k).foldl (fun res q => combineWord op (j + 8 * q) res s) res).getD t 0 =
        if j ≤ t ∧ t < j + 8 * k ∧ t < res.length then byteOp op (res.getD t 0) (s.getD t 0) else res.getD t 0 := by
    intro k
    induction k with
    | zero => exact ⟨rfl, by rw [if_neg (by omega)]; rfl⟩
    | succ k ih =>
      rw [List.range_succ, List.foldl_append, List.foldl_cons, List.foldl_nil, length_combineWord, getD_combineWord,
        ih.1, ih.2]
      refine ⟨rfl, ?_⟩
      split_ifs <;> first | rfl | omega
  exact (words 4).2

def blockByte (res : List UInt8) (t : Nat) : UInt8 :=
  if op = .not then ~~~(res.getD t 0) else src.tail.foldl (fun output s => byteOp op output (s.getD t 0)) (res.getD t 0)

theorem blockByte_def (res : List UInt8) (t : Nat) : blockByte op src res t =
    if op = .not then ~~~(res.getD t 0) else src.tail.foldl (fun output s => byteOp op output (s.getD t 0)) (res.getD t 0) :=
  rfl

theorem length_bitopFastBlock (res : List UInt8) (j : Nat) : (bitopFastBlock op src res j).length = res.length := by
  rw [bitopFastBlock_def]
  split
  · exact length_combineBlock op j res []
  · induction src.tail generalizing res with
    | nil => rfl
    | cons s rest ih => rw [List.foldl_cons, ih, length_combineBlock]

theorem getD_bitopFastBlock {res : List UInt8} {j : Nat} (fits : j + 32 ≤ res.length) (t : Nat) :
    (bitopFastBlock op src res j).getD t 0 = if j ≤ t ∧ t < j + 32 then blockByte op src res t else res.getD t 0 := by
  rw [bitopFastBlock_def, blockByte_def]
  by_cases complement : op = .not
  · subst complement
    rw [if_pos rfl, if_pos rfl, getD_combineBlock]
    split_ifs <;> first | rfl | omega
  · rw [if_neg complement]
    simp only [if_neg complement]
    -- the sources after the first, one block step each
    induction src.tail generalizing res with
    | nil => split_ifs <;> rfl
    | cons s rest ih =>
      rw [List.foldl_cons, ih (by rwa [length_combineBlock]), getD_combineBlock, List.foldl_cons]
      split_ifs <;> first | rfl | omega

theorem bitopFastLoop_spec (n : Nat) : ∀ (res : List UInt8) (j : Nat), j + 32 * n ≤ res.length →
    (∀ t, j ≤ t → t < j + 32 * n → res.getD t 0 = (src.headD []).getD t 0) →
    (bitopFastLoop op src res j n).2 = j + 32 * n ∧ (bitopFastLoop op src res j n).1.length = res.length ∧
      ∀ t, (bitopFastLoop op src res j n).1.getD t 0 =
        if j ≤ t ∧ t < j + 32 * n then bitopReference op src t else res.getD t 0 := by
  induction n with
  | zero => intro res j _ _; exact ⟨rfl, rfl, fun t => by rw [if_neg (by omega)]; rfl⟩
  | succ n ih =>
    intro res j fits copied
    have block := getD_bitopFastBlock op src (show j + 32 ≤ res.length by omega)
    -- the rest of the loop reads bytes the first block left as they were
    have rest := ih (bitopFastBlock op src res j) (j + 32) (by rw [length_bitopFastBlock]; omega) fun t low high => by
      rw [block, if_neg (by omega)]
      exact copied t (by omega) (by omega)
    obtain ⟨next, length, bytes⟩ := rest
    refine ⟨by rw [bitopFastLoop_succ, next]; ring, by rw [bitopFastLoop_succ, length, length_bitopFastBlock], fun t => ?_⟩
    rw [bitopFastLoop_succ, bytes, block]
    by_cases first : j ≤ t ∧ t < j + 32
    · have reference : blockByte op src res t = bitopReference op src t := by
        rw [blockByte_def, bitopReference_def, copied t first.1 (by omega)]
      rw [if_neg (by omega), if_pos first, reference, if_pos (by omega)]
    · split_ifs <;> first | rfl | omega

end Blocks

section Bytes

/-! The byte loop: its early exit, and what it leaves from the byte it starts at. -/

variable {op : BitopOp}

theorem bitopCombine_eq_foldl (notNot : op ≠ .not) (j : Nat) (output : UInt8) (rest : List (List UInt8)) :
    bitopCombine op j output rest = rest.foldl (fun output s => byteOp op output (s.getD j 0)) output := by
  induction rest generalizing output with
  | nil => rfl
  | cons s rest ih =>
    rw [List.foldl_cons]
    cases op with
    | and =>
      rw [bitopCombine_and]
      by_cases zero : output &&& s.getD j 0 = 0
      · rw [if_pos zero, byteOp_and, zero]
        symm
        refine List.foldl_fixed' (fun _ => ?_) rest
        exact UInt8.zero_and
      · rw [if_neg zero, ih]
        rfl
    | or =>
      rw [bitopCombine_or]
      by_cases full : output ||| s.getD j 0 = 0xff
      · have absorbs : ∀ b : UInt8, byteOp .or 0xff b = 0xff := fun _ => UInt8.neg_one_or
        rw [if_pos full, byteOp_or, full]
        symm
        refine List.foldl_fixed' (fun _ => ?_) rest
        exact absorbs _
      · rw [if_neg full, ih]
        rfl
    | xor =>
      rw [bitopCombine_xor, ih]
      rfl
    | not => exact absurd rfl notNot

theorem bitopByte_eq_reference {src : List (List UInt8)} (arity : op = .not → src.length = 1) (j : Nat) :
    bitopByte op src j = bitopReference op src j := by
  by_cases complement : op = .not
  · obtain ⟨s, rfl⟩ := List.length_eq_one_iff.mp (arity complement)
    subst complement
    rfl
  · rw [bitopByte_def, bitopReference_def, if_neg complement, if_neg complement]
    exact bitopCombine_eq_foldl complement j _ _

theorem getD_set_eq {α : Type} (l : List α) (i t : Nat) (a d : α) :
    (l.set i a).getD t d = if i = t ∧ i < l.length then a else l.getD t d := by
  rw [List.getD_eq_getElem?_getD, List.getElem?_set, List.getD_eq_getElem?_getD]
  by_cases same : i = t
  · by_cases inside : i < l.length
    · rw [if_pos same, if_pos inside, if_pos ⟨same, inside⟩, Option.getD_some]
    · rw [if_pos same, if_neg inside, if_neg fun both => inside both.2, ← same,
        List.getElem?_eq_none (by omega)]
  · rw [if_neg same, if_neg fun both => same both.1]

variable (op : BitopOp) (src : List (List UInt8))

theorem bitopByteLoop_spec (n : Nat) : ∀ (res : List UInt8) (j : Nat),
    (bitopByteLoop op src res j n).length = res.length ∧ ∀ t, (bitopByteLoop op src res j n).getD t 0 =
      if j ≤ t ∧ t < j + n ∧ t < res.length then bitopByte op src t else res.getD t 0 := by
  induction n with
  | zero => intro res j; exact ⟨rfl, fun t => by rw [if_neg (by omega)]; rfl⟩
  | succ n ih =>
    intro res j
    obtain ⟨length, bytes⟩ := ih (res.set j (bitopByte op src j)) (j + 1)
    refine ⟨by rw [bitopByteLoop_succ, length, List.length_set], fun t => ?_⟩
    rw [bitopByteLoop_succ, bytes, List.length_set, getD_set_eq]
    by_cases here : j = t
    · subst here
      split_ifs <;> first | rfl | omega
    · split_ifs <;> first | rfl | omega

theorem eq_of_getD_eq {l l' : List UInt8} (length : l.length = l'.length)
    (bytes : ∀ t < l.length, l.getD t 0 = l'.getD t 0) : l = l' := by
  apply List.ext_getElem length
  intro t inside inside'
  rw [← List.getD_eq_getElem _ 0 inside, ← List.getD_eq_getElem _ 0 inside', bytes t inside]

theorem bitopByteLoop_finish (arity : op = .not → src.length = 1) {res : List UInt8} {j : Nat} (before : j ≤ res.length)
    (done : ∀ t < j, res.getD t 0 = bitopReference op src t) :
    bitopByteLoop op src res j (res.length - j) = (List.range res.length).map (bitopReference op src) := by
  obtain ⟨length, bytes⟩ := bitopByteLoop_spec op src (res.length - j) res j
  apply eq_of_getD_eq (by rw [length, List.length_map, List.length_range])
  intro t inside
  rw [length] at inside
  rw [bytes, List.getD_eq_getElem ((List.range res.length).map (bitopReference op src)) 0 (by simpa using inside),
    List.getElem_map, List.getElem_range]
  by_cases late : j ≤ t
  · rw [if_pos ⟨late, by omega, inside⟩, bitopByte_eq_reference arity]
  · rw [if_neg fun all => late all.1, done t (by omega)]

end Bytes

section Lengths

/-! The loop over the keys: maxlen is the longest string, and minlen is at most the length of every string. -/

theorem le_foldl_max (l : List Nat) (m : Nat) : m ≤ l.foldl max m ∧ ∀ x ∈ l, x ≤ l.foldl max m := by
  induction l generalizing m with
  | nil => exact ⟨le_refl m, fun x mem => absurd mem List.not_mem_nil⟩
  | cons y l ih =>
    obtain ⟨start, rest⟩ := ih (max m y)
    refine ⟨le_trans (le_max_left m y) start, fun x mem => ?_⟩
    rcases List.mem_cons.mp mem with rfl | later
    · exact le_trans (le_max_right m x) start
    · exact rest x later

theorem bitopLengths_fst (sources : List (Option (List UInt8))) (j m n : Nat) :
    (bitopLengths sources j (m, n)).1 = (sources.map fun o => (o.getD []).length).foldl max m := by
  induction sources generalizing j m n with
  | nil => rfl
  | cons o rest ih =>
    cases o with
    | none => rw [bitopLengths_none, ih, List.map_cons, List.foldl_cons, Option.getD_none, List.length_nil, Nat.max_zero]
    | some s =>
      rw [bitopLengths_some, ih, List.map_cons, List.foldl_cons, Option.getD_some]
      congr 1
      split <;> omega

theorem bitopLengths_snd_le_start (sources : List (Option (List UInt8))) {j : Nat} (later : 0 < j) (m n : Nat) :
    (bitopLengths sources j (m, n)).2 ≤ n := by
  induction sources generalizing j m n with
  | nil => exact le_refl n
  | cons o rest ih =>
    cases o with
    | none => exact le_trans (ih (by omega) m 0) (Nat.zero_le n)
    | some s =>
      rw [bitopLengths_some]
      refine le_trans (ih (by omega) _ _) ?_
      split <;> omega

theorem bitopLengths_snd_le {sources : List (Option (List UInt8))} {o : Option (List UInt8)} (mem : o ∈ sources)
    (j m n : Nat) : (bitopLengths sources j (m, n)).2 ≤ (o.getD []).length := by
  induction sources generalizing j m n with
  | nil => exact absurd mem List.not_mem_nil
  | cons o' rest ih =>
    rcases List.mem_cons.mp mem with rfl | later
    · cases o with
      | none => exact bitopLengths_snd_le_start rest (by omega) m 0
      | some s =>
        rw [bitopLengths_some]
        refine le_trans (bitopLengths_snd_le_start rest (by omega) _ _) ?_
        split <;> simp only [Option.getD_some] <;> omega
    · cases o' with
      | none => exact ih later _ _ _
      | some s => exact ih later _ _ _

end Lengths

section Command

theorem bitopCommand_eq_reference {opname : List UInt8} {op : BitopOp} (parse : bitopOpName opname = some op)
    (sources : List (Option (List UInt8))) (arity : op = .not → sources.length = 1) :
    let src := sources.map (·.getD [])
    let maxlen := (src.map List.length).foldl max 0
    bitopCommand opname sources =
      .ok ⟨maxlen, if maxlen = 0 then none else some ((List.range maxlen).map (bitopReference op src))⟩ := by
  intro src maxlen
  have notArity : ¬(op = .not ∧ sources.length ≠ 1) := fun ⟨complement, other⟩ => other (arity complement)
  have srcArity : op = .not → src.length = 1 := fun complement => by rw [List.length_map]; exact arity complement
  have longest : (bitopLengths sources 0 (0, 0)).1 = maxlen := by
    rw [bitopLengths_fst]
    simp only [maxlen, src, List.map_map]
    rfl
  have shortest : ∀ s ∈ src, (bitopLengths sources 0 (0, 0)).2 ≤ s.length := by
    intro s mem
    obtain ⟨o, mem', rfl⟩ := List.mem_map.mp mem
    exact bitopLengths_snd_le mem' 0 0 0
  rw [bitopCommand, parse]
  dsimp only
  rw [if_neg notArity]
  generalize bitopLengths sources 0 (0, 0) = lengths at longest shortest
  obtain ⟨maxlen', minlen⟩ := lengths
  dsimp only at longest shortest ⊢
  subst longest
  by_cases empty : maxlen = 0
  · rw [if_pos empty, if_pos empty, empty]
  rw [if_neg empty, if_neg empty]
  -- the first source is no longer than the result, and minlen no longer than the first source
  have nonempty : src ≠ [] := fun none => empty (by show (src.map List.length).foldl max 0 = 0; rw [none]; rfl)
  have headMem : src.headD [] ∈ src := by
    obtain ⟨s, rest, eq⟩ := List.exists_cons_of_ne_nil nonempty
    rw [eq]
    exact List.mem_cons_self
  have firstLong : (src.headD []).length ≤ maxlen := (le_foldl_max _ 0).2 _ (List.mem_map.mpr ⟨_, headMem, rfl⟩)
  have minFirst : minlen ≤ (src.headD []).length := shortest _ headMem
  by_cases fast : minlen ≥ 32 ∧ sources.length ≤ 16
  · rw [if_pos fast]
    -- memcpy(res, src[0], minlen) leaves the first source's bytes below minlen
    have start : ((src.headD []).take minlen ++ (List.replicate maxlen (0 : UInt8)).drop minlen).length = maxlen := by
      simp only [List.length_append, List.length_take, List.length_drop, List.length_replicate]
      omega
    have copied : ∀ t, 0 ≤ t → t < 0 + 32 * (minlen / 32) →
        ((src.headD []).take minlen ++ (List.replicate maxlen 0).drop minlen).getD t 0 = (src.headD []).getD t 0 := by
      intro t _ below
      have inside : t < ((src.headD []).take minlen).length := by
        rw [List.length_take]
        omega
      rw [List.getD_append _ _ _ _ inside, List.getD_eq_getElem?_getD, List.getElem?_take_of_lt (by omega),
        ← List.getD_eq_getElem?_getD]
    obtain ⟨next, length, bytes⟩ := bitopFastLoop_spec op src (minlen / 32) _ 0 (by rw [start]; omega) copied
    generalize bitopFastLoop op src _ 0 (minlen / 32) = fastResult at next length bytes
    obtain ⟨res, j⟩ := fastResult
    dsimp only at next length bytes ⊢
    rw [start] at length
    have done : ∀ t < j, res.getD t 0 = bitopReference op src t := fun t below => by
      rw [bytes, if_pos ⟨Nat.zero_le t, by omega⟩]
    rw [← length, bitopByteLoop_finish op src srcArity (by omega) done]
  · rw [if_neg fast]
    dsimp only
    have finish := bitopByteLoop_finish op src srcArity (Nat.zero_le (List.replicate maxlen (0 : UInt8)).length)
      fun t below => absurd below (Nat.not_lt_zero t)
    rw [List.length_replicate] at finish
    rw [finish]

/-- BITOP computes the plain byte-by-byte operation, and its fast path reads inside every source: minlen, the bytes
it copies from the first source and the bound of its word loads, is at most the length of every source, a missing
key making it 0. -/
theorem bitopCommand_spec {opname : List UInt8} {op : BitopOp} (parse : bitopOpName opname = some op)
    (sources : List (Option (List UInt8))) (arity : op = .not → sources.length = 1) :
    let src := sources.map (·.getD [])
    let maxlen := (src.map List.length).foldl max 0
    bitopCommand opname sources =
        .ok ⟨maxlen, if maxlen = 0 then none else some ((List.range maxlen).map (bitopReference op src))⟩ ∧
      ∀ s ∈ src, (bitopLengths sources 0 (0, 0)).2 ≤ s.length := by
  intro src maxlen
  refine ⟨bitopCommand_eq_reference parse sources arity, fun s mem => ?_⟩
  obtain ⟨o, mem', rfl⟩ := List.mem_map.mp mem
  exact bitopLengths_snd_le mem' 0 0 0

theorem bitopCommand_spec_xor :
    bitopOpName [120, 111, 114] = some .xor ∧ (BitopOp.xor = .not → [some [1, 2], none].length = 1) ∧
      (bitopCommand [120, 111, 114] [some [1, 2], none] =
          .ok ⟨2, some ((List.range 2).map (bitopReference .xor [[1, 2], []]))⟩ ∧
        ∀ s ∈ ([[1, 2], []] : List (List UInt8)), (bitopLengths [some [1, 2], none] 0 (0, 0)).2 ≤ s.length) :=
  ⟨rfl, fun h => absurd h (by decide), bitopCommand_spec rfl _ fun h => absurd h (by decide)⟩

end Command

end Kv.Bitops
