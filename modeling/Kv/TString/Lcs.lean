import Kv.Foundations.Subsequence
import Kv.Foundations.Run
import Kv.Bitops.Bitop
import Kv.Util.Conversions

/-!
LCS of t_string.c: the longest common subsequence of the strings at two keys,
by the textbook dynamic programme. The table `LCS(i, j)` of `uint32_t` cells is
one allocation read row after row, `blen + 1` cells a row, filled in that order
from memory `ztrymalloc` leaves uninitialized; cell `(i, j)` is the length of a
longest common subsequence of the first `i` bytes of `a` and the first `j` of
`b`. The answer is then walked back from the last cell: a match takes the byte
into the result, written from its end, and otherwise the walk goes towards the
larger neighbour. With IDX the walk also reports the maximal runs of matches
it passes, as ranges of both strings.
-/

namespace Kv.TString

open Foundations Kv.Bitops Kv.Util

inductive LcsKey
  | missing
  | string (bytes : List UInt8)
  | other
  deriving DecidableEq, Repr

def lcsKeyString : LcsKey → Option (List UInt8)
  | .missing => some []
  | .string bytes => some bytes
  | .other => none

structure LcsOptions where
  getidx : Bool
  getlen : Bool
  withmatchlen : Bool
  minmatchlen : Int64
  deriving DecidableEq, Repr

def lcsNoOptions : LcsOptions := ⟨false, false, false, 0⟩

def lcsIdx : List UInt8 := [73, 68, 88]
def lcsLen : List UInt8 := [76, 69, 78]
def lcsWithMatchLen : List UInt8 := [87, 73, 84, 72, 77, 65, 84, 67, 72, 76, 69, 78]
def lcsMinMatchLen : List UInt8 := [77, 73, 78, 77, 65, 84, 67, 72, 76, 69, 78]

def lcsParseOptions (opts : LcsOptions) : List (List UInt8) → Except String LcsOptions
  | [] => .ok opts
  | opt :: more =>
    if strcaseEq opt lcsIdx then lcsParseOptions { opts with getidx := true } more
    else if strcaseEq opt lcsLen then lcsParseOptions { opts with getlen := true } more
    else if strcaseEq opt lcsWithMatchLen then lcsParseOptions { opts with withmatchlen := true } more
    else
      match more with
      | arg :: rest =>
        if strcaseEq opt lcsMinMatchLen then
          match string2ll arg with
          | none => .error "value is not an integer or out of range"
          | some v => lcsParseOptions { opts with minmatchlen := if v < 0 then 0 else v } rest
        else .error "syntax error"
      | [] => .error "syntax error"

section Table

def lcsAt (lcs : List UInt32) (blen i j : Nat) : UInt32 := lcs.getD (j + i * (blen + 1)) 0

def lcsCellValue (a b : List UInt8) (lcs : List UInt32) (i j : Nat) : UInt32 :=
  if i = 0 ∨ j = 0 then 0
  else if a.getD (i - 1) 0 = b.getD (j - 1) 0 then lcsAt lcs b.length (i - 1) (j - 1) + 1
  else
    let lcs1 := lcsAt lcs b.length (i - 1) j
    let lcs2 := lcsAt lcs b.length i (j - 1)
    if lcs1 > lcs2 then lcs1 else lcs2

def lcsFillCell (a b : List UInt8) (lcs : List UInt32) (i j : Nat) : List UInt32 :=
  lcs.set (j + i * (b.length + 1)) (lcsCellValue a b lcs i j)

def lcsFillRow (a b : List UInt8) (lcs : List UInt32) (i : Nat) : List UInt32 :=
  (List.range (b.length + 1)).foldl (fun lcs j => lcsFillCell a b lcs i j) lcs

def lcsFillTable (a b : List UInt8) (lcs : List UInt32) : List UInt32 :=
  (List.range (a.length + 1)).foldl (fun lcs i => lcsFillRow a b lcs i) lcs

theorem lcsAt_def (lcs : List UInt32) (blen i j : Nat) : lcsAt lcs blen i j = lcs.getD (j + i * (blen + 1)) 0 := rfl

theorem lcsFillCell_def (a b : List UInt8) (lcs : List UInt32) (i j : Nat) :
    lcsFillCell a b lcs i j = lcs.set (j + i * (b.length + 1)) (lcsCellValue a b lcs i j) := rfl

theorem lcsFillRow_def (a b : List UInt8) (lcs : List UInt32) (i : Nat) :
    lcsFillRow a b lcs i = (List.range (b.length + 1)).foldl (fun lcs j => lcsFillCell a b lcs i j) lcs := rfl

theorem lcsFillTable_def (a b : List UInt8) (lcs : List UInt32) :
    lcsFillTable a b lcs = (List.range (a.length + 1)).foldl (fun lcs i => lcsFillRow a b lcs i) lcs := rfl

end Table

section Filling

variable {a b : List UInt8} {lcs : List UInt32}

theorem cellIndex_lt {alen blen i j : Nat} (row : i ≤ alen) (col : j ≤ blen) :
    j + i * (blen + 1) < (alen + 1) * (blen + 1) := by
  have rows : (i + 1) * (blen + 1) ≤ (alen + 1) * (blen + 1) := Nat.mul_le_mul_right _ (by omega)
  rw [Nat.succ_mul] at rows
  omega

theorem cellIndex_inj {blen i j i' j' : Nat} (col : j ≤ blen) (col' : j' ≤ blen)
    (same : j + i * (blen + 1) = j' + i' * (blen + 1)) : i = i' ∧ j = j' := by
  have row : ∀ {r c}, c ≤ blen → (c + r * (blen + 1)) / (blen + 1) = r := fun {r c} inside => by
    rw [Nat.add_mul_div_right _ _ (by omega), Nat.div_eq_of_lt (by omega), Nat.zero_add]
  have column : ∀ {r c}, c ≤ blen → (c + r * (blen + 1)) % (blen + 1) = c := fun {r c} inside => by
    rw [Nat.add_mul_mod_self_right, Nat.mod_eq_of_lt (by omega)]
  have rows := row (r := i) col
  have rows' := row (r := i') col'
  have columns := column (r := i) col
  have columns' := column (r := i') col'
  exact ⟨by rw [← rows, same, rows'], by rw [← columns, same, columns']⟩

theorem lcsAt_set {blen i j i' j' : Nat} (v : UInt32) (col : j ≤ blen) (col' : j' ≤ blen)
    (inside : j + i * (blen + 1) < lcs.length) :
    lcsAt (lcs.set (j + i * (blen + 1)) v) blen i' j' = if i' = i ∧ j' = j then v else lcsAt lcs blen i' j' := by
  rw [lcsAt_def, lcsAt_def, List.getD_eq_getElem?_getD, List.getD_eq_getElem?_getD, List.getElem?_set]
  by_cases here : i' = i ∧ j' = j
  · rw [if_pos here, here.1, here.2, if_pos rfl, if_pos inside]
    rfl
  · have apart : j + i * (blen + 1) ≠ j' + i' * (blen + 1) := fun same => by
      obtain ⟨rfl, rfl⟩ := cellIndex_inj col col' same
      exact here ⟨rfl, rfl⟩
    rw [if_neg apart, if_neg here]

structure LcsFilled (a b : List UInt8) (lcs : List UInt32) (i j : Nat) : Prop where
  length_eq : lcs.length = (a.length + 1) * (b.length + 1)
  cells : ∀ i' j', j' ≤ b.length → (i' < i ∨ i' = i ∧ j' < j) →
    IsLcsLength (a.take i') (b.take j') (lcsAt lcs b.length i' j').toNat

theorem take_succ_getD {l : List UInt8} {n : Nat} (inside : n < l.length) : l.take (n + 1) = l.take n ++ [l.getD n 0] := by
  rw [List.take_succ_eq_append_getElem inside, List.getD_eq_getElem _ _ inside]

theorem lcsCellValue_spec {i j : Nat} (short : a.length < 2 ^ 32) (row : i ≤ a.length) (col : j ≤ b.length)
    (filled : LcsFilled a b lcs i j) : IsLcsLength (a.take i) (b.take j) (lcsCellValue a b lcs i j).toNat := by
  rcases Nat.eq_zero_or_pos i with rfl | rowPos
  · rw [lcsCellValue, if_pos (.inl rfl), List.take_zero]
    exact IsLcsLength.nil_left _
  rcases Nat.eq_zero_or_pos j with rfl | colPos
  · rw [lcsCellValue, if_pos (.inr rfl), List.take_zero]
    exact IsLcsLength.nil_right _
  obtain ⟨i, rfl⟩ : ∃ k, i = k + 1 := ⟨i - 1, by omega⟩
  obtain ⟨j, rfl⟩ : ∃ k, j = k + 1 := ⟨j - 1, by omega⟩
  rw [lcsCellValue, if_neg (by omega), Nat.add_sub_cancel, Nat.add_sub_cancel, take_succ_getD (by omega),
    take_succ_getD (by omega)]
  split
  · -- a match extends the diagonal cell, which is at most `i < 2 ^ 32 - 1`, so the add does not wrap
    rename_i same
    have diagonal := filled.cells i j (by omega) (.inl (by omega))
    have small := diagonal.le_length_left
    rw [List.length_take] at small
    have noWrap : (lcsAt lcs b.length i j + 1).toNat = (lcsAt lcs b.length i j).toNat + 1 := by
      rw [UInt32.toNat_add, UInt32.toNat_one]
      exact Nat.mod_eq_of_lt (by omega)
    rw [noWrap, same]
    exact diagonal.concat_same _
  · -- a mismatch takes the larger of the cell above and the cell to the left
    rename_i differ
    have above := filled.cells i (j + 1) col (.inl (by omega))
    have left := filled.cells (i + 1) j (by omega) (.inr ⟨rfl, by omega⟩)
    rw [take_succ_getD (by omega)] at above
    rw [take_succ_getD (by omega)] at left
    have larger : ∀ x y : UInt32, (if x > y then x else y).toNat = max x.toNat y.toNat := fun x y => by
      by_cases bigger : x > y
      · rw [if_pos bigger, Nat.max_eq_left (Nat.le_of_lt (UInt32.lt_iff_toNat_lt.mp bigger))]
      · rw [if_neg bigger, Nat.max_eq_right (Nat.le_of_not_lt fun lt => bigger (UInt32.lt_iff_toNat_lt.mpr lt))]
    simp only
    rw [larger]
    exact IsLcsLength.concat_ne differ above left

theorem LcsFilled.fillCell {i j : Nat} (short : a.length < 2 ^ 32) (row : i ≤ a.length) (col : j ≤ b.length)
    (filled : LcsFilled a b lcs i j) : LcsFilled a b (lcsFillCell a b lcs i j) i (j + 1) where
  length_eq := by rw [lcsFillCell_def, List.length_set, filled.length_eq]
  cells := by
    intro i' j' col' before
    have inside : j + i * (b.length + 1) < lcs.length := filled.length_eq ▸ cellIndex_lt row col
    rw [lcsFillCell_def, lcsAt_set _ col col' inside]
    split
    · rename_i here
      rw [here.1, here.2]
      exact lcsCellValue_spec short row col filled
    · rename_i other
      exact filled.cells i' j' col' (by omega)

theorem LcsFilled.fillRow {i : Nat} (short : a.length < 2 ^ 32) (row : i ≤ a.length)
    (filled : LcsFilled a b lcs i 0) : LcsFilled a b (lcsFillRow a b lcs i) (i + 1) 0 := by
  have done : LcsFilled a b (lcsFillRow a b lcs i) i (b.length + 1) := by
    rw [lcsFillRow_def]
    exact foldl_range_invariant (fun j t => LcsFilled a b t i j) filled
      fun j t below inv => inv.fillCell short row (by omega)
  exact ⟨done.length_eq, fun i' j' col' before => done.cells i' j' col' (by omega)⟩

theorem lcsFillTable_spec (short : a.length < 2 ^ 32) (size : lcs.length = (a.length + 1) * (b.length + 1))
    {i j : Nat} (row : i ≤ a.length) (col : j ≤ b.length) :
    IsLcsLength (a.take i) (b.take j) (lcsAt (lcsFillTable a b lcs) b.length i j).toNat := by
  have start : LcsFilled a b lcs 0 0 := ⟨size, fun _ _ _ before => absurd before (by omega)⟩
  have done : LcsFilled a b (lcsFillTable a b lcs) (a.length + 1) 0 := by
    rw [lcsFillTable_def]
    exact foldl_range_invariant (fun i t => LcsFilled a b t i 0) start
      fun i t below inv => inv.fillRow short (by omega)
  exact done.cells i j col (.inl (by omega))

def LcsTable (a b : List UInt8) (lcs : List UInt32) : Prop :=
  ∀ i j, i ≤ a.length → j ≤ b.length → IsLcsLength (a.take i) (b.take j) (lcsAt lcs b.length i j).toNat

theorem lcsFillTable_table (short : a.length < 2 ^ 32) (size : lcs.length = (a.length + 1) * (b.length + 1)) :
    LcsTable a b (lcsFillTable a b lcs) :=
  fun _ _ row col => lcsFillTable_spec short size row col

end Filling

section Walk

structure LcsTrack where
  arangeStart : Nat
  arangeEnd : Nat
  brangeStart : Nat
  brangeEnd : Nat
  deriving DecidableEq, Repr

structure LcsRange where
  aStart : Nat
  aEnd : Nat
  bStart : Nat
  bEnd : Nat
  matchLen : Option Nat
  deriving DecidableEq, Repr

def LcsRange.length (r : LcsRange) : Nat := r.aEnd - r.aStart + 1

def LcsTrack.range (t : LcsTrack) (withmatchlen : Bool) : LcsRange :=
  ⟨t.arangeStart, t.arangeEnd, t.brangeStart, t.brangeEnd,
    if withmatchlen then some (t.arangeEnd - t.arangeStart + 1) else none⟩

def lcsLongEnough (opts : LcsOptions) (r : LcsRange) : Bool :=
  decide (opts.minmatchlen = 0 ∨ opts.minmatchlen.toInt ≤ (r.length : Int))

structure LcsWalk where
  i : Nat
  j : Nat
  idx : Nat
  result : List UInt8
  track : LcsTrack
  ranges : List LcsRange

def lcsTrackMatch (alen i j : Nat) (t : LcsTrack) : LcsTrack × Bool :=
  let fresh := t.arangeStart = alen
  let contiguous := t.arangeStart = i ∧ t.brangeStart = j
  let tracked : LcsTrack :=
    if fresh then ⟨i - 1, i - 1, j - 1, j - 1⟩
    else if contiguous then { t with arangeStart := t.arangeStart - 1, brangeStart := t.brangeStart - 1 }
    else t
  (tracked, decide ((¬fresh ∧ ¬contiguous) ∨ tracked.arangeStart = 0 ∨ tracked.brangeStart = 0))

def lcsEmitRange (alen : Nat) (opts : LcsOptions) (emit : Bool) (t : LcsTrack) (ranges : List LcsRange) :
    LcsTrack × List LcsRange :=
  if emit then
    let replied :=
      if opts.getidx ∧ lcsLongEnough opts (t.range opts.withmatchlen) then ranges ++ [t.range opts.withmatchlen]
      else ranges
    ({ t with arangeStart := alen }, replied)
  else (t, ranges)

def lcsWalkStep (a b : List UInt8) (lcs : List UInt32) (opts : LcsOptions) (st : LcsWalk) : LcsWalk :=
  if a.getD (st.i - 1) 0 = b.getD (st.j - 1) 0 then
    -- the byte is stored at the end of what is left of the result
    let tracked := lcsTrackMatch a.length st.i st.j st.track
    let emitted := lcsEmitRange a.length opts tracked.2 tracked.1 st.ranges
    ⟨st.i - 1, st.j - 1, st.idx - 1, st.result.set (st.idx - 1) (a.getD (st.i - 1) 0), emitted.1, emitted.2⟩
  else
    -- towards the larger of the cells above and to the left; a tracked range ends here
    let lcs1 := lcsAt lcs b.length (st.i - 1) st.j
    let lcs2 := lcsAt lcs b.length st.i (st.j - 1)
    let emitted := lcsEmitRange a.length opts (decide (st.track.arangeStart ≠ a.length)) st.track st.ranges
    if lcs1 > lcs2 then ⟨st.i - 1, st.j, st.idx, st.result, emitted.1, emitted.2⟩
    else ⟨st.i, st.j - 1, st.idx, st.result, emitted.1, emitted.2⟩

def lcsWalkLoop (a b : List UInt8) (lcs : List UInt32) (opts : LcsOptions) : Nat → LcsWalk → LcsWalk
  | 0, st => st
  | fuel + 1, st => if 0 < st.i ∧ 0 < st.j then lcsWalkLoop a b lcs opts fuel (lcsWalkStep a b lcs opts st) else st

def lcsWalkStart (a b : List UInt8) (lcs : List UInt32) (junk : Nat → UInt8) : LcsWalk :=
  let n := (lcsAt lcs b.length a.length b.length).toNat
  ⟨a.length, b.length, n, (List.range n).map junk, ⟨a.length, 0, 0, 0⟩, []⟩

theorem lcsTrackMatch_def (alen i j : Nat) (t : LcsTrack) :
    lcsTrackMatch alen i j t =
      ((if t.arangeStart = alen then ⟨i - 1, i - 1, j - 1, j - 1⟩
        else if t.arangeStart = i ∧ t.brangeStart = j then
          { t with arangeStart := t.arangeStart - 1, brangeStart := t.brangeStart - 1 }
        else t),
        decide ((¬t.arangeStart = alen ∧ ¬(t.arangeStart = i ∧ t.brangeStart = j)) ∨
          (if t.arangeStart = alen then (⟨i - 1, i - 1, j - 1, j - 1⟩ : LcsTrack)
            else if t.arangeStart = i ∧ t.brangeStart = j then
              { t with arangeStart := t.arangeStart - 1, brangeStart := t.brangeStart - 1 }
            else t).arangeStart = 0 ∨
          (if t.arangeStart = alen then (⟨i - 1, i - 1, j - 1, j - 1⟩ : LcsTrack)
            else if t.arangeStart = i ∧ t.brangeStart = j then
              { t with arangeStart := t.arangeStart - 1, brangeStart := t.brangeStart - 1 }
            else t).brangeStart = 0)) := rfl

theorem lcsEmitRange_def (alen : Nat) (opts : LcsOptions) (emit : Bool) (t : LcsTrack) (ranges : List LcsRange) :
    lcsEmitRange alen opts emit t ranges =
      if emit then
        ({ t with arangeStart := alen },
          if opts.getidx ∧ lcsLongEnough opts (t.range opts.withmatchlen) then ranges ++ [t.range opts.withmatchlen]
          else ranges)
      else (t, ranges) := rfl

theorem lcsWalkStart_def (a b : List UInt8) (lcs : List UInt32) (junk : Nat → UInt8) :
    lcsWalkStart a b lcs junk =
      ⟨a.length, b.length, (lcsAt lcs b.length a.length b.length).toNat,
        (List.range (lcsAt lcs b.length a.length b.length).toNat).map junk, ⟨a.length, 0, 0, 0⟩, []⟩ := rfl

theorem lcsWalkStep_def (a b : List UInt8) (lcs : List UInt32) (opts : LcsOptions) (st : LcsWalk) :
    lcsWalkStep a b lcs opts st =
      if a.getD (st.i - 1) 0 = b.getD (st.j - 1) 0 then
        ⟨st.i - 1, st.j - 1, st.idx - 1, st.result.set (st.idx - 1) (a.getD (st.i - 1) 0),
          (lcsEmitRange a.length opts (lcsTrackMatch a.length st.i st.j st.track).2
            (lcsTrackMatch a.length st.i st.j st.track).1 st.ranges).1,
          (lcsEmitRange a.length opts (lcsTrackMatch a.length st.i st.j st.track).2
            (lcsTrackMatch a.length st.i st.j st.track).1 st.ranges).2⟩
      else if lcsAt lcs b.length (st.i - 1) st.j > lcsAt lcs b.length st.i (st.j - 1) then
        ⟨st.i - 1, st.j, st.idx, st.result,
          (lcsEmitRange a.length opts (decide (st.track.arangeStart ≠ a.length)) st.track st.ranges).1,
          (lcsEmitRange a.length opts (decide (st.track.arangeStart ≠ a.length)) st.track st.ranges).2⟩
      else
        ⟨st.i, st.j - 1, st.idx, st.result,
          (lcsEmitRange a.length opts (decide (st.track.arangeStart ≠ a.length)) st.track st.ranges).1,
          (lcsEmitRange a.length opts (decide (st.track.arangeStart ≠ a.length)) st.track st.ranges).2⟩ := rfl

theorem lcsWalkLoop_zero (a b : List UInt8) (lcs : List UInt32) (opts : LcsOptions) (st : LcsWalk) :
    lcsWalkLoop a b lcs opts 0 st = st := rfl

theorem lcsWalkLoop_succ (a b : List UInt8) (lcs : List UInt32) (opts : LcsOptions) (fuel : Nat) (st : LcsWalk) :
    lcsWalkLoop a b lcs opts (fuel + 1) st =
      if 0 < st.i ∧ 0 < st.j then lcsWalkLoop a b lcs opts fuel (lcsWalkStep a b lcs opts st) else st := rfl

end Walk

section Backtrack

variable {a b : List UInt8} {lcs : List UInt32} {opts : LcsOptions} {n : Nat}

theorem drop_pred_getD {l : List UInt8} {k : Nat} (pos : 0 < k) (inside : k ≤ l.length) :
    l.drop (k - 1) = l.getD (k - 1) 0 :: l.drop k := by
  rw [List.drop_eq_getElem_cons (by omega), List.getD_eq_getElem _ _ (by omega), Nat.sub_add_cancel pos]

theorem drop_set_pred {l : List UInt8} {k : Nat} (x : UInt8) (pos : 0 < k) (inside : k ≤ l.length) :
    (l.set (k - 1) x).drop (k - 1) = x :: l.drop k := by
  rw [List.drop_set, if_neg (Nat.lt_irrefl _), Nat.sub_self, List.drop_eq_getElem_cons (by omega), List.set_cons_zero,
    Nat.sub_add_cancel pos]

namespace LcsTable

variable (table : LcsTable a b lcs)
include table

theorem edge_cell {i j : Nat} (row : i ≤ a.length) (col : j ≤ b.length) (edge : i = 0 ∨ j = 0) :
    (lcsAt lcs b.length i j).toNat = 0 := by
  rcases edge with rfl | rfl
  · exact (table 0 j row col).unique (by rw [List.take_zero]; exact IsLcsLength.nil_left _)
  · exact (table i 0 row col).unique (by rw [List.take_zero]; exact IsLcsLength.nil_right _)

theorem match_cell {i j : Nat} (row : i + 1 ≤ a.length) (col : j + 1 ≤ b.length) (same : a.getD i 0 = b.getD j 0) :
    (lcsAt lcs b.length (i + 1) (j + 1)).toNat = (lcsAt lcs b.length i j).toNat + 1 := by
  have here := table (i + 1) (j + 1) row col
  rw [take_succ_getD (by omega), take_succ_getD (by omega), ← same] at here
  exact here.unique ((table i j (by omega) (by omega)).concat_same _)

theorem mismatch_cell {i j : Nat} (row : i + 1 ≤ a.length) (col : j + 1 ≤ b.length) (differ : a.getD i 0 ≠ b.getD j 0) :
    (lcsAt lcs b.length (i + 1) (j + 1)).toNat =
      max (lcsAt lcs b.length i (j + 1)).toNat (lcsAt lcs b.length (i + 1) j).toNat := by
  have here := table (i + 1) (j + 1) row col
  have above := table i (j + 1) (by omega) col
  have left := table (i + 1) j row (by omega)
  rw [take_succ_getD (by omega), take_succ_getD (by omega)] at here
  rw [take_succ_getD (by omega)] at above
  rw [take_succ_getD (by omega)] at left
  exact here.unique (IsLcsLength.concat_ne differ above left)

/-- The last cell holds the length of a longest common subsequence of the whole strings. -/
theorem last_cell : IsLcsLength a b (lcsAt lcs b.length a.length b.length).toNat := by
  have whole := table a.length b.length (Nat.le_refl _) (Nat.le_refl _)
  rwa [List.take_length, List.take_length] at whole

end LcsTable

structure LcsWalk.Inv (a b : List UInt8) (lcs : List UInt32) (n : Nat) (st : LcsWalk) : Prop where
  i_le : st.i ≤ a.length
  j_le : st.j ≤ b.length
  idx_eq : st.idx = (lcsAt lcs b.length st.i st.j).toNat
  idx_le : st.idx ≤ n
  length_eq : st.result.length = n
  found : CommonSubseq (st.result.drop st.idx) (a.drop st.i) (b.drop st.j)

theorem lcsWalkStep_progress (st : LcsWalk) :
    (lcsWalkStep a b lcs opts st).i + (lcsWalkStep a b lcs opts st).j < st.i + st.j ∨ st.i = 0 ∨ st.j = 0 := by
  rw [lcsWalkStep_def]
  split
  · dsimp only
    omega
  · split <;> (dsimp only; omega)

theorem LcsWalk.Inv.step (table : LcsTable a b lcs) {st : LcsWalk} (inv : st.Inv a b lcs n) (ipos : 0 < st.i)
    (jpos : 0 < st.j) : (lcsWalkStep a b lcs opts st).Inv a b lcs n := by
  obtain ⟨i, j, idx, result, track, ranges⟩ := st
  obtain ⟨rowIn, colIn, idxEq, idxLe, lengthEq, found⟩ := inv
  dsimp only at ipos jpos rowIn colIn idxEq idxLe lengthEq found
  obtain ⟨i, rfl⟩ : ∃ k, i = k + 1 := ⟨i - 1, by omega⟩
  obtain ⟨j, rfl⟩ : ∃ k, j = k + 1 := ⟨j - 1, by omega⟩
  rw [lcsWalkStep_def]
  simp only [Nat.add_sub_cancel]
  split
  · -- a match: the cell is one more than the diagonal, and the byte joins the bytes found
    rename_i same
    have grows := table.match_cell rowIn colIn same
    have idxPos : 0 < idx := by rw [idxEq, grows]; omega
    constructor <;> dsimp only
    · omega
    · omega
    · rw [idxEq, grows, Nat.add_sub_cancel]
    · omega
    · rw [List.length_set, lengthEq]
    rw [drop_set_pred _ idxPos (by omega), show i = i + 1 - 1 by omega, drop_pred_getD (by omega) rowIn,
      show j = j + 1 - 1 by omega, drop_pred_getD (by omega) colIn]
    simp only [Nat.add_sub_cancel]
    rw [← same]
    exact ⟨found.1.cons_cons _, found.2.cons_cons _⟩
  · -- a mismatch: the walk goes to the larger neighbour, and the found bytes stay a subsequence
    rename_i differ
    have larger := table.mismatch_cell rowIn colIn differ
    split
    · rename_i up
      have bigger := UInt32.lt_iff_toNat_lt.mp up
      constructor <;> dsimp only
      · omega
      · exact colIn
      · rw [idxEq, larger]
        omega
      · exact idxLe
      · exact lengthEq
      rw [show i = i + 1 - 1 by omega, drop_pred_getD (by omega) rowIn, Nat.add_sub_cancel]
      exact ⟨found.1.cons _, found.2⟩
    · rename_i notUp
      have notBigger : ¬ (lcsAt lcs b.length (i + 1) j).toNat < (lcsAt lcs b.length i (j + 1)).toNat :=
        fun lt => notUp (UInt32.lt_iff_toNat_lt.mpr lt)
      constructor <;> dsimp only
      · exact rowIn
      · omega
      · rw [idxEq, larger]
        omega
      · exact idxLe
      · exact lengthEq
      rw [show j = j + 1 - 1 by omega, drop_pred_getD (by omega) colIn, Nat.add_sub_cancel]
      exact ⟨found.1, found.2.cons _⟩

theorem lcsWalkLoop_spec (table : LcsTable a b lcs) {fuel : Nat} {st : LcsWalk} (inv : st.Inv a b lcs n)
    (enough : st.i + st.j ≤ fuel) :
    (lcsWalkLoop a b lcs opts fuel st).Inv a b lcs n ∧
      ((lcsWalkLoop a b lcs opts fuel st).i = 0 ∨ (lcsWalkLoop a b lcs opts fuel st).j = 0) := by
  induction fuel generalizing st with
  | zero =>
    rw [lcsWalkLoop_zero]
    exact ⟨inv, by omega⟩
  | succ fuel ih =>
    rw [lcsWalkLoop_succ]
    split
    · rename_i inside
      have shorter := @lcsWalkStep_progress a b lcs opts st
      exact ih (inv.step table inside.1 inside.2) (by omega)
    · rename_i stopped
      exact ⟨inv, by omega⟩

theorem lcsWalkStart_inv (junk : Nat → UInt8) :
    (lcsWalkStart a b lcs junk).Inv a b lcs (lcsAt lcs b.length a.length b.length).toNat where
  i_le := Nat.le_refl _
  j_le := Nat.le_refl _
  idx_eq := rfl
  idx_le := Nat.le_refl _
  length_eq := by rw [lcsWalkStart_def, List.length_map, List.length_range]
  found := by
    rw [lcsWalkStart_def]
    simp only
    rw [List.drop_of_length_le (by rw [List.length_map, List.length_range]), List.drop_length, List.drop_length]
    exact ⟨List.nil_sublist _, List.nil_sublist _⟩

theorem lcsWalk_result (table : LcsTable a b lcs) (junk : Nat → UInt8) :
    CommonSubseq (lcsWalkLoop a b lcs opts (a.length + b.length) (lcsWalkStart a b lcs junk)).result a b ∧
      IsLcsLength a b (lcsWalkLoop a b lcs opts (a.length + b.length) (lcsWalkStart a b lcs junk)).result.length := by
  have enough : (lcsWalkStart a b lcs junk).i + (lcsWalkStart a b lcs junk).j ≤ a.length + b.length := Nat.le_refl _
  obtain ⟨inv, ended⟩ := @lcsWalkLoop_spec a b lcs opts _ table _ _ (lcsWalkStart_inv junk) enough
  have nothingLeft := inv.idx_eq
  rw [table.edge_cell inv.i_le inv.j_le ended] at nothingLeft
  have found := inv.found
  rw [nothingLeft, List.drop_zero] at found
  refine ⟨⟨found.1.trans (List.drop_sublist _ _), found.2.trans (List.drop_sublist _ _)⟩, ?_⟩
  rw [inv.length_eq]
  exact table.last_cell

end Backtrack

section Command

inductive LcsReply
  | error (msg : String)
  | len (n : Nat)
  | string (s : List UInt8)
  | idx (ranges : List LcsRange) (len : Nat)
  deriving DecidableEq, Repr

def lcsAllocCheck (alen blen protoMaxBulkLen : Nat) (allocOk : Bool) : Option String :=
  let lcssize : UInt64 := UInt64.ofNat (alen + 1) * UInt64.ofNat (blen + 1)
  let lcsalloc := lcssize * 4
  if lcsalloc < 0xffffffffffffffff ∧ lcsalloc / lcssize = 4 then
    if lcsalloc.toNat > protoMaxBulkLen then
      some "Insufficient memory, transient memory for LCS exceeds proto-max-bulk-len"
    else if allocOk then none
    else some "Insufficient memory, failed allocating transient memory for LCS"
  else some "Insufficient memory, failed allocating transient memory for LCS"

/-- `lcsCommand`: the reply to LCS for the values at the two keys and the arguments after them, with the
server's `proto_max_bulk_len` (between 1 MiB and `LLONG_MAX`), whether `ztrymalloc` succeeds, and what the
uninitialized table and result hold. -/
def lcsCommand (keyA keyB : LcsKey) (args : List (List UInt8)) (protoMaxBulkLen : Nat) (allocOk : Bool)
    (tableJunk : Nat → UInt32) (resultJunk : Nat → UInt8) : LcsReply :=
  match lcsKeyString keyA, lcsKeyString keyB with
  | some a, some b =>
    match lcsParseOptions lcsNoOptions args with
    | .error msg => .error msg
    | .ok opts =>
      if opts.getlen ∧ opts.getidx then .error "If you want both the length and indexes, please just use IDX."
      else if a.length ≥ 2 ^ 32 - 2 ∨ b.length ≥ 2 ^ 32 - 2 then .error "String too long for LCS"
      else
        match lcsAllocCheck a.length b.length protoMaxBulkLen allocOk with
        | some msg => .error msg
        | none =>
          let lcs := lcsFillTable a b ((List.range ((a.length + 1) * (b.length + 1))).map tableJunk)
          let start := lcsWalkStart a b lcs resultJunk
          -- the result is computed for IDX and for the plain reply, not for LEN alone
          let walk := if opts.getidx || !opts.getlen then lcsWalkLoop a b lcs opts (a.length + b.length) start
            else start
          if opts.getidx then .idx walk.ranges start.idx
          else if opts.getlen then .len start.idx
          else .string walk.result
  | _, _ => .error "The specified keys must contain string values"

theorem lcsAllocCheck_fits {alen blen protoMaxBulkLen : Nat} (shortA : alen < 2 ^ 32) (shortB : blen < 2 ^ 32)
    (limit : protoMaxBulkLen < 2 ^ 63) (fits : 4 * ((alen + 1) * (blen + 1)) ≤ protoMaxBulkLen) :
    lcsAllocCheck alen blen protoMaxBulkLen true = none := by
  have size : (UInt64.ofNat (alen + 1) * UInt64.ofNat (blen + 1)).toNat = (alen + 1) * (blen + 1) := by
    have left : (alen + 1) % 2 ^ 64 = alen + 1 := Nat.mod_eq_of_lt (by omega)
    have right : (blen + 1) % 2 ^ 64 = blen + 1 := Nat.mod_eq_of_lt (by omega)
    rw [UInt64.toNat_mul, UInt64.toNat_ofNat', UInt64.toNat_ofNat', left, right]
    exact Nat.mod_eq_of_lt (by omega)
  have bytes : (UInt64.ofNat (alen + 1) * UInt64.ofNat (blen + 1) * 4).toNat = 4 * ((alen + 1) * (blen + 1)) := by
    rw [UInt64.toNat_mul, size]
    simp only [UInt64.reduceToNat]
    rw [Nat.mod_eq_of_lt (by omega)]
    omega
  have rows : 0 < (alen + 1) * (blen + 1) := Nat.mul_pos (by omega) (by omega)
  rw [lcsAllocCheck, if_pos, if_neg (by omega), if_pos rfl]
  constructor
  · rw [UInt64.lt_iff_toNat_lt, bytes]
    simp only [UInt64.reduceToNat]
    omega
  · apply UInt64.toNat_inj.mp
    rw [UInt64.toNat_div, bytes, size, Nat.mul_div_cancel _ rows]
    rfl

theorem lcsCommand_of_checks {keyA keyB : LcsKey} {a b : List UInt8} (valueA : lcsKeyString keyA = some a)
    (valueB : lcsKeyString keyB = some b) {args : List (List UInt8)} {opts : LcsOptions}
    (parsed : lcsParseOptions lcsNoOptions args = .ok opts) (unambiguous : ¬(opts.getlen ∧ opts.getidx))
    (shortA : a.length < 2 ^ 32 - 2) (shortB : b.length < 2 ^ 32 - 2) {protoMaxBulkLen : Nat} {allocOk : Bool}
    (alloc : lcsAllocCheck a.length b.length protoMaxBulkLen allocOk = none) (tableJunk : Nat → UInt32)
    (resultJunk : Nat → UInt8) :
    lcsCommand keyA keyB args protoMaxBulkLen allocOk tableJunk resultJunk =
      let lcs := lcsFillTable a b ((List.range ((a.length + 1) * (b.length + 1))).map tableJunk)
      let start := lcsWalkStart a b lcs resultJunk
      let walk := if opts.getidx || !opts.getlen then lcsWalkLoop a b lcs opts (a.length + b.length) start
        else start
      if opts.getidx then .idx walk.ranges start.idx
      else if opts.getlen then .len start.idx
      else .string walk.result := by
  rw [lcsCommand, valueA, valueB]
  simp only [parsed]
  rw [if_neg unambiguous, if_neg (by omega), alloc]

/-- Past its checks, LCS fills a table of longest common subsequence lengths, whatever its memory held, and
answers from the walk back from its last cell. -/
theorem lcsCommand_reply {keyA keyB : LcsKey} {a b : List UInt8} (valueA : lcsKeyString keyA = some a)
    (valueB : lcsKeyString keyB = some b) {args : List (List UInt8)} {opts : LcsOptions}
    (parsed : lcsParseOptions lcsNoOptions args = .ok opts) (unambiguous : ¬(opts.getlen ∧ opts.getidx))
    (shortA : a.length < 2 ^ 32 - 2) (shortB : b.length < 2 ^ 32 - 2) {protoMaxBulkLen : Nat}
    (limit : protoMaxBulkLen < 2 ^ 63) (fits : 4 * ((a.length + 1) * (b.length + 1)) ≤ protoMaxBulkLen)
    (tableJunk : Nat → UInt32) (resultJunk : Nat → UInt8) :
    ∃ lcs, LcsTable a b lcs ∧ lcsCommand keyA keyB args protoMaxBulkLen true tableJunk resultJunk =
      if opts.getidx then
        .idx (lcsWalkLoop a b lcs opts (a.length + b.length) (lcsWalkStart a b lcs resultJunk)).ranges
          (lcsWalkStart a b lcs resultJunk).idx
      else if opts.getlen then .len (lcsWalkStart a b lcs resultJunk).idx
      else .string (lcsWalkLoop a b lcs opts (a.length + b.length) (lcsWalkStart a b lcs resultJunk)).result := by
  rw [lcsCommand_of_checks valueA valueB parsed unambiguous shortA shortB
    (lcsAllocCheck_fits (by omega) (by omega) limit fits)]
  refine ⟨_, lcsFillTable_table (by omega)
    (by rw [List.length_map, List.length_range] : ((List.range ((a.length + 1) * (b.length + 1))).map tableJunk).length = _),
    ?_⟩
  simp only
  -- the walk is made for IDX and for the plain reply
  cases idx : opts.getidx
  · cases len : opts.getlen <;> simp
  · simp

/-- LCS answers with a longest common subsequence of the two strings, a missing key read as empty, whenever
its checks pass: LEN replies its length, the plain form one such subsequence, and IDX that length beside its
ranges, whatever the uninitialized memory holds. -/
theorem lcsCommand_lcs {keyA keyB : LcsKey} {a b : List UInt8} (valueA : lcsKeyString keyA = some a)
    (valueB : lcsKeyString keyB = some b) {args : List (List UInt8)} {opts : LcsOptions}
    (parsed : lcsParseOptions lcsNoOptions args = .ok opts) (unambiguous : ¬(opts.getlen ∧ opts.getidx))
    (shortA : a.length < 2 ^ 32 - 2) (shortB : b.length < 2 ^ 32 - 2) {protoMaxBulkLen : Nat}
    (limit : protoMaxBulkLen < 2 ^ 63) (fits : 4 * ((a.length + 1) * (b.length + 1)) ≤ protoMaxBulkLen)
    (tableJunk : Nat → UInt32) (resultJunk : Nat → UInt8) :
    match lcsCommand keyA keyB args protoMaxBulkLen true tableJunk resultJunk with
    | .len n => opts.getlen ∧ IsLcsLength a b n
    | .string s => ¬opts.getlen ∧ ¬opts.getidx ∧ CommonSubseq s a b ∧ IsLcsLength a b s.length
    | .idx _ n => opts.getidx ∧ IsLcsLength a b n
    | .error _ => False := by
  obtain ⟨lcs, table, reply⟩ :=
    lcsCommand_reply valueA valueB parsed unambiguous shortA shortB limit fits tableJunk resultJunk
  rw [reply]
  by_cases idx : opts.getidx
  · rw [if_pos idx]
    exact ⟨idx, table.last_cell⟩
  · rw [if_neg idx]
    by_cases len : opts.getlen
    · rw [if_pos len]
      exact ⟨len, table.last_cell⟩
    · rw [if_neg len]
      exact ⟨len, idx, lcsWalk_result table resultJunk⟩

example : lcsCommand (.string [111, 104, 109, 121, 116, 101, 120, 116])
    (.string [109, 121, 110, 101, 119, 116, 101, 120, 116]) [] 1048576 true (fun _ => 7) (fun _ => 0) =
      .string [109, 121, 116, 101, 120, 116] := by decide +kernel

theorem lcsCommand_lcs_example :
    lcsKeyString (.string [65, 66, 67, 66]) = some [65, 66, 67, 66] ∧
      lcsKeyString (.string [66, 65, 66]) = some [66, 65, 66] ∧
      lcsParseOptions lcsNoOptions [] = .ok lcsNoOptions ∧ ¬(lcsNoOptions.getlen ∧ lcsNoOptions.getidx) ∧
      ([65, 66, 67, 66] : List UInt8).length < 2 ^ 32 - 2 ∧ ([66, 65, 66] : List UInt8).length < 2 ^ 32 - 2 ∧
      1048576 < 2 ^ 63 ∧
      4 * ((([65, 66, 67, 66] : List UInt8).length + 1) * (([66, 65, 66] : List UInt8).length + 1)) ≤ 1048576 ∧
      match lcsCommand (.string [65, 66, 67, 66]) (.string [66, 65, 66]) [] 1048576 true (fun _ => 7) (fun _ => 0) with
      | .len n => lcsNoOptions.getlen ∧ IsLcsLength ([65, 66, 67, 66] : List UInt8) [66, 65, 66] n
      | .string s => ¬lcsNoOptions.getlen ∧ ¬lcsNoOptions.getidx ∧
          CommonSubseq s ([65, 66, 67, 66] : List UInt8) [66, 65, 66] ∧
          IsLcsLength ([65, 66, 67, 66] : List UInt8) [66, 65, 66] s.length
      | .idx _ n => lcsNoOptions.getidx ∧ IsLcsLength ([65, 66, 67, 66] : List UInt8) [66, 65, 66] n
      | .error _ => False :=
  ⟨rfl, rfl, rfl, by decide, by decide, by decide, by decide, by decide,
    @lcsCommand_lcs (.string [65, 66, 67, 66]) (.string [66, 65, 66]) [65, 66, 67, 66] [66, 65, 66] rfl rfl [] lcsNoOptions
      rfl (by decide) (by decide) (by decide) 1048576 (by decide) (by decide) (fun _ => 7) (fun _ => 0)⟩

end Command

end Kv.TString
