import Kv.TString.Lcs
import Mathlib.Data.List.Chain

/-!
The ranges LCS replies with IDX. While it walks back, the loop tracks the run
of matches it is in; the run ends, and is replied, at the first step off the
diagonal or when it reaches the start of either string. So the ranges are the
maximal diagonal runs of the walk: each holds the same bytes in both strings,
they come in decreasing order in both strings, no two consecutive ones are
adjacent in both, and their lengths add up to the length of the longest
common subsequence. MINMATCHLEN only filters them, since the walk does not
depend on it.
-/

namespace Kv.TString

open Foundations

section Ranges

variable {a b : List UInt8}

structure LcsRange.Matching (a b : List UInt8) (r : LcsRange) : Prop where
  a_le : r.aStart ≤ r.aEnd
  b_le : r.bStart ≤ r.bEnd
  same_length : r.bEnd - r.bStart = r.aEnd - r.aStart
  a_lt : r.aEnd < a.length
  b_lt : r.bEnd < b.length
  bytes : (a.drop r.aStart).take r.length = (b.drop r.bStart).take r.length

def LcsRange.Below (r r' : LcsRange) : Prop := r'.aEnd < r.aStart ∧ r'.bEnd < r.bStart

def LcsRange.Apart (r r' : LcsRange) : Prop := ¬(r'.aEnd + 1 = r.aStart ∧ r'.bEnd + 1 = r.bStart)

def LcsOptions.allRanges (opts : LcsOptions) : LcsOptions := { opts with getidx := true, minmatchlen := 0 }

@[simp] theorem LcsTrack.range_aStart (t : LcsTrack) (w : Bool) : (t.range w).aStart = t.arangeStart := rfl

@[simp] theorem LcsTrack.range_aEnd (t : LcsTrack) (w : Bool) : (t.range w).aEnd = t.arangeEnd := rfl

@[simp] theorem LcsTrack.range_bStart (t : LcsTrack) (w : Bool) : (t.range w).bStart = t.brangeStart := rfl

@[simp] theorem LcsTrack.range_bEnd (t : LcsTrack) (w : Bool) : (t.range w).bEnd = t.brangeEnd := rfl

theorem LcsTrack.range_matchLen (t : LcsTrack) (w : Bool) :
    (t.range w).matchLen = if w then some (t.range w).length else none := rfl

theorem LcsRange.length_def (r : LcsRange) : r.length = r.aEnd - r.aStart + 1 := rfl

theorem take_one_drop {l : List UInt8} {k : Nat} (inside : k < l.length) : (l.drop k).take 1 = [l.getD k 0] := by
  rw [List.drop_eq_getElem_cons inside, List.take_succ_cons, List.take_zero, List.getD_eq_getElem _ _ inside]

theorem matching_single {i j : Nat} (w : Bool) (row : i + 1 ≤ a.length) (col : j + 1 ≤ b.length)
    (same : a.getD i 0 = b.getD j 0) : (LcsTrack.range ⟨i, i, j, j⟩ w).Matching a b where
  a_le := Nat.le_refl i
  b_le := Nat.le_refl j
  same_length := show j - j = i - i by rw [Nat.sub_self, Nat.sub_self]
  a_lt := show i < a.length by omega
  b_lt := show j < b.length by omega
  bytes := by
    show (a.drop i).take (i - i + 1) = (b.drop j).take (i - i + 1)
    rw [Nat.sub_self, Nat.zero_add, take_one_drop (by omega), take_one_drop (by omega), same]

theorem LcsRange.Matching.extend {t : LcsTrack} {w : Bool} (matching : (t.range w).Matching a b) (aPos : 0 < t.arangeStart)
    (bPos : 0 < t.brangeStart) (same : a.getD (t.arangeStart - 1) 0 = b.getD (t.brangeStart - 1) 0) :
    (LcsTrack.range { t with arangeStart := t.arangeStart - 1, brangeStart := t.brangeStart - 1 } w).Matching a b := by
  obtain ⟨aLe, bLe, sameLength, aLt, bLt, bytes⟩ := matching
  simp only [LcsRange.length_def, LcsTrack.range_aStart, LcsTrack.range_aEnd, LcsTrack.range_bStart,
    LcsTrack.range_bEnd] at aLe bLe sameLength aLt bLt bytes
  refine ⟨by simp only [LcsTrack.range_aStart, LcsTrack.range_aEnd]; omega,
    by simp only [LcsTrack.range_bStart, LcsTrack.range_bEnd]; omega,
    by simp only [LcsTrack.range_bStart, LcsTrack.range_bEnd, LcsTrack.range_aStart, LcsTrack.range_aEnd]; omega,
    aLt, bLt, ?_⟩
  simp only [LcsRange.length_def, LcsTrack.range_aStart, LcsTrack.range_aEnd, LcsTrack.range_bStart]
  rw [show t.arangeEnd - (t.arangeStart - 1) + 1 = t.arangeEnd - t.arangeStart + 1 + 1 by omega,
    drop_pred_getD aPos (by omega), drop_pred_getD bPos (by omega), List.take_succ_cons, List.take_succ_cons, bytes, same]

structure LcsReplied (a b : List UInt8) (w : Bool) (L : List LcsRange) : Prop where
  matching : ∀ r ∈ L, r.Matching a b ∧ r.matchLen = if w then some r.length else none
  descending : L.Pairwise LcsRange.Below
  maximal : L.IsChain LcsRange.Apart

structure LcsSettled (a b : List UInt8) (n : Nat) (w : Bool) (i j idx : Nat) (L : List LcsRange) : Prop where
  replied : LcsReplied a b w L
  above : ∀ r ∈ L, i ≤ r.aStart ∧ j ≤ r.bStart
  apart : ∀ r ∈ L.getLast?, i < r.aStart ∨ j < r.bStart ∨ i = 0 ∨ j = 0
  count : (L.map LcsRange.length).sum + idx = n

structure LcsPending (a b : List UInt8) (n : Nat) (w : Bool) (i j idx : Nat) (L : List LcsRange) (T : LcsTrack) :
    Prop where
  replied : LcsReplied a b w L
  start : T.arangeStart = i ∧ T.brangeStart = j
  matching : (T.range w).Matching a b
  above : ∀ r ∈ L, LcsRange.Below r (T.range w)
  apart : ∀ r ∈ L.getLast?, LcsRange.Apart r (T.range w)
  count : (L.map LcsRange.length).sum + (T.range w).length + idx = n

def LcsWalk.RangesInv (a b : List UInt8) (n : Nat) (w : Bool) (st : LcsWalk) : Prop :=
  if st.track.arangeStart = a.length then LcsSettled a b n w st.i st.j st.idx st.ranges
  else LcsPending a b n w st.i st.j st.idx st.ranges st.track ∧ 0 < st.i ∧ 0 < st.j

theorem LcsWalk.rangesInv_def (n : Nat) (w : Bool) (st : LcsWalk) :
    st.RangesInv a b n w =
      if st.track.arangeStart = a.length then LcsSettled a b n w st.i st.j st.idx st.ranges
      else LcsPending a b n w st.i st.j st.idx st.ranges st.track ∧ 0 < st.i ∧ 0 < st.j := rfl

variable {n : Nat} {w : Bool} {L : List LcsRange} {T : LcsTrack}

theorem LcsSettled.start {i j idx : Nat} (settled : LcsSettled a b n w (i + 1) (j + 1) (idx + 1) L)
    (row : i + 1 ≤ a.length) (col : j + 1 ≤ b.length) (same : a.getD i 0 = b.getD j 0) :
    LcsPending a b n w i j idx L ⟨i, i, j, j⟩ where
  replied := settled.replied
  start := ⟨rfl, rfl⟩
  matching := matching_single w row col same
  above := fun r mem => by
    have := settled.above r mem
    exact ⟨show i < r.aStart by omega, show j < r.bStart by omega⟩
  apart := fun r last => by
    have := settled.apart r last
    show ¬(i + 1 = r.aStart ∧ j + 1 = r.bStart)
    omega
  count := by
    have := settled.count
    show _ + (i - i + 1) + idx = n
    omega

theorem LcsPending.extend {i j idx : Nat} (pending : LcsPending a b n w (i + 1) (j + 1) (idx + 1) L T)
    (same : a.getD i 0 = b.getD j 0) :
    LcsPending a b n w i j idx L { T with arangeStart := T.arangeStart - 1, brangeStart := T.brangeStart - 1 } where
  replied := pending.replied
  start := by simp only [pending.start.1, pending.start.2, Nat.add_sub_cancel, and_self]
  matching := pending.matching.extend (by rw [pending.start.1]; omega) (by rw [pending.start.2]; omega)
    (by rw [pending.start.1, pending.start.2, Nat.add_sub_cancel, Nat.add_sub_cancel, same])
  above := pending.above
  apart := pending.apart
  count := by
    have := pending.count
    have inside := pending.matching.a_le
    have start := pending.start.1
    simp only [LcsRange.length_def, LcsTrack.range_aStart, LcsTrack.range_aEnd] at this inside ⊢
    omega

theorem LcsPending.reply {i j idx i' j' : Nat} (pending : LcsPending a b n w i j idx L T) (row : i' ≤ i)
    (col : j' ≤ j) (moved : i' < i ∨ j' < j ∨ i' = 0 ∨ j' = 0) :
    LcsSettled a b n w i' j' idx (L ++ [T.range w]) where
  replied := {
    matching := fun r mem => by
      rcases List.mem_append.mp mem with old | new
      · exact pending.replied.matching r old
      · rw [List.mem_singleton.mp new]
        exact ⟨pending.matching, LcsTrack.range_matchLen T w⟩
    descending := List.pairwise_append.mpr ⟨pending.replied.descending, List.pairwise_singleton _ _,
      fun r mem r' new => by rw [List.mem_singleton.mp new]; exact pending.above r mem⟩
    maximal := List.IsChain.append pending.replied.maximal (List.isChain_singleton _)
      fun r last r' first => by
        rw [List.head?_cons, Option.mem_some_iff] at first
        rw [← first]
        exact pending.apart r last }
  above := fun r mem => by
    rcases List.mem_append.mp mem with old | new
    · have below := pending.above r old
      have inside := pending.matching.a_le
      have inside' := pending.matching.b_le
      simp only [LcsRange.Below, LcsTrack.range_aStart, LcsTrack.range_aEnd, LcsTrack.range_bStart,
        LcsTrack.range_bEnd] at below inside inside'
      have := pending.start
      omega
    · rw [List.mem_singleton.mp new, LcsTrack.range_aStart, LcsTrack.range_bStart, pending.start.1, pending.start.2]
      exact ⟨row, col⟩
  apart := fun r last => by
    rw [List.getLast?_concat, Option.mem_some_iff] at last
    rw [← last, LcsTrack.range_aStart, LcsTrack.range_bStart, pending.start.1, pending.start.2]
    omega
  count := by
    rw [List.map_append, List.sum_append, List.map_singleton, List.sum_singleton]
    exact pending.count

theorem LcsSettled.move {i j idx i' j' : Nat} (settled : LcsSettled a b n w i j idx L) (inside : 0 < i ∧ 0 < j)
    (row : i' ≤ i) (col : j' ≤ j) : LcsSettled a b n w i' j' idx L where
  replied := settled.replied
  above := fun r mem => by
    have := settled.above r mem
    omega
  apart := fun r last => by
    have := settled.apart r last
    omega
  count := settled.count

end Ranges

section Rounds

variable {a b : List UInt8} {lcs : List UInt32} {opts : LcsOptions} {n : Nat}

theorem lcsEmitRange_allRanges (opts : LcsOptions) (alen : Nat) (emit : Bool) (t : LcsTrack) (L : List LcsRange) :
    lcsEmitRange alen opts.allRanges emit t L =
      if emit then ({ t with arangeStart := alen }, L ++ [t.range opts.withmatchlen]) else (t, L) := by
  rw [lcsEmitRange_def]
  cases emit <;> rfl

theorem lcsTrackMatch_fresh {alen i j : Nat} {t : LcsTrack} (fresh : t.arangeStart = alen) :
    lcsTrackMatch alen i j t = (⟨i - 1, i - 1, j - 1, j - 1⟩, decide (i - 1 = 0 ∨ j - 1 = 0)) := by
  simp [lcsTrackMatch_def, fresh]

theorem lcsTrackMatch_extend {alen i j : Nat} {t : LcsTrack} (tracking : t.arangeStart ≠ alen)
    (contiguous : t.arangeStart = i ∧ t.brangeStart = j) :
    lcsTrackMatch alen i j t =
      ({ t with arangeStart := t.arangeStart - 1, brangeStart := t.brangeStart - 1 }, decide (i - 1 = 0 ∨ j - 1 = 0)) := by
  obtain ⟨aStart, bStart⟩ := contiguous
  rw [aStart] at tracking
  simp [lcsTrackMatch_def, tracking, aStart, bStart]

theorem LcsPending.round {i j idx : Nat} {L : List LcsRange} {T : LcsTrack}
    (pending : LcsPending a b n opts.withmatchlen i j idx L T) (result : List UInt8) :
    LcsWalk.RangesInv a b n opts.withmatchlen
      ⟨i, j, idx, result, (lcsEmitRange a.length opts.allRanges (decide (i = 0 ∨ j = 0)) T L).1,
        (lcsEmitRange a.length opts.allRanges (decide (i = 0 ∨ j = 0)) T L).2⟩ := by
  rw [lcsEmitRange_allRanges]
  by_cases edge : i = 0 ∨ j = 0
  · rw [if_pos (decide_eq_true edge)]
    rw [LcsWalk.rangesInv_def]
    rw [if_pos rfl]
    dsimp only
    exact pending.reply (Nat.le_refl i) (Nat.le_refl j) (by omega)
  · rw [if_neg (by simpa using edge)]
    have inside := pending.matching.a_le
    have below := pending.matching.a_lt
    simp only [LcsTrack.range_aStart, LcsTrack.range_aEnd] at inside below
    rw [LcsWalk.rangesInv_def]
    dsimp only
    rw [if_neg (by omega)]
    exact ⟨pending, by omega, by omega⟩

theorem LcsWalk.RangesInv.step (table : LcsTable a b lcs) {st : LcsWalk} (inv : st.Inv a b lcs n)
    (ranges : st.RangesInv a b n opts.withmatchlen) (ipos : 0 < st.i) (jpos : 0 < st.j) :
    (lcsWalkStep a b lcs opts.allRanges st).RangesInv a b n opts.withmatchlen := by
  obtain ⟨i, j, idx, result, track, L⟩ := st
  obtain ⟨rowIn, colIn, idxEq, -, -, -⟩ := inv
  dsimp only at ipos jpos rowIn colIn idxEq
  obtain ⟨i, rfl⟩ : ∃ k, i = k + 1 := ⟨i - 1, by omega⟩
  obtain ⟨j, rfl⟩ : ∃ k, j = k + 1 := ⟨j - 1, by omega⟩
  rw [LcsWalk.rangesInv_def] at ranges
  dsimp only at ranges
  rw [lcsWalkStep_def]
  simp only [Nat.add_sub_cancel]
  split
  · -- a match: the range is started or extended at `(i, j)`, then the round ends there
    rename_i same
    obtain ⟨idx, rfl⟩ : ∃ k, idx = k + 1 := ⟨idx - 1, by rw [idxEq, table.match_cell rowIn colIn same]; omega⟩
    rw [Nat.add_sub_cancel]
    split at ranges
    · rename_i fresh
      rw [lcsTrackMatch_fresh fresh, Nat.add_sub_cancel, Nat.add_sub_cancel]
      exact (ranges.start rowIn colIn same).round _
    · rename_i tracking
      rw [lcsTrackMatch_extend tracking ranges.1.start, Nat.add_sub_cancel, Nat.add_sub_cancel]
      exact (ranges.1.extend same).round _
  · -- a mismatch: the walk steps off the diagonal, and a tracked range is replied
    split at ranges
    · rename_i fresh
      have quiet : decide (track.arangeStart ≠ a.length) = false := by simp [fresh]
      rw [quiet, lcsEmitRange_allRanges, if_neg (show ¬(false = true) from Bool.false_ne_true)]
      split
      all_goals
        rw [LcsWalk.rangesInv_def]
        dsimp only
        rw [if_pos fresh]
        exact ranges.move (by omega) (by omega) (by omega)
    · rename_i tracking
      rw [decide_eq_true tracking, lcsEmitRange_allRanges, if_pos (rfl : true = true)]
      split
      all_goals
        rw [LcsWalk.rangesInv_def]
        dsimp only
        rw [if_pos rfl]
        exact ranges.1.reply (by omega) (by omega) (by omega)

theorem lcsWalkLoop_ranges (table : LcsTable a b lcs) {fuel : Nat} {st : LcsWalk} (inv : st.Inv a b lcs n)
    (ranges : st.RangesInv a b n opts.withmatchlen) (enough : st.i + st.j ≤ fuel) :
    (lcsWalkLoop a b lcs opts.allRanges fuel st).RangesInv a b n opts.withmatchlen := by
  induction fuel generalizing st with
  | zero =>
    rw [lcsWalkLoop_zero]
    exact ranges
  | succ fuel ih =>
    rw [lcsWalkLoop_succ]
    split
    · rename_i inside
      have shorter := @lcsWalkStep_progress a b lcs opts.allRanges st
      exact ih (inv.step table inside.1 inside.2) (ranges.step table inv inside.1 inside.2) (by omega)
    · exact ranges

theorem lcsWalk_ranges (table : LcsTable a b lcs) (junk : Nat → UInt8) :
    LcsReplied a b opts.withmatchlen
        (lcsWalkLoop a b lcs opts.allRanges (a.length + b.length) (lcsWalkStart a b lcs junk)).ranges ∧
      ((lcsWalkLoop a b lcs opts.allRanges (a.length + b.length) (lcsWalkStart a b lcs junk)).ranges.map
        LcsRange.length).sum = (lcsAt lcs b.length a.length b.length).toNat := by
  have enough : (lcsWalkStart a b lcs junk).i + (lcsWalkStart a b lcs junk).j ≤ a.length + b.length := Nat.le_refl _
  have start : (lcsWalkStart a b lcs junk).RangesInv a b (lcsAt lcs b.length a.length b.length).toNat
      opts.withmatchlen := by
    rw [LcsWalk.rangesInv_def]
    rw [if_pos (show (lcsWalkStart a b lcs junk).track.arangeStart = a.length from rfl)]
    exact ⟨⟨fun _ mem => absurd mem List.not_mem_nil, List.Pairwise.nil, List.IsChain.nil⟩,
      fun _ mem => absurd mem List.not_mem_nil, fun _ mem => absurd mem (by simp [lcsWalkStart_def]),
      by simp [lcsWalkStart_def]⟩
  obtain ⟨inv, ended⟩ := @lcsWalkLoop_spec a b lcs opts.allRanges _ table _ _ (lcsWalkStart_inv junk) enough
  have ranges := lcsWalkLoop_ranges table (lcsWalkStart_inv junk) start enough
  have nothingLeft := inv.idx_eq
  rw [table.edge_cell inv.i_le inv.j_le ended] at nothingLeft
  rw [LcsWalk.rangesInv_def] at ranges
  split at ranges
  · have counted := ranges.count
    exact ⟨ranges.replied, by omega⟩
  · exact absurd ended (by omega)

end Rounds

section Filtering

variable {a b : List UInt8} {lcs : List UInt32} {opts : LcsOptions}

structure LcsWalk.Filtered (opts : LcsOptions) (st all : LcsWalk) : Prop where
  i_eq : st.i = all.i
  j_eq : st.j = all.j
  idx_eq : st.idx = all.idx
  result_eq : st.result = all.result
  track_eq : st.track = all.track
  ranges_eq : st.ranges = all.ranges.filter (lcsLongEnough opts)

theorem lcsEmitRange_filter (getidx : opts.getidx = true) (alen : Nat) (emit : Bool) (t : LcsTrack)
    (L : List LcsRange) :
    lcsEmitRange alen opts emit t (L.filter (lcsLongEnough opts)) =
      ((lcsEmitRange alen opts.allRanges emit t L).1,
        (lcsEmitRange alen opts.allRanges emit t L).2.filter (lcsLongEnough opts)) := by
  rw [lcsEmitRange_allRanges, lcsEmitRange_def]
  cases emit with
  | false => rfl
  | true =>
    rw [if_pos rfl, if_pos rfl, List.filter_append, List.filter_singleton]
    by_cases keep : lcsLongEnough opts (t.range opts.withmatchlen) = true
    · rw [if_pos ⟨getidx, keep⟩, keep]
      rfl
    · rw [if_neg fun both => keep both.2, Bool.not_eq_true _ |>.mp keep, cond_false, List.append_nil]

theorem LcsWalk.Filtered.step (getidx : opts.getidx = true) {st all : LcsWalk} (filtered : st.Filtered opts all) :
    (lcsWalkStep a b lcs opts st).Filtered opts (lcsWalkStep a b lcs opts.allRanges all) := by
  obtain ⟨i, j, idx, result, track, ranges⟩ := st
  obtain ⟨i', j', idx', result', track', L⟩ := all
  obtain ⟨sameI, sameJ, sameIdx, sameResult, sameTrack, filteredRanges⟩ := filtered
  dsimp only at sameI sameJ sameIdx sameResult sameTrack filteredRanges
  subst sameI sameJ sameIdx sameResult sameTrack filteredRanges
  rw [lcsWalkStep_def, lcsWalkStep_def]
  dsimp only
  by_cases same : a.getD (i - 1) 0 = b.getD (j - 1) 0
  · rw [if_pos same, if_pos same, lcsEmitRange_filter getidx]
    exact ⟨rfl, rfl, rfl, rfl, rfl, rfl⟩
  · rw [if_neg same, if_neg same, lcsEmitRange_filter getidx]
    by_cases up : lcsAt lcs b.length (i - 1) j > lcsAt lcs b.length i (j - 1)
    · rw [if_pos up, if_pos up]
      exact ⟨rfl, rfl, rfl, rfl, rfl, rfl⟩
    · rw [if_neg up, if_neg up]
      exact ⟨rfl, rfl, rfl, rfl, rfl, rfl⟩

theorem LcsWalk.Filtered.loop (getidx : opts.getidx = true) (fuel : Nat) {st all : LcsWalk}
    (filtered : st.Filtered opts all) :
    (lcsWalkLoop a b lcs opts fuel st).Filtered opts (lcsWalkLoop a b lcs opts.allRanges fuel all) := by
  induction fuel generalizing st all with
  | zero => exact filtered
  | succ fuel ih =>
    rw [lcsWalkLoop_succ, lcsWalkLoop_succ, filtered.i_eq, filtered.j_eq]
    split
    · exact ih (filtered.step getidx)
    · exact filtered

end Filtering

section Reply

/-- The ranges of the walk with IDX are those of the walk that keeps them all which MINMATCHLEN lets through. -/
theorem lcsWalk_idx {a b : List UInt8} {lcs : List UInt32} (table : LcsTable a b lcs) {opts : LcsOptions}
    (getidx : opts.getidx = true) (junk : Nat → UInt8) :
    ∃ all, (lcsWalkLoop a b lcs opts (a.length + b.length) (lcsWalkStart a b lcs junk)).ranges =
        all.filter (lcsLongEnough opts) ∧
      IsLcsLength a b (lcsWalkStart a b lcs junk).idx ∧ LcsReplied a b opts.withmatchlen all ∧
      (all.map LcsRange.length).sum = (lcsWalkStart a b lcs junk).idx := by
  have start : (lcsWalkStart a b lcs junk).Filtered opts (lcsWalkStart a b lcs junk) := ⟨rfl, rfl, rfl, rfl, rfl, rfl⟩
  have filtered : (lcsWalkLoop a b lcs opts (a.length + b.length) _).Filtered opts
      (lcsWalkLoop a b lcs opts.allRanges (a.length + b.length) _) := start.loop getidx (a.length + b.length)
  obtain ⟨replied, total⟩ := @lcsWalk_ranges a b lcs opts table junk
  exact ⟨_, filtered.ranges_eq, table.last_cell, replied, total⟩

/-- LCS with IDX replies, beside the length of a longest common subsequence, the maximal diagonal runs of its
walk back that pass MINMATCHLEN: every run emitted holds the same bytes in both strings, carries its length with
WITHMATCHLEN, lies below the runs before it in both strings and does not continue the one before, and the
lengths of all of them add up to the length replied. -/
theorem lcsCommand_idx {keyA keyB : LcsKey} {a b : List UInt8} (valueA : lcsKeyString keyA = some a)
    (valueB : lcsKeyString keyB = some b) {args : List (List UInt8)} {opts : LcsOptions}
    (parsed : lcsParseOptions lcsNoOptions args = .ok opts) (getidx : opts.getidx = true)
    (notLen : opts.getlen = false) (shortA : a.length < 2 ^ 32 - 2) (shortB : b.length < 2 ^ 32 - 2)
    {protoMaxBulkLen : Nat} (limit : protoMaxBulkLen < 2 ^ 63)
    (fits : 4 * ((a.length + 1) * (b.length + 1)) ≤ protoMaxBulkLen) (tableJunk : Nat → UInt32)
    (resultJunk : Nat → UInt8) :
    ∃ all n, lcsCommand keyA keyB args protoMaxBulkLen true tableJunk resultJunk =
        .idx (all.filter (lcsLongEnough opts)) n ∧
      IsLcsLength a b n ∧ LcsReplied a b opts.withmatchlen all ∧ (all.map LcsRange.length).sum = n := by
  obtain ⟨lcs, table, reply⟩ :=
    lcsCommand_reply valueA valueB parsed (by simp [notLen]) shortA shortB limit fits tableJunk resultJunk
  obtain ⟨all, ranges, whole, replied, total⟩ := lcsWalk_idx table getidx resultJunk
  rw [reply, if_pos getidx, ranges]
  exact ⟨all, _, rfl, whole, replied, total⟩

example : lcsCommand (.string [111, 104, 109, 121, 116, 101, 120, 116])
    (.string [109, 121, 110, 101, 119, 116, 101, 120, 116]) [lcsIdx] 1048576 true (fun _ => 7) (fun _ => 0) =
      .idx [⟨4, 7, 5, 8, none⟩, ⟨2, 3, 0, 1, none⟩] 6 := by decide +kernel

theorem lcsCommand_idx_example :
    lcsKeyString (.string [65, 66, 67, 66]) = some [65, 66, 67, 66] ∧
      lcsKeyString (.string [66, 65, 66]) = some [66, 65, 66] ∧
      lcsParseOptions lcsNoOptions [lcsIdx] = .ok ⟨true, false, false, 0⟩ ∧
      (⟨true, false, false, 0⟩ : LcsOptions).getidx = true ∧ (⟨true, false, false, 0⟩ : LcsOptions).getlen = false ∧
      ([65, 66, 67, 66] : List UInt8).length < 2 ^ 32 - 2 ∧ ([66, 65, 66] : List UInt8).length < 2 ^ 32 - 2 ∧
      1048576 < 2 ^ 63 ∧
      4 * ((([65, 66, 67, 66] : List UInt8).length + 1) * (([66, 65, 66] : List UInt8).length + 1)) ≤ 1048576 ∧
      ∃ all n, lcsCommand (.string [65, 66, 67, 66]) (.string [66, 65, 66]) [lcsIdx] 1048576 true (fun _ => 7)
            (fun _ => 0) = .idx (all.filter (lcsLongEnough ⟨true, false, false, 0⟩)) n ∧
        IsLcsLength ([65, 66, 67, 66] : List UInt8) [66, 65, 66] n ∧
        LcsReplied ([65, 66, 67, 66] : List UInt8) [66, 65, 66] false all ∧ (all.map LcsRange.length).sum = n :=
  ⟨rfl, rfl, rfl, rfl, rfl, by decide, by decide, by decide, by decide,
    @lcsCommand_idx (.string [65, 66, 67, 66]) (.string [66, 65, 66]) [65, 66, 67, 66] [66, 65, 66] rfl rfl [lcsIdx]
      ⟨true, false, false, 0⟩ rfl rfl rfl (by decide) (by decide) 1048576 (by decide) (by decide) (fun _ => 7)
      (fun _ => 0)⟩

/-- LCS is correct whenever its checks pass: LEN replies the length of a longest common subsequence, the plain
form one such subsequence, and IDX that length beside the ranges of the walk back that MINMATCHLEN lets through,
taken from ranges that hold the same bytes in both strings, come in decreasing order in both, are maximal, carry
their length with WITHMATCHLEN and add up to that length. -/
theorem lcsCommand_correct {keyA keyB : LcsKey} {a b : List UInt8} (valueA : lcsKeyString keyA = some a)
    (valueB : lcsKeyString keyB = some b) {args : List (List UInt8)} {opts : LcsOptions}
    (parsed : lcsParseOptions lcsNoOptions args = .ok opts) (unambiguous : ¬(opts.getlen ∧ opts.getidx))
    (shortA : a.length < 2 ^ 32 - 2) (shortB : b.length < 2 ^ 32 - 2) {protoMaxBulkLen : Nat}
    (limit : protoMaxBulkLen < 2 ^ 63) (fits : 4 * ((a.length + 1) * (b.length + 1)) ≤ protoMaxBulkLen)
    (tableJunk : Nat → UInt32) (resultJunk : Nat → UInt8) :
    (opts.getidx = true → ∃ all n, lcsCommand keyA keyB args protoMaxBulkLen true tableJunk resultJunk =
        .idx (all.filter (lcsLongEnough opts)) n ∧
      IsLcsLength a b n ∧ LcsReplied a b opts.withmatchlen all ∧ (all.map LcsRange.length).sum = n) ∧
    (opts.getidx = false → opts.getlen = true →
      ∃ n, lcsCommand keyA keyB args protoMaxBulkLen true tableJunk resultJunk = .len n ∧ IsLcsLength a b n) ∧
    (opts.getidx = false → opts.getlen = false →
      ∃ s, lcsCommand keyA keyB args protoMaxBulkLen true tableJunk resultJunk = .string s ∧
        CommonSubseq s a b ∧ IsLcsLength a b s.length) := by
  obtain ⟨lcs, table, reply⟩ :=
    lcsCommand_reply valueA valueB parsed unambiguous shortA shortB limit fits tableJunk resultJunk
  rw [reply]
  refine ⟨fun idx => ?_, fun idx len => ?_, fun idx len => ?_⟩
  · obtain ⟨all, ranges, whole, replied, total⟩ := lcsWalk_idx table idx resultJunk
    rw [if_pos idx, ranges]
    exact ⟨all, _, rfl, whole, replied, total⟩
  · rw [if_neg (by simp [idx]), if_pos len]
    exact ⟨_, rfl, table.last_cell⟩
  · rw [if_neg (by simp [idx]), if_neg (by simp [len])]
    exact ⟨_, rfl, lcsWalk_result table resultJunk⟩

theorem lcsCommand_correct_idx :
    lcsKeyString (.string [65, 66, 67, 66]) = some [65, 66, 67, 66] ∧
      lcsKeyString (.string [66, 65, 66]) = some [66, 65, 66] ∧
      lcsParseOptions lcsNoOptions [lcsIdx] = .ok ⟨true, false, false, 0⟩ ∧
      ¬((⟨true, false, false, 0⟩ : LcsOptions).getlen ∧ (⟨true, false, false, 0⟩ : LcsOptions).getidx) ∧
      ([65, 66, 67, 66] : List UInt8).length < 2 ^ 32 - 2 ∧ ([66, 65, 66] : List UInt8).length < 2 ^ 32 - 2 ∧
      1048576 < 2 ^ 63 ∧
      4 * ((([65, 66, 67, 66] : List UInt8).length + 1) * (([66, 65, 66] : List UInt8).length + 1)) ≤ 1048576 ∧
      ((⟨true, false, false, 0⟩ : LcsOptions).getidx = true → ∃ all n,
        lcsCommand (.string [65, 66, 67, 66]) (.string [66, 65, 66]) [lcsIdx] 1048576 true (fun _ => 7) (fun _ => 0) =
          .idx (all.filter (lcsLongEnough ⟨true, false, false, 0⟩)) n ∧
        IsLcsLength ([65, 66, 67, 66] : List UInt8) [66, 65, 66] n ∧
        LcsReplied ([65, 66, 67, 66] : List UInt8) [66, 65, 66] false all ∧ (all.map LcsRange.length).sum = n) ∧
      ((⟨true, false, false, 0⟩ : LcsOptions).getidx = false → (⟨true, false, false, 0⟩ : LcsOptions).getlen = true →
        ∃ n, lcsCommand (.string [65, 66, 67, 66]) (.string [66, 65, 66]) [lcsIdx] 1048576 true (fun _ => 7)
            (fun _ => 0) = .len n ∧ IsLcsLength ([65, 66, 67, 66] : List UInt8) [66, 65, 66] n) ∧
      ((⟨true, false, false, 0⟩ : LcsOptions).getidx = false → (⟨true, false, false, 0⟩ : LcsOptions).getlen = false →
        ∃ s, lcsCommand (.string [65, 66, 67, 66]) (.string [66, 65, 66]) [lcsIdx] 1048576 true (fun _ => 7)
            (fun _ => 0) = .string s ∧ CommonSubseq s ([65, 66, 67, 66] : List UInt8) [66, 65, 66] ∧
          IsLcsLength ([65, 66, 67, 66] : List UInt8) [66, 65, 66] s.length) :=
  ⟨rfl, rfl, rfl, by decide, by decide, by decide, by decide, by decide,
    @lcsCommand_correct (.string [65, 66, 67, 66]) (.string [66, 65, 66]) [65, 66, 67, 66] [66, 65, 66] rfl rfl [lcsIdx]
      ⟨true, false, false, 0⟩ rfl (by decide) (by decide) (by decide) 1048576 (by decide) (by decide) (fun _ => 7)
      (fun _ => 0)⟩

end Reply

end Kv.TString
