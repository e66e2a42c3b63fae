import Kv.Hashtable.Chain

/-!
Shrinking a chain: `pruneLastBucket`, `fillBucketHole` and
`compactBucketChain` keep a well-formed chain well formed and keep its
content, and each bucket they free shortens the chain by one.
-/

namespace Kv.Hashtable

open Foundations

variable {α : Type}

theorem chainContent_eraseIdx (ch : List (Bucket α)) {i : Nat} (hi : i < ch.length) :
    chainContent ch = chainContent (ch.eraseIdx i) + ch[i].content := by
  conv_lhs => rw [← List.take_append_drop i ch, List.drop_eq_getElem_cons hi]
  rw [List.eraseIdx_eq_take_drop_succ, chainContent_append, chainContent_cons, chainContent_append]
  abel

theorem chainContent_move (ch : List (Bucket α)) {i j : Nat} (hi : i < ch.length) (hj : j < ch.length)
    (hij : i ≠ j) {bi bj : Bucket α} {x : α × UInt8} (gain : bi.content = x ::ₘ ch[i].content)
    (loss : ch[j].content = x ::ₘ bj.content) :
    chainContent ((ch.set i bi).set j bj) = chainContent ch := by
  have hj' : j < (ch.set i bi).length := by simpa using hj
  have setJ := chainContent_set (ch.set i bi) hj' bj
  have setI := chainContent_set ch hi bi
  have old : (ch.set i bi)[j] = ch[j] := List.getElem_set_ne hij hj'
  rw [old, loss] at setJ
  have key : chainContent ((ch.set i bi).set j bj) + ({x} + bj.content + ch[i].content) =
      chainContent ch + ({x} + bj.content + ch[i].content) := by
    calc chainContent ((ch.set i bi).set j bj) + ({x} + bj.content + ch[i].content)
        = chainContent ((ch.set i bi).set j bj) + x ::ₘ bj.content + ch[i].content := by
          rw [← Multiset.singleton_add]
          abel
      _ = chainContent (ch.set i bi) + ch[i].content + bj.content := by
          rw [setJ]
          abel
      _ = chainContent ch + ({x} + bj.content + ch[i].content) := by
          rw [setI, gain, ← Multiset.singleton_add]
          abel
  exact add_right_cancel key

namespace ChainWF

variable {ch : List (Bucket α)}

theorem linked_of_mem_take (wf : ChainWF ch) {k : Nat} (hk : k < ch.length) {b : Bucket α}
    (mem : b ∈ ch.take k) : Linked b := by
  obtain ⟨init, last, rfl, linked, -⟩ := wf
  simp only [List.length_append, List.length_singleton] at hk
  rw [List.take_append_of_le_length (by omega)] at mem
  exact linked b (List.mem_of_mem_take mem)

theorem eraseIdx (wf : ChainWF ch) {j : Nat} (hj : j + 1 < ch.length) : ChainWF (ch.eraseIdx j) := by
  obtain ⟨init, last, rfl, linked, unchained⟩ := wf
  simp only [List.length_append, List.length_singleton] at hj
  refine ⟨init.eraseIdx j, last, List.eraseIdx_append_of_lt_length (by omega) _, ?_, unchained⟩
  exact fun b mem => linked b (List.mem_of_mem_eraseIdx mem)

theorem last_unchained (wf : ChainWF ch) {i : Nat} (hi : i + 1 = ch.length) :
    ch[i].chained = false := by
  have := wf.getElem_chained (i := i) (by omega)
  cases h : ch[i].chained
  · rfl
  · exact absurd (this.mp h) (by omega)

end ChainWF

theorem eq_take_append_last_two (ch : List (Bucket α)) {k : Nat} (hk : k + 2 = ch.length) :
    ch = ch.take k ++ [ch[k], ch[k + 1]] := by
  conv_lhs => rw [← List.take_append_drop k ch, List.drop_eq_getElem_cons (by omega),
    List.drop_eq_getElem_cons (by omega), List.drop_eq_nil_of_le (by omega)]

def prunedBucket (bl last : Bucket α) : Bucket α :=
  if last.presence ≠ 0 then
    ({ bl with chained := false } : Bucket α).fill (entriesPerBucket - 1)
      (last.entries last.presence.ctz.toNat) (last.hashes last.presence.ctz.toNat)
  else { bl with chained := false }

theorem pruneLastBucket_spec {ch : List (Bucket α)} (wf : ChainWF ch) {beforeLast : Nat}
    (hlen : beforeLast + 2 = ch.length)
    (few : ch[beforeLast + 1].presence = 0 ∨ ch[beforeLast + 1].presence.cpop.toNat = 1) :
    ∃ c', pruneLastBucket ch beforeLast = some c' ∧ ChainWF c' ∧
      chainContent c' = chainContent ch ∧ c'.length + 1 = ch.length := by
  have hbl : beforeLast < ch.length := by omega
  have hl : beforeLast + 1 < ch.length := by omega
  have linked : Linked ch[beforeLast] :=
    wf.linked_of_chained (List.getElem_mem hbl) ((wf.getElem_chained hbl).mpr hl)
  have lastUnchained := wf.last_unchained (i := beforeLast + 1) (by omega)
  have slot : isPositionFilled ({ ch[beforeLast] with chained := false } : Bucket α) (entriesPerBucket - 1) = false :=
    linked.2
  refine ⟨ch.take beforeLast ++ [prunedBucket ch[beforeLast] ch[beforeLast + 1]], ?_, ?_, ?_, ?_⟩
  · simp only [pruneLastBucket, List.getElem?_eq_getElem hbl, List.getElem?_eq_getElem hl,
      bucketConvertToUnchained]
    by_cases empty : ch[beforeLast + 1].presence = 0
    · simp [empty, prunedBucket, linked.1, linked.2, lastUnchained]
    · have filled := (presence_ctz _ empty).2
      have one : ch[beforeLast + 1].presence.cpop.toNat = 1 := few.resolve_left empty
      have empty' : ¬ch[beforeLast + 1].presence = 0#7 := empty
      simp [empty', prunedBucket, moveEntry_eq slot filled, linked.1, linked.2, lastUnchained, one]
  · refine ⟨ch.take beforeLast, _, rfl, fun b mem => wf.linked_of_mem_take hbl mem, ?_⟩
    unfold prunedBucket
    split <;> rfl
  · conv_rhs => rw [eq_take_append_last_two ch hlen]
    simp only [chainContent_append, chainContent_cons, chainContent_nil, add_zero]
    congr 1
    unfold prunedBucket
    by_cases empty : ch[beforeLast + 1].presence = 0
    · rw [if_neg (not_not.mpr empty), (Bucket.content_eq_zero_iff _).mpr empty, add_zero]
      rfl
    · have one : ch[beforeLast + 1].presence.cpop.toNat = 1 := by
        rcases few with h | h
        · exact absurd h empty
        · exact h
      rw [if_pos empty, Bucket.content_fill _ (by decide) slot, Bucket.content_single _ one,
        add_comm ch[beforeLast].content, Multiset.singleton_add]
      rfl
  · simp
    omega

theorem fillBucketHole_spec {ch : List (Bucket α)} (wf : ChainWF ch) {depth pos : Nat}
    (hd : depth + 1 < ch.length) (hpos : pos < entriesPerBucket - 1)
    (hole : isPositionFilled ch[depth] pos = false) :
    ∃ c' freed, fillBucketHole ch depth pos = some (c', freed) ∧ ChainWF c' ∧
      chainContent c' = chainContent ch ∧ c'.length + freed = ch.length ∧ depth < c'.length := by
  have hdl : depth < ch.length := by omega
  have chained : ch[depth].chained = true := (wf.getElem_chained hdl).mpr hd
  have lastIdx : depth + 1 + lastDepth (ch.drop (depth + 1)) = ch.length - 1 := by
    rw [lastDepth_eq (wf.drop hd), List.length_drop]
    omega
  have hlast : ch.length - 1 < ch.length := by omega
  have beforeLast : ch.length - 1 - 1 + 1 = ch.length - 1 := by omega
  by_cases empty : ch[ch.length - 1].presence = 0
  · -- nothing to move: the empty last bucket is freed
    have few : ch[ch.length - 1 - 1 + 1].presence = 0 := by simpa [beforeLast] using empty
    obtain ⟨c', prune, wf', content, len⟩ := pruneLastBucket_spec wf (by omega) (.inl few)
    refine ⟨c', 1, ?_, wf', content, by omega, by omega⟩
    have empty' : ch[ch.length - 1].presence = 0#7 := empty
    simp [fillBucketHole, List.getElem?_eq_getElem hdl, List.getElem?_eq_getElem hlast, chained, hole,
      lastIdx, empty', prune]
  · -- the first entry of the last bucket fills the hole
    have ctz := presence_ctz _ empty
    let x := (ch[ch.length - 1].entries ch[ch.length - 1].presence.ctz.toNat,
      ch[ch.length - 1].hashes ch[ch.length - 1].presence.ctz.toNat)
    let b := ch[depth].fill pos x.1 x.2
    let lb := ch[ch.length - 1].clear ch[ch.length - 1].presence.ctz.toNat
    have hposLt : pos < entriesPerBucket := by omega
    have bChained : b.chained = true := chained
    have wf1 : ChainWF ((ch.set depth b).set (ch.length - 1) lb) := by
      have wfSet := wf.set hdl b rfl fun _ => by
        simp [b, Bucket.isPositionFilled_fill _ hposLt, (wf.linked_of_chained (List.getElem_mem hdl) chained).2]
        omega
      exact wfSet.set (by simpa using hlast) lb (by simp [lb, show depth ≠ ch.length - 1 by omega])
        fun h => by simp [lb, wf.last_unchained (i := ch.length - 1) (by omega)] at h
    have content1 : chainContent ((ch.set depth b).set (ch.length - 1) lb) = chainContent ch :=
      chainContent_move ch hdl hlast (by omega) (Bucket.content_fill _ hposLt hole x.1 x.2)
        (Bucket.content_clear _ ctz.1 ctz.2)
    have len1 : ((ch.set depth b).set (ch.length - 1) lb).length = ch.length := by simp
    have hlast1 : ch.length - 1 < ((ch.set depth b).set (ch.length - 1) lb).length := by simpa using hlast
    have lastAfter : ((ch.set depth b).set (ch.length - 1) lb)[ch.length - 1] = lb := by
      simp
    have move : fillBucketHole ch depth pos =
        if lb.presence == 0 || lb.presence.cpop.toNat == 1 then
          (pruneLastBucket ((ch.set depth b).set (ch.length - 1) lb) (ch.length - 1 - 1)).bind fun ch => some (ch, 1)
        else some ((ch.set depth b).set (ch.length - 1) lb, 0) := by
      have empty' : ¬ch[ch.length - 1].presence = 0#7 := empty
      have ctzLt : ¬entriesPerBucket ≤ ch[ch.length - 1].presence.ctz.toNat := by
        have := ctz.1
        simp only [entriesPerBucket]
        omega
      have filledLast : isPositionFilled ch[ch.length - 1] ch[ch.length - 1].presence.ctz.toNat = true := ctz.2
      have lastAfter' : ((ch.set depth b).set (ch.length - 1) lb)[ch.length - 1]? = some lb := by
        rw [List.getElem?_eq_getElem (by simpa using hlast), lastAfter]
      simp only [b, lb, x] at lastAfter'
      simp [fillBucketHole, List.getElem?_eq_getElem hdl, List.getElem?_eq_getElem hlast, chained, hole,
        lastIdx, empty', ctzLt, filledLast, moveEntry_eq hole filledLast, lastAfter', b, lb, x]
    by_cases few : lb.presence = 0 ∨ lb.presence.cpop.toNat = 1
    · have hlast2 : ch.length - 1 - 1 + 1 < ((ch.set depth b).set (ch.length - 1) lb).length := by simp; omega
      have few' : ((ch.set depth b).set (ch.length - 1) lb)[ch.length - 1 - 1 + 1].presence = 0 ∨
          ((ch.set depth b).set (ch.length - 1) lb)[ch.length - 1 - 1 + 1].presence.cpop.toNat = 1 := by
        simpa [beforeLast] using few
      obtain ⟨c', prune, wf', content, len⟩ := pruneLastBucket_spec wf1 (by simp; omega) few'
      refine ⟨c', 1, ?_, wf', content.trans content1, by omega, by omega⟩
      rw [move, if_pos (by rcases few with h | h <;> simp [h]), prune]
      rfl
    · refine ⟨_, 0, ?_, wf1, content1, by simp, by simp; omega⟩
      obtain ⟨nonzero, several⟩ := not_or.mp few
      have nonzero' : ¬lb.presence = 0#7 := nonzero
      rw [move, if_neg (by simp [nonzero', several])]

theorem fillHoles_spec (holes : List Nat) (hholes : ∀ pos ∈ holes, pos < entriesPerBucket - 1)
    {ch : List (Bucket α)} (wf : ChainWF ch) {depth : Nat} (hd : depth + 1 < ch.length) :
    ∃ c' freed stop, fillHoles ch depth holes = some (c', freed, stop) ∧ ChainWF c' ∧
      chainContent c' = chainContent ch ∧ c'.length + freed = ch.length ∧ depth < c'.length ∧
      (stop = false → depth + 1 < c'.length) := by
  induction holes generalizing ch with
  | nil => exact ⟨ch, 0, false, rfl, wf, rfl, rfl, by omega, fun _ => hd⟩
  | cons pos rest ih =>
    have hrest : ∀ pos ∈ rest, pos < entriesPerBucket - 1 := fun p mem => hholes p (by simp [mem])
    have hdl : depth < ch.length := by omega
    by_cases filled : isPositionFilled ch[depth] pos = true
    · obtain ⟨c', freed, stop, holesEq, spec⟩ := ih hrest wf hd
      exact ⟨c', freed, stop, by simp [fillHoles, List.getElem?_eq_getElem hdl, filled, holesEq], spec⟩
    · have hole : isPositionFilled ch[depth] pos = false := by simpa using filled
      obtain ⟨c1, freed, fill, wf1, content1, len1, hd1⟩ :=
        fillBucketHole_spec wf hd (hholes pos (by simp)) hole
      by_cases chained : c1[depth].chained = true
      · obtain ⟨c2, more, stop, holesEq, wf2, content2, len2, hd2, next⟩ :=
          ih hrest wf1 ((wf1.getElem_chained hd1).mp chained)
        refine ⟨c2, freed + more, stop, ?_, wf2, content2.trans content1, by omega, hd2, next⟩
        simp [fillHoles, List.getElem?_eq_getElem hdl, hole, fill, List.getElem?_eq_getElem hd1, chained,
          holesEq]
      · have unchained : c1[depth].chained = false := by simpa using chained
        refine ⟨c1, freed, true, ?_, wf1, content1, len1, hd1, by simp⟩
        simp [fillHoles, List.getElem?_eq_getElem hdl, hole, fill, List.getElem?_eq_getElem hd1, unchained]

theorem compactLoop_spec (fuel : Nat) {ch : List (Bucket α)} (wf : ChainWF ch) {depth : Nat}
    (hd : depth < ch.length) (hfuel : ch.length - depth ≤ fuel) :
    ∃ c' freed, compactLoop fuel ch depth = some (c', freed) ∧ ChainWF c' ∧
      chainContent c' = chainContent ch ∧ c'.length + freed = ch.length := by
  induction fuel generalizing ch depth with
  | zero => omega
  | succ fuel ih =>
    by_cases chained : ch[depth].chained = true
    · have hnext : depth + 1 < ch.length := (wf.getElem_chained hd).mp chained
      by_cases emptyMiddle : ch[depth + 1].chained = true ∧ ch[depth + 1].presence = 0
      · -- an empty bucket in the middle is unlinked
        have hlen : (ch.eraseIdx (depth + 1)).length + 1 = ch.length := by
          simp [List.length_eraseIdx, hnext]
          omega
        obtain ⟨c', freed, loop, wf', content, len⟩ :=
          ih (wf.eraseIdx ((wf.getElem_chained hnext).mp emptyMiddle.1))
            (show depth < (ch.eraseIdx (depth + 1)).length by omega) (by omega)
        refine ⟨c', freed + 1, ?_, wf', ?_, by omega⟩
        · have empty' : ch[depth + 1].presence = 0#7 := emptyMiddle.2
          simp [compactLoop, List.getElem?_eq_getElem hd, chained, List.getElem?_eq_getElem hnext,
            emptyMiddle.1, empty', loop]
        · rw [content, chainContent_eraseIdx ch hnext, (Bucket.content_eq_zero_iff _).mpr emptyMiddle.2,
            add_zero]
      · by_cases lastFew : ch[depth + 1].chained = false ∧
            (ch[depth + 1].presence = 0 ∨ ch[depth + 1].presence.cpop.toNat = 1)
        · -- the next bucket is the last one and holds at most one entry
          have hlen : depth + 2 = ch.length := by
            have := wf.getElem_chained hnext
            rw [lastFew.1] at this
            simp at this
            omega
          obtain ⟨c', prune, wf', content, len⟩ := pruneLastBucket_spec wf hlen lastFew.2
          refine ⟨c', 1, ?_, wf', content, len⟩
          have few : (ch[depth + 1].presence = 0#7 ∨ ch[depth + 1].presence.cpop.toNat = 1) := lastFew.2
          simp [compactLoop, List.getElem?_eq_getElem hd, chained, List.getElem?_eq_getElem hnext,
            lastFew.1, few, prune]
        · -- fill the holes of this bucket, then go on with the next
          let holes := if ch[depth].presence.cpop.toNat < entriesPerBucket - 1 then
            List.range (entriesPerBucket - 1) else []
          have hholes : ∀ pos ∈ holes, pos < entriesPerBucket - 1 := by
            intro pos mem
            simp only [holes] at mem
            split at mem
            · exact List.mem_range.mp mem
            · simp at mem
          obtain ⟨c1, freed, stop, fill, wf1, content1, len1, hd1, next⟩ := fillHoles_spec holes hholes wf hnext
          have notEmptyMiddle : ¬(ch[depth + 1].chained = true ∧ ch[depth + 1].presence = 0#7) := emptyMiddle
          have notLastFew : ¬(ch[depth + 1].chained = false ∧
              (ch[depth + 1].presence = 0#7 ∨ ch[depth + 1].presence.cpop.toNat = 1)) := lastFew
          cases stop
          · obtain ⟨c2, more, loop, wf2, content2, len2⟩ :=
              ih wf1 (next rfl) (by omega)
            refine ⟨c2, freed + more, ?_, wf2, content2.trans content1, by omega⟩
            simp only [compactLoop, List.getElem?_eq_getElem hd, List.getElem?_eq_getElem hnext]
            simp [chained, notEmptyMiddle, notLastFew, holes] at fill ⊢
            simp [fill, loop]
          · refine ⟨c1, freed, ?_, wf1, content1, len1⟩
            simp only [compactLoop, List.getElem?_eq_getElem hd, List.getElem?_eq_getElem hnext]
            simp [chained, notEmptyMiddle, notLastFew, holes] at fill ⊢
            simp [fill]
    · have unchained : ch[depth].chained = false := by simpa using chained
      exact ⟨ch, 0, by simp [compactLoop, List.getElem?_eq_getElem hd, unchained], wf, rfl, rfl⟩

theorem compactBucketChain_spec {ch : List (Bucket α)} (wf : ChainWF ch) :
    ∃ c' freed, compactBucketChain ch = some (c', freed) ∧ ChainWF c' ∧
      chainContent c' = chainContent ch ∧ c'.length + freed = ch.length :=
  compactLoop_spec _ wf (List.length_pos_iff.mpr wf.ne_nil) (by omega)

theorem compactBucketChain_spec_two :
    ChainWF [(⟨true, 1, fun _ => 7, fun _ => 3⟩ : Bucket Nat), ⟨false, 1, fun _ => 9, fun _ => 4⟩] ∧
      ∃ c' freed, compactBucketChain [(⟨true, 1, fun _ => 7, fun _ => 3⟩ : Bucket Nat), ⟨false, 1, fun _ => 9, fun _ => 4⟩] =
          some (c', freed) ∧ ChainWF c' ∧
        chainContent c' = chainContent [(⟨true, 1, fun _ => 7, fun _ => 3⟩ : Bucket Nat), ⟨false, 1, fun _ => 9, fun _ => 4⟩] ∧
        c'.length + freed = 2 :=
  have wf : ChainWF [(⟨true, 1, fun _ => 7, fun _ => 3⟩ : Bucket Nat), ⟨false, 1, fun _ => 9, fun _ => 4⟩] :=
    ⟨[_], _, rfl, fun b mem => by rw [List.mem_singleton.mp mem]; exact ⟨rfl, by decide⟩, rfl⟩
  ⟨wf, compactBucketChain_spec wf⟩

end Kv.Hashtable
