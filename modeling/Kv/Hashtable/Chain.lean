import Kv.Hashtable.Content

/-!
Well-formed bucket chains, and the chain operations on them: each one that
the code asserts about succeeds, keeps the chain well formed and keeps (or, for
an insertion, extends) its content.
-/

namespace Kv.Hashtable

open Foundations

variable {α : Type}

def Linked (b : Bucket α) : Prop :=
  b.chained = true ∧ isPositionFilled b (entriesPerBucket - 1) = false

def ChainWF (ch : List (Bucket α)) : Prop :=
  ∃ init last, ch = init ++ [last] ∧ (∀ b ∈ init, Linked b) ∧ last.chained = false

theorem chainWF_singleton {b : Bucket α} (h : b.chained = false) : ChainWF [b] :=
  ⟨[], b, rfl, by simp, h⟩

namespace ChainWF

variable {ch : List (Bucket α)}

theorem ne_nil (wf : ChainWF ch) : ch ≠ [] := by
  obtain ⟨init, last, rfl, -, -⟩ := wf
  simp

theorem cons {b : Bucket α} (hb : Linked b) (wf : ChainWF ch) : ChainWF (b :: ch) := by
  obtain ⟨init, last, rfl, linked, unchained⟩ := wf
  refine ⟨b :: init, last, rfl, ?_, unchained⟩
  intro x mem
  rcases List.mem_cons.mp mem with rfl | inInit
  · exact hb
  · exact linked x inInit

theorem of_cons {b : Bucket α} (wf : ChainWF (b :: ch)) :
    (ch = [] ∧ b.chained = false) ∨ (Linked b ∧ ChainWF ch) := by
  obtain ⟨init, last, split, linked, unchained⟩ := wf
  cases init with
  | nil =>
    simp only [List.nil_append, List.cons.injEq] at split
    exact .inl ⟨split.2, split.1 ▸ unchained⟩
  | cons x init =>
    simp only [List.cons_append, List.cons.injEq] at split
    obtain ⟨rfl, rfl⟩ := split
    exact .inr ⟨linked b (by simp), init, last, rfl, fun y mem => linked y (by simp [mem]), unchained⟩

theorem linked_of_chained (wf : ChainWF ch) {b : Bucket α} (mem : b ∈ ch) (chained : b.chained = true) :
    Linked b := by
  obtain ⟨init, last, rfl, linked, unchained⟩ := wf
  rcases List.mem_append.mp mem with inInit | isLast
  · exact linked b inInit
  · simp only [List.mem_singleton] at isLast
    subst isLast
    simp [unchained] at chained

theorem getElem_chained (wf : ChainWF ch) {i : Nat} (hi : i < ch.length) :
    ch[i].chained = true ↔ i + 1 < ch.length := by
  obtain ⟨init, last, rfl, linked, unchained⟩ := wf
  simp only [List.length_append, List.length_singleton] at hi ⊢
  rcases Nat.lt_or_ge i init.length with inInit | atLast
  · rw [List.getElem_append_left inInit]
    simp only [(linked _ (List.getElem_mem inInit)).1, true_iff]
    omega
  · have : i = init.length := by omega
    subst this
    simp [unchained]

theorem getElem_unchained_last (wf : ChainWF ch) : (ch.getLast wf.ne_nil).chained = false := by
  obtain ⟨init, last, rfl, -, unchained⟩ := wf
  simpa using unchained

theorem set {i : Nat} (wf : ChainWF ch) (hi : i < ch.length) (b : Bucket α)
    (same : b.chained = ch[i].chained)
    (slot : b.chained = true → isPositionFilled b (entriesPerBucket - 1) = false) :
    ChainWF (ch.set i b) := by
  have chainedIff := wf.getElem_chained hi
  obtain ⟨init, last, rfl, linked, unchained⟩ := wf
  simp only [List.length_append, List.length_singleton] at hi chainedIff
  rcases Nat.lt_or_ge i init.length with inInit | atLast
  · refine ⟨init.set i b, last, List.set_append_left _ _ inInit, ?_, unchained⟩
    intro x mem
    rcases List.mem_or_eq_of_mem_set mem with old | rfl
    · exact linked x old
    · have : x.chained = true := by rw [same]; exact chainedIff.mpr (by omega)
      exact ⟨this, slot this⟩
  · have : i = init.length := by omega
    subst this
    refine ⟨init, b, by simp, linked, ?_⟩
    rw [same]
    simp [unchained]

end ChainWF

theorem lastDepth_eq {ch : List (Bucket α)} (wf : ChainWF ch) : lastDepth ch = ch.length - 1 := by
  induction ch with
  | nil => exact absurd rfl wf.ne_nil
  | cons b rest ih =>
    rcases wf.of_cons with ⟨rfl, unchained⟩ | ⟨linked, wfRest⟩
    · simp [lastDepth, unchained]
    · have := wfRest.ne_nil
      have len : rest.length ≠ 0 := by simpa using this
      simp only [lastDepth, linked.1, if_true, ih wfRest, List.length_cons]
      omega

theorem ChainWF.drop {ch : List (Bucket α)} (wf : ChainWF ch) {k : Nat} (hk : k < ch.length) :
    ChainWF (ch.drop k) := by
  induction k generalizing ch with
  | zero => simpa using wf
  | succ k ih =>
    cases ch with
    | nil => simp at hk
    | cons b rest =>
      rcases wf.of_cons with ⟨rfl, _⟩ | ⟨_, wfRest⟩
      · simp at hk
      · exact ih wfRest (by simpa using hk)

theorem numBucketPositions_unchained {b : Bucket α} (h : b.chained = false) : numBucketPositions b = 7 := by
  simp [numBucketPositions, h, entriesPerBucket]

theorem numBucketPositions_chained {b : Bucket α} (h : b.chained = true) : numBucketPositions b = 6 := by
  simp [numBucketPositions, h, entriesPerBucket]

theorem numBucketPositions_le (b : Bucket α) : numBucketPositions b ≤ entriesPerBucket := by
  simp only [numBucketPositions]
  omega

@[simp] theorem isPositionFilled_emptyBucket [Inhabited α] (q : Nat) :
    isPositionFilled (emptyBucket : Bucket α) q = false := by
  simp [isPositionFilled, emptyBucket]

theorem moveEntry_eq {bt bf : Bucket α} {pt pf : Nat} (free : isPositionFilled bt pt = false)
    (full : isPositionFilled bf pf = true) :
    moveEntry bt pt bf pf = some (bt.fill pt (bf.entries pf) (bf.hashes pf), bf.clear pf) := by
  simp [moveEntry, free, full]

theorem bucketConvertToChained_full [Inhabited α] {b : Bucket α} (unchained : b.chained = false)
    (full : bucketIsFull b = true) :
    bucketConvertToChained b = some ({ b.clear (entriesPerBucket - 1) with chained := true },
      emptyBucket.fill 0 (b.entries (entriesPerBucket - 1)) (b.hashes (entriesPerBucket - 1))) := by
  have allSet : b.presence.toNat = 2 ^ 7 - 1 := by
    simpa [bucketIsFull, numBucketPositions_unchained unchained] using full
  have last : isPositionFilled b (entriesPerBucket - 1) = true := presence_full _ allSet 6 (by omega)
  simp only [bucketConvertToChained, unchained, last, Bool.not_true, Bool.false_eq_true, if_false]
  rw [moveEntry_eq (isPositionFilled_emptyBucket 0) last]
  rfl

theorem insertWalk_spec [Inhabited α] {ch : List (Bucket α)} (wf : ChainWF ch) :
    ∃ c' depth added, insertWalk ch = some (c', depth, added) ∧ ChainWF c' ∧
      chainContent c' = chainContent ch ∧ c'.length = ch.length + (if added then 1 else 0) ∧
      ∃ h : depth < c'.length, bucketIsFull c'[depth] = false := by
  induction ch with
  | nil => exact absurd rfl wf.ne_nil
  | cons b rest ih =>
    by_cases full : bucketIsFull b = true
    · rcases wf.of_cons with ⟨rfl, unchained⟩ | ⟨linked, wfRest⟩
      · -- the last bucket is full: it becomes chained to a new child
        have child : bucketIsFull (emptyBucket.fill 0 (b.entries (entriesPerBucket - 1))
            (b.hashes (entriesPerBucket - 1)) : Bucket α) = false := by
          simp [bucketIsFull, numBucketPositions, Bucket.fill, emptyBucket, entriesPerBucket]
        refine ⟨[{ b.clear (entriesPerBucket - 1) with chained := true },
          emptyBucket.fill 0 (b.entries (entriesPerBucket - 1)) (b.hashes (entriesPerBucket - 1))],
          1, true, ?_, ?_, ?_, rfl, by simp, child⟩
        · simp [insertWalk, full, unchained, bucketConvertToChained_full unchained full]
        · refine ChainWF.cons ⟨rfl, ?_⟩ (chainWF_singleton rfl)
          show isPositionFilled (b.clear (entriesPerBucket - 1)) (entriesPerBucket - 1) = false
          simp [Bucket.isPositionFilled_clear _ (show entriesPerBucket - 1 < entriesPerBucket by decide)]
        · have filledLast : isPositionFilled b (entriesPerBucket - 1) = true := by
            have allSet : b.presence.toNat = 2 ^ 7 - 1 := by
              simpa [bucketIsFull, numBucketPositions_unchained unchained] using full
            exact presence_full _ allSet 6 (by omega)
          have lt : entriesPerBucket - 1 < entriesPerBucket := by decide
          have emptyContent : (emptyBucket : Bucket α).content = 0 := (Bucket.content_eq_zero_iff _).mpr rfl
          rw [chainContent_cons, chainContent_cons, chainContent_cons, chainContent_nil,
            Bucket.content_setChained, Bucket.content_fill _ (by decide) (isPositionFilled_emptyBucket 0),
            emptyContent, Bucket.content_clear b lt filledLast]
          simp only [add_zero]
          rw [add_comm, Multiset.cons_add, zero_add]
      · obtain ⟨rest', depth, added, walk, wf', content, length, lt, notFull⟩ := ih wfRest
        refine ⟨b :: rest', depth + 1, added, ?_, wf'.cons linked, ?_, ?_, by simp; omega, notFull⟩
        · simp [insertWalk, full, linked.1, walk]
        · simp [content]
        · simp [length]
          split <;> omega
    · refine ⟨b :: rest, 0, false, ?_, wf, rfl, by simp, by simp, by simpa using full⟩
      simp [insertWalk, full]

theorem firstFreePosition_spec {b : Bucket α} (notFull : bucketIsFull b = false)
    (slot : b.chained = true → isPositionFilled b (entriesPerBucket - 1) = false) :
    ∃ pos, firstFreePosition b = some pos ∧ pos < numBucketPositions b ∧ isPositionFilled b pos = false := by
  have found : ∀ pos, firstFreePosition b = some pos → isPositionFilled b pos = false := by
    intro pos h
    simpa using List.find?_some h
  cases hc : b.chained
  · have notAll : b.presence.toNat ≠ 2 ^ 7 - 1 := by
      simpa [bucketIsFull, numBucketPositions_unchained hc] using notFull
    obtain ⟨pos, h, lt⟩ := presence_free b.presence notAll
    exact ⟨pos, h, by simpa [numBucketPositions_unchained hc] using lt, found pos h⟩
  · have notAll : b.presence.toNat ≠ 2 ^ 6 - 1 := by
      simpa [bucketIsFull, numBucketPositions_chained hc] using notFull
    obtain ⟨pos, h, lt⟩ := presence_free_below_six b.presence notAll (slot hc)
    exact ⟨pos, h, by simpa [numBucketPositions_chained hc] using lt, found pos h⟩

end Kv.Hashtable
