import Kv.Hashtable.Update
import Kv.Hashtable.Incremental
import Kv.Foundations.Run

/-!
The public API of `hashtable.c` as a system: a caller issues the calls one
after the other, with the global `resize_policy` beside the table. Each call
is answered by what it returns that a caller of a map can observe.
-/

set_option linter.dupNamespace false

namespace Kv.Hashtable

open Foundations

variable {α κ : Type}

inductive Op (α κ : Type) where
  | find (key : κ)
  | incrementalFind (key : κ)
  | add (entry : α)
  | addOrFind (entry : α)
  | insertAtPosition (entry : α)
  | pop (key : κ)
  | delete (key : κ)
  | twoPhasePop (key : κ)
  | size
  | expand (size : Nat)
  | tryExpand (size : Nat) (allocOk : Bool)
  | shrinkIfNeeded
  | rightsizeIfNeeded
  | rehashMicroseconds (elapsed : Nat → Bool)
  | setResizePolicy (policy : ResizePolicy)
  | pauseRehashing
  | resumeRehashing
  | pauseAutoShrink
  | resumeAutoShrink

inductive Reply (α : Type) where
  | done
  | found (entry : Option α)
  | flag (b : Bool)
  | addOrFind (added : Bool) (existing : Option α)
  | size (n : Nat)

structure World (α : Type) where
  policy : ResizePolicy
  ht : Hashtable α
  rehashPauses : Nat
  shrinkPauses : Nat

def initWorld (policy : ResizePolicy) : World α :=
  ⟨policy, hashtableCreate, 0, 0⟩

variable (T : HashtableType α κ) [Inhabited α]

def twoPhaseInsert (policy : ResizePolicy) (ht : Hashtable α) (entry : α) :
    Option (Bool × Option α × Hashtable α) :=
  (hashtableFindPositionForInsert T policy ht (T.entryGetKey entry)).bind fun r =>
    match r.1 with
    | .existing e => some (false, some e, r.2)
    | .position p => (hashtableInsertAtPosition r.2 entry p).map fun ht => (true, none, ht)

def twoPhasePop (policy : ResizePolicy) (ht : Hashtable α) (key : κ) : Option (Option α × Hashtable α) := do
  let (found, ht) ← hashtableTwoPhasePopFindRef T policy ht key
  match found with
  | none => pure (none, ht)
  | some (e, p) =>
    let ht ← hashtableTwoPhasePopDelete T policy ht p
    pure (some e, ht)

/-- `hashtableEmpty`: a rehash in progress is taken as completed and every
allocated table is freed and reset. -/
def hashtableEmpty (ht : Hashtable α) : Hashtable α :=
  let ht := if ht.isRehashing then { ht with rehashIdx := -1 } else ht
  { ht with tables := fun i => if (ht.tables i).exp < 0 then ht.tables i else resetTable }

def apiStep (w : World α) : Op α κ → Option (World α × Reply α)
  | .find key => (hashtableFind T w.policy w.ht key).map fun (res, ht) => ({ w with ht }, .found res)
  | .incrementalFind key => (hashtableIncrementalFind T w.ht key).map fun res => (w, .found res)
  | .add entry => (hashtableAdd T w.policy w.ht entry).map fun (added, ht) => ({ w with ht }, .flag added)
  | .addOrFind entry => (hashtableAddOrFind T w.policy w.ht entry).map
      fun (added, existing, ht) => ({ w with ht }, .addOrFind added existing)
  | .insertAtPosition entry => (twoPhaseInsert T w.policy w.ht entry).map
      fun (added, existing, ht) => ({ w with ht }, .addOrFind added existing)
  | .pop key => (hashtablePop T w.policy w.ht key).map fun (res, ht) => ({ w with ht }, .found res)
  | .delete key => (hashtableDelete T w.policy w.ht key).map fun (deleted, ht) => ({ w with ht }, .flag deleted)
  | .twoPhasePop key => (twoPhasePop T w.policy w.ht key).map fun (res, ht) => ({ w with ht }, .found res)
  | .size => some (w, .size (hashtableSize w.ht))
  | .expand size => (hashtableExpand T w.policy w.ht size).map fun (_, ht) => ({ w with ht }, .done)
  | .tryExpand size allocOk => (hashtableTryExpand T w.policy w.ht size allocOk).map
      fun (_, ht) => ({ w with ht }, .done)
  | .shrinkIfNeeded => (hashtableShrinkIfNeeded T w.policy w.ht).map fun (_, ht) => ({ w with ht }, .done)
  | .rightsizeIfNeeded => (hashtableRightsizeIfNeeded T w.policy w.ht).map fun (_, ht) => ({ w with ht }, .done)
  | .rehashMicroseconds elapsed => (hashtableRehashMicroseconds T w.policy w.ht elapsed).map
      fun (_, ht) => ({ w with ht }, .done)
  | .setResizePolicy policy => some ({ w with policy }, .done)
  | .pauseRehashing =>
    some ({ w with ht := hashtablePauseRehashing w.ht, rehashPauses := w.rehashPauses + 1 }, .done)
  | .resumeRehashing =>
    match w.rehashPauses with
    | 0 => some (w, .done)
    | n + 1 => (hashtableResumeRehashing T w.policy w.ht).map fun ht => ({ w with ht, rehashPauses := n }, .done)
  | .pauseAutoShrink =>
    some ({ w with ht := hashtablePauseAutoShrink w.ht, shrinkPauses := w.shrinkPauses + 1 }, .done)
  | .resumeAutoShrink =>
    match w.shrinkPauses with
    | 0 => some (w, .done)
    | n + 1 => (hashtableResumeAutoShrink T w.policy w.ht).map fun ht => ({ w with ht, shrinkPauses := n }, .done)

structure Good (w : World α) : Prop where
  valid : Valid T w.ht
  rehashPauses : w.ht.pauseRehash = w.rehashPauses
  shrinkPauses : w.ht.pauseAutoShrink = w.rehashPauses + w.shrinkPauses

section Effect

variable {T}

def Absent (key : κ) (c : Multiset (α × UInt8)) : Prop :=
  ∀ x ∈ c, hashOf T x.1 = T.hashFunction key → checkCandidateInBucket T key x.1 = false

variable (T) in
def Answers (key : κ) (c : Multiset (α × UInt8)) : Option α → Prop
  | some e => checkCandidateInBucket T key e = true ∧ ∃ h2, (e, h2) ∈ c
  | none => Absent (T := T) key c

variable (T) in
def Removes (key : κ) (c c' : Multiset (α × UInt8)) : Option α → Prop
  | some e => checkCandidateInBucket T key e = true ∧ ∃ h2, c = (e, h2) ::ₘ c'
  | none => c' = c ∧ Absent (T := T) key c

variable (T) in
def Inserts (entry : α) (c c' : Multiset (α × UInt8)) : Bool → Option α → Prop
  | true, existing => existing = none ∧ Absent (T := T) (T.entryGetKey entry) c ∧
      c' = (entry, highBits (hashOf T entry)) ::ₘ c
  | false, existing => c' = c ∧ ∃ e, existing = some e ∧ Answers T (T.entryGetKey entry) c (some e)

variable (T) in
def Effect : Op α κ → Multiset (α × UInt8) → Reply α → Multiset (α × UInt8) → Prop
  | .find key, c, r, c' => c' = c ∧ ∃ res, r = .found res ∧ Answers T key c res
  | .incrementalFind key, c, r, c' => c' = c ∧ ∃ res, r = .found res ∧ Compares T key c res
  | .add entry, c, r, c' => ∃ added existing, r = .flag added ∧ Inserts T entry c c' added existing
  | .addOrFind entry, c, r, c' => ∃ added existing, r = .addOrFind added existing ∧ Inserts T entry c c' added existing
  | .insertAtPosition entry, c, r, c' =>
    ∃ added existing, r = .addOrFind added existing ∧ Inserts T entry c c' added existing
  | .pop key, c, r, c' => ∃ res, r = .found res ∧ Removes T key c c' res
  | .delete key, c, r, c' => ∃ res, r = .flag res.isSome ∧ Removes T key c c' res
  | .twoPhasePop key, c, r, c' => ∃ res, r = .found res ∧ Removes T key c c' res
  | .size, c, r, c' => c' = c ∧ r = .size (Multiset.card c)
  | _, c, r, c' => c' = c ∧ r = .done

end Effect

section Spec

variable {T}

omit [Inhabited α] in
theorem hashtableSize_eq_card {ht : Hashtable α} (valid : Valid T ht) :
    hashtableSize ht = Multiset.card (htContent ht) := by
  rw [hashtableSize, valid.table0.used, valid.table1.used, htContent, Multiset.card_add]

omit [Inhabited α] in
theorem Good.of_preserved {w : World α} (good : Good T w) {ht : Hashtable α} (preserved : Preserved T w.ht ht) :
    Good T { w with ht } :=
  ⟨preserved.valid, preserved.pauseRehash.trans good.rehashPauses, preserved.pauseAutoShrink.trans good.shrinkPauses⟩

omit [Inhabited α] in
theorem Good.of_pauses {w : World α} (good : Good T w) {ht : Hashtable α} (valid : Valid T ht)
    (pauseRehash : ht.pauseRehash = w.ht.pauseRehash) (pauseAutoShrink : ht.pauseAutoShrink = w.ht.pauseAutoShrink) :
    Good T { w with ht } :=
  ⟨valid, pauseRehash.trans good.rehashPauses, pauseAutoShrink.trans good.shrinkPauses⟩

omit [Inhabited α] in
theorem answers_of_mem {key : κ} {c : Multiset (α × UInt8)} {x : α × UInt8} (mem : x ∈ c)
    (candidate : checkCandidateInBucket T key x.1 = true) : Answers T key c (some x.1) :=
  ⟨candidate, x.2, mem⟩

variable (policy : ResizePolicy)

theorem hashtableAddOrFind_inserts {ht : Hashtable α} (valid : Valid T ht) (entry : α) :
    ∃ added existing ht', hashtableAddOrFind T policy ht entry = some (added, existing, ht') ∧
      Valid T ht' ∧ ht'.pauseRehash = ht.pauseRehash ∧ ht'.pauseAutoShrink = ht.pauseAutoShrink ∧
      Inserts T entry (htContent ht) (htContent ht') added existing := by
  obtain ⟨added, existing, ht', run, valid', pauseRehash, pauseAutoShrink, kept, grown⟩ :=
    hashtableAddOrFind_spec policy valid entry
  refine ⟨added, existing, ht', run, valid', pauseRehash, pauseAutoShrink, ?_⟩
  cases added with
  | false =>
    obtain ⟨same, e, found, x, mem, rfl, candidate⟩ := kept rfl
    exact ⟨same, x.1, found, answers_of_mem mem candidate⟩
  | true =>
    obtain ⟨none, content, absent⟩ := grown rfl
    exact ⟨none, absent, content⟩

theorem hashtablePop_removes {ht : Hashtable α} (valid : Valid T ht) (key : κ) :
    ∃ res ht', hashtablePop T policy ht key = some (res, ht') ∧
      Valid T ht' ∧ ht'.pauseRehash = ht.pauseRehash ∧ ht'.pauseAutoShrink = ht.pauseAutoShrink ∧
      Removes T key (htContent ht) (htContent ht') res := by
  obtain ⟨res, ht', run, valid', pauseRehash, pauseAutoShrink, found, missed⟩ := hashtablePop_spec policy valid key
  refine ⟨res, ht', run, valid', pauseRehash, pauseAutoShrink, ?_⟩
  cases res with
  | none => exact missed rfl
  | some e => exact found e rfl

theorem twoPhasePop_removes {ht : Hashtable α} (valid : Valid T ht) (rehashPauses : 0 ≤ ht.pauseRehash)
    (shrinkPauses : 0 ≤ ht.pauseAutoShrink) (key : κ) :
    ∃ res ht', twoPhasePop T policy ht key = some (res, ht') ∧
      Valid T ht' ∧ ht'.pauseRehash = ht.pauseRehash ∧ ht'.pauseAutoShrink = ht.pauseAutoShrink ∧
      Removes T key (htContent ht) (htContent ht') res := by
  obtain ⟨res, ht₁, findRef, missed, found⟩ := hashtableTwoPhasePop_spec policy valid rehashPauses shrinkPauses key
  cases res with
  | none =>
    obtain ⟨preserved, absent⟩ := missed rfl
    exact ⟨none, ht₁, by simp [twoPhasePop, findRef], preserved.valid, preserved.pauseRehash,
      preserved.pauseAutoShrink, preserved.content, absent⟩
  | some found₁ =>
    obtain ⟨e, p⟩ := found₁
    obtain ⟨candidate, ht₂, delete, valid₂, pauseRehash, pauseAutoShrink, content⟩ := found e p rfl
    exact ⟨some e, ht₂, by simp [twoPhasePop, findRef, delete], valid₂, pauseRehash, pauseAutoShrink,
      candidate, content⟩

theorem apiStep_spec {w : World α} (good : Good T w) (op : Op α κ) :
    ∃ w' r, apiStep T w op = some (w', r) ∧ Good T w' ∧ Effect T op (htContent w.ht) r (htContent w'.ht) := by
  have valid := good.valid
  cases op with
  | find key =>
    obtain ⟨res, ht', run, preserved, sound, complete⟩ := hashtableFind_spec w.policy valid key
    refine ⟨{ w with ht := ht' }, .found res, by simp [apiStep, run], good.of_preserved preserved,
      preserved.content, res, rfl, ?_⟩
    rw [← preserved.content]
    cases res with
    | none => exact complete rfl
    | some e =>
      obtain ⟨x, mem, rfl, candidate⟩ := sound e rfl
      exact answers_of_mem mem candidate
  | incrementalFind key =>
    obtain ⟨res, run, compares⟩ := hashtableIncrementalFind_spec valid key
    exact ⟨w, .found res, by simp [apiStep, run], good, rfl, res, rfl, compares⟩
  | add entry =>
    obtain ⟨added, existing, ht', run, valid', pauseRehash, pauseAutoShrink, inserts⟩ :=
      hashtableAddOrFind_inserts w.policy valid entry
    exact ⟨{ w with ht := ht' }, .flag added, by simp [apiStep, hashtableAdd, run],
      good.of_pauses valid' pauseRehash pauseAutoShrink, added, existing, rfl, inserts⟩
  | addOrFind entry =>
    obtain ⟨added, existing, ht', run, valid', pauseRehash, pauseAutoShrink, inserts⟩ :=
      hashtableAddOrFind_inserts w.policy valid entry
    exact ⟨{ w with ht := ht' }, .addOrFind added existing, by simp [apiStep, run],
      good.of_pauses valid' pauseRehash pauseAutoShrink, added, existing, rfl, inserts⟩
  | insertAtPosition entry =>
    obtain ⟨added, existing, ht', run, valid', pauseRehash, pauseAutoShrink, inserts⟩ :=
      hashtableAddOrFind_inserts w.policy valid entry
    have twoPhase : twoPhaseInsert T w.policy w.ht entry = some (added, existing, ht') := by
      exact (hashtableInsertAtPosition_after_find w.policy valid entry).trans run
    exact ⟨{ w with ht := ht' }, .addOrFind added existing, by simp [apiStep, twoPhase],
      good.of_pauses valid' pauseRehash pauseAutoShrink, added, existing, rfl, inserts⟩
  | pop key =>
    obtain ⟨res, ht', run, valid', pauseRehash, pauseAutoShrink, removes⟩ := hashtablePop_removes w.policy valid key
    exact ⟨{ w with ht := ht' }, .found res, by simp [apiStep, run],
      good.of_pauses valid' pauseRehash pauseAutoShrink, res, rfl, removes⟩
  | delete key =>
    obtain ⟨res, ht', run, valid', pauseRehash, pauseAutoShrink, removes⟩ := hashtablePop_removes w.policy valid key
    exact ⟨{ w with ht := ht' }, .flag res.isSome, by simp [apiStep, hashtableDelete, run],
      good.of_pauses valid' pauseRehash pauseAutoShrink, res, rfl, removes⟩
  | twoPhasePop key =>
    obtain ⟨res, ht', run, valid', pauseRehash, pauseAutoShrink, removes⟩ :=
      twoPhasePop_removes w.policy valid (by rw [good.rehashPauses]; omega) (by rw [good.shrinkPauses]; omega) key
    exact ⟨{ w with ht := ht' }, .found res, by simp [apiStep, run],
      good.of_pauses valid' pauseRehash pauseAutoShrink, res, rfl, removes⟩
  | size => exact ⟨w, _, rfl, good, rfl, by rw [hashtableSize_eq_card valid]⟩
  | expand size =>
    obtain ⟨changed, ht', run, preserved, -⟩ := hashtableExpand_spec w.policy valid size
    exact ⟨{ w with ht := ht' }, .done, by simp [apiStep, run], good.of_preserved preserved, preserved.content, rfl⟩
  | tryExpand size allocOk =>
    obtain ⟨changed, ht', run, preserved, -⟩ := hashtableTryExpand_spec w.policy valid size allocOk
    exact ⟨{ w with ht := ht' }, .done, by simp [apiStep, run], good.of_preserved preserved, preserved.content, rfl⟩
  | shrinkIfNeeded =>
    obtain ⟨changed, ht', run, preserved, -⟩ := hashtableShrinkIfNeeded_spec w.policy valid
    exact ⟨{ w with ht := ht' }, .done, by simp [apiStep, run], good.of_preserved preserved, preserved.content, rfl⟩
  | rightsizeIfNeeded =>
    obtain ⟨changed, ht', run, preserved, -⟩ := hashtableRightsizeIfNeeded_spec w.policy valid
    exact ⟨{ w with ht := ht' }, .done, by simp [apiStep, run], good.of_preserved preserved, preserved.content, rfl⟩
  | rehashMicroseconds elapsed =>
    obtain ⟨rehashes, ht', run, preserved⟩ := hashtableRehashMicroseconds_spec w.policy valid elapsed
    exact ⟨{ w with ht := ht' }, .done, by simp [apiStep, run], good.of_preserved preserved, preserved.content, rfl⟩
  | setResizePolicy policy => exact ⟨{ w with policy }, .done, rfl, ⟨valid, good.rehashPauses, good.shrinkPauses⟩, rfl, rfl⟩
  | pauseRehashing =>
    refine ⟨_, .done, rfl, ⟨valid.withPauses _ _, ?_, ?_⟩, rfl, rfl⟩
    · show w.ht.pauseRehash + 1 = ((w.rehashPauses + 1 : Nat) : Int)
      rw [good.rehashPauses]
      push_cast
      rfl
    · show w.ht.pauseAutoShrink + 1 = ((w.rehashPauses + 1 : Nat) : Int) + w.shrinkPauses
      rw [good.shrinkPauses]
      push_cast
      omega
  | resumeRehashing =>
    have rehashPauses := good.rehashPauses
    have shrinkPauses := good.shrinkPauses
    cases held : w.rehashPauses with
    | zero => exact ⟨w, .done, by simp [apiStep, held], good, rfl, rfl⟩
    | succ n =>
      obtain ⟨ht', run, preserved⟩ := hashtableResumeRehashing_spec w.policy valid (by omega)
      refine ⟨{ w with ht := ht', rehashPauses := n }, .done, by simp [apiStep, held, run], ⟨preserved.valid, ?_, ?_⟩,
        preserved.content, rfl⟩
      · rw [preserved.pauseRehash]
        show w.ht.pauseRehash - 1 = n
        omega
      · rw [preserved.pauseAutoShrink]
        show w.ht.pauseAutoShrink - 1 = n + w.shrinkPauses
        omega
  | pauseAutoShrink =>
    refine ⟨_, .done, rfl, ⟨valid.withPauses _ _, good.rehashPauses, ?_⟩, rfl, rfl⟩
    show w.ht.pauseAutoShrink + 1 = w.rehashPauses + ((w.shrinkPauses + 1 : Nat) : Int)
    rw [good.shrinkPauses]
    push_cast
    omega
  | resumeAutoShrink =>
    have shrinkPauses := good.shrinkPauses
    cases held : w.shrinkPauses with
    | zero => exact ⟨w, .done, by simp [apiStep, held], good, rfl, rfl⟩
    | succ n =>
      obtain ⟨ht', run, preserved⟩ := hashtableResumeAutoShrink_spec w.policy valid
      refine ⟨{ w with ht := ht', shrinkPauses := n }, .done, by simp [apiStep, held, run],
        ⟨preserved.valid, preserved.pauseRehash.trans good.rehashPauses, ?_⟩, preserved.content, rfl⟩
      rw [preserved.pauseAutoShrink]
      show w.ht.pauseAutoShrink - 1 = w.rehashPauses + n
      omega

variable (T) in
omit [Inhabited α] in
theorem initWorld_good (policy : ResizePolicy) : Good T (initWorld policy : World α) :=
  ⟨⟨resetTable_valid, resetTable_valid, fun _ => rfl, fun rehashing => absurd rfl rehashing⟩, rfl, rfl⟩

omit [Inhabited α] in
theorem TableValid.eq_resetTable {t : Table α} (valid : TableValid T t) (unallocated : t.exp < 0) :
    t = resetTable := by
  have free : t.buckets = none := by
    cases allocated : t.buckets with
    | none => rfl
    | some bs => exact absurd (valid.allocated bs allocated).1 (by omega)
  have used := valid.used
  have children := valid.childBuckets
  simp only [tableContent, childCount, free, Option.getD_none, List.map_nil, List.sum_nil,
    Multiset.card_zero] at used children
  have exp := valid.unallocated free
  cases t
  simp_all [resetTable]

omit [Inhabited α] in
theorem hashtableEmpty_eq {ht : Hashtable α} (valid : Valid T ht) :
    hashtableEmpty ht = { ht with rehashIdx := -1, tables := fun _ => resetTable } := by
  have tables : ∀ i, (if (ht.tables i).exp < 0 then ht.tables i else resetTable) = resetTable := by
    intro i
    split
    · exact (valid.table i).eq_resetTable ‹_›
    · rfl
  by_cases rehashing : ht.isRehashing
  · simp only [hashtableEmpty, rehashing, if_true, tables]
  · have idle : ht.rehashIdx = -1 := by simpa [Hashtable.isRehashing] using rehashing
    simp only [hashtableEmpty, rehashing, Bool.false_eq_true, if_false, tables, idle]

omit [Inhabited α] in
theorem hashtableEmpty_spec {ht : Hashtable α} (valid : Valid T ht) :
    Valid T (hashtableEmpty ht) ∧ hashtableSize (hashtableEmpty ht) = 0 ∧
      (hashtableEmpty ht).pauseRehash = ht.pauseRehash ∧ (hashtableEmpty ht).pauseAutoShrink = ht.pauseAutoShrink := by
  rw [hashtableEmpty_eq valid]
  exact ⟨⟨resetTable_valid, resetTable_valid, fun _ => rfl, fun rehashing => absurd rfl rehashing⟩, rfl, rfl, rfl⟩

variable (T) in
theorem runReplies_good (policy : ResizePolicy) (ops : List (Op α κ)) :
    ∃ w rs, runReplies (apiStep T) (initWorld policy) ops = some (w, rs) ∧ Good T w := by
  suffices run : ∀ w : World α, Good T w → ∀ ops : List (Op α κ),
      ∃ w' rs, runReplies (apiStep T) w ops = some (w', rs) ∧ Good T w' from
    run _ (initWorld_good T policy) ops
  intro w good ops
  induction ops generalizing w with
  | nil => exact ⟨w, [], rfl, good⟩
  | cons op ops ih =>
    obtain ⟨w₁, r, step, good₁, -⟩ := apiStep_spec good op
    obtain ⟨w₂, rs, run, good₂⟩ := ih w₁ good₁
    exact ⟨w₂, r :: rs, by simp [runReplies, step, run], good₂⟩

end Spec

end Kv.Hashtable
