import Kv.Hashtable.Api
import Kv.Foundations.KeyMap

/-!
The hashtable is a finite map. When no entry is hidden by `validateEntry` and
`keyCompare` is an equivalence that the hash function respects, every run of
the API answers every call as a map over keys compared by `keyCompare` does,
and the entries of the table are those of the map.
-/

set_option linter.dupNamespace false

namespace Kv.Hashtable

open Foundations

variable {α κ : Type}

structure HashtableType.Lawful (T : HashtableType α κ) : Prop where
  noValidation : T.validateEntry = none
  refl : ∀ k, T.keyCompare k k = 0
  symm : ∀ {k k'}, T.keyCompare k k' = 0 → T.keyCompare k' k = 0
  trans : ∀ {k k' k''}, T.keyCompare k k' = 0 → T.keyCompare k' k'' = 0 → T.keyCompare k k'' = 0
  hash : ∀ {k k'}, T.keyCompare k k' = 0 → T.hashFunction k = T.hashFunction k'

variable {T : HashtableType α κ}

def HashtableType.Lawful.setoid (lawful : T.Lawful) : Setoid κ where
  r k k' := T.keyCompare k k' = 0
  iseqv := ⟨lawful.refl, lawful.symm, lawful.trans⟩

section Bridge

variable (lawful : T.Lawful)

theorem candidate_eq_compare (lawful : T.Lawful) (key : κ) (e : α) :
    checkCandidateInBucket T key e = (T.keyCompare key (T.entryGetKey e) == 0) := by
  have validated : validateElementIfNeeded T e = true := by
    simp [validateElementIfNeeded, lawful.noValidation]
  simp only [checkCandidateInBucket, validated, Bool.and_true]

theorem candidate_iff (key : κ) (e : α) :
    checkCandidateInBucket T key e = true ↔ lawful.setoid.r (T.entryGetKey e) key := by
  rw [candidate_eq_compare lawful, beq_iff_eq]
  exact ⟨lawful.symm, lawful.symm⟩

theorem Compares.answers (lawful : T.Lawful) {key : κ} {c : Multiset (α × UInt8)} {res : Option α} (compares : Compares T key c res) :
    Answers T key c res := by
  cases res with
  | none =>
    intro x mem hashed
    simpa [candidate_eq_compare lawful] using compares x mem hashed
  | some e =>
    obtain ⟨equal, h2, mem⟩ := compares
    exact ⟨by simp [candidate_eq_compare lawful, equal], h2, mem⟩

variable {lawful} {c c' : Multiset (α × UInt8)} {m : KeyMap lawful.setoid T.entryGetKey}

theorem absent_iff (abs : c.map Prod.fst = m.entries) (key : κ) : Absent (T := T) key c ↔ ¬m.Mem key := by
  constructor
  · rintro absent ⟨e, mem, rel⟩
    rw [← abs] at mem
    obtain ⟨x, inC, rfl⟩ := Multiset.mem_map.mp mem
    have hashed : hashOf T x.1 = T.hashFunction key := lawful.hash rel
    have := absent x inC hashed
    rw [(candidate_iff lawful key x.1).mpr rel] at this
    contradiction
  · intro missing x inC _
    by_contra candidate
    simp only [Bool.not_eq_false] at candidate
    exact missing ⟨x.1, abs ▸ Multiset.mem_map_of_mem _ inC, (candidate_iff lawful key x.1).mp candidate⟩

theorem answers_lookup (abs : c.map Prod.fst = m.entries) {key : κ} {res : Option α}
    (answers : Answers T key c res) : res = m.lookup key := by
  cases res with
  | none => exact (KeyMap.lookup_eq_none.mpr ((absent_iff abs key).mp answers)).symm
  | some e =>
    obtain ⟨candidate, h2, mem⟩ := answers
    refine (KeyMap.lookup_eq_some.mpr ⟨?_, (candidate_iff lawful key e).mp candidate⟩).symm
    rw [← abs]
    exact Multiset.mem_map_of_mem Prod.fst mem

theorem removes_erase (abs : c.map Prod.fst = m.entries) {key : κ} {res : Option α}
    (removes : Removes T key c c' res) : res = m.lookup key ∧ c'.map Prod.fst = (m.erase key).entries := by
  cases res with
  | none =>
    obtain ⟨rfl, absent⟩ := removes
    have missing := (absent_iff abs key).mp absent
    exact ⟨(KeyMap.lookup_eq_none.mpr missing).symm, by rw [KeyMap.erase_of_not_mem missing, abs]⟩
  | some e =>
    obtain ⟨candidate, h2, rfl⟩ := removes
    have found : m.lookup key = some e := by
      refine KeyMap.lookup_eq_some.mpr ⟨?_, (candidate_iff lawful key e).mp candidate⟩
      rw [← abs, Multiset.map_cons]
      exact Multiset.mem_cons_self _ _
    refine ⟨found.symm, ?_⟩
    -- both sides are what is left once `e` is taken out
    have whole := KeyMap.entries_eq_cons_erase found
    rw [← abs, Multiset.map_cons] at whole
    exact (Multiset.cons_inj_right e).mp whole

theorem inserts_add (abs : c.map Prod.fst = m.entries) {entry : α} {added : Bool} {existing : Option α}
    (inserts : Inserts T entry c c' added existing) :
    added = (m.add entry).1 ∧ existing = m.lookup (T.entryGetKey entry) ∧
      c'.map Prod.fst = (m.add entry).2.entries := by
  cases added with
  | true =>
    obtain ⟨rfl, absent, rfl⟩ := inserts
    have missing := (absent_iff abs _).mp absent
    obtain ⟨addedTrue, entries⟩ := KeyMap.add_of_not_mem missing
    exact ⟨addedTrue.symm, (KeyMap.lookup_eq_none.mpr missing).symm, by rw [entries, Multiset.map_cons, abs]⟩
  | false =>
    obtain ⟨rfl, e, rfl, answers⟩ := inserts
    have found := answers_lookup abs answers
    have present : m.Mem (T.entryGetKey entry) := KeyMap.mem_iff_isSome.mpr (by rw [← found]; rfl)
    rw [KeyMap.add_of_mem present]
    exact ⟨rfl, found, abs⟩

end Bridge

def natType : HashtableType Nat Nat where
  entryGetKey := id
  hashFunction k := k.toUInt64
  keyCompare k k' := if k = k' then 0 else 1
  validateEntry := none
  resizeAllowed := none
  instantRehashing := false

theorem natType_lawful : natType.Lawful where
  noValidation := rfl
  refl k := by simp [natType]
  symm {k k'} h := by
    simp only [natType] at h ⊢
    split at h <;> simp_all
  trans {k k' k''} h h' := by
    simp only [natType] at h h' ⊢
    split at h <;> split at h' <;> simp_all
  hash {k k'} h := by
    simp only [natType] at h ⊢
    split at h <;> simp_all

variable [Inhabited α] (lawful : T.Lawful)

noncomputable def specStep (m : KeyMap lawful.setoid T.entryGetKey) :
    Op α κ → KeyMap lawful.setoid T.entryGetKey × Reply α
  | .find key => (m, .found (m.lookup key))
  | .incrementalFind key => (m, .found (m.lookup key))
  | .add entry => ((m.add entry).2, .flag (m.add entry).1)
  | .addOrFind entry => ((m.add entry).2, .addOrFind (m.add entry).1 (m.lookup (T.entryGetKey entry)))
  | .insertAtPosition entry => ((m.add entry).2, .addOrFind (m.add entry).1 (m.lookup (T.entryGetKey entry)))
  | .pop key => (m.erase key, .found (m.lookup key))
  | .delete key => (m.erase key, .flag (m.lookup key).isSome)
  | .twoPhasePop key => (m.erase key, .found (m.lookup key))
  | .size => (m, .size m.size)
  | _ => (m, .done)

def Refines (w : World α) (m : KeyMap lawful.setoid T.entryGetKey) : Prop :=
  Good T w ∧ (htContent w.ht).map Prod.fst = m.entries

variable {lawful}

theorem apiStep_refines {w : World α} {m : KeyMap lawful.setoid T.entryGetKey} (related : Refines lawful w m)
    (op : Op α κ) :
    ∃ w', apiStep T w op = some (w', (specStep lawful m op).2) ∧ Refines lawful w' (specStep lawful m op).1 := by
  obtain ⟨good, abs⟩ := related
  obtain ⟨w', r, step, good', effect⟩ := apiStep_spec good op
  cases op with
  | find key =>
    obtain ⟨same, res, rfl, answers⟩ := effect
    exact ⟨w', by rw [step, answers_lookup abs answers]; rfl, good', by rw [same]; exact abs⟩
  | incrementalFind key =>
    obtain ⟨same, res, rfl, compares⟩ := effect
    exact ⟨w', by rw [step, answers_lookup abs (Compares.answers lawful compares)]; rfl, good', by rw [same]; exact abs⟩
  | add entry =>
    obtain ⟨added, existing, rfl, inserts⟩ := effect
    obtain ⟨rfl, -, entries⟩ := inserts_add abs inserts
    exact ⟨w', step, good', entries⟩
  | addOrFind entry =>
    obtain ⟨added, existing, rfl, inserts⟩ := effect
    obtain ⟨rfl, rfl, entries⟩ := inserts_add abs inserts
    exact ⟨w', step, good', entries⟩
  | insertAtPosition entry =>
    obtain ⟨added, existing, rfl, inserts⟩ := effect
    obtain ⟨rfl, rfl, entries⟩ := inserts_add abs inserts
    exact ⟨w', step, good', entries⟩
  | pop key =>
    obtain ⟨res, rfl, removes⟩ := effect
    obtain ⟨rfl, entries⟩ := removes_erase abs removes
    exact ⟨w', step, good', entries⟩
  | delete key =>
    obtain ⟨res, rfl, removes⟩ := effect
    obtain ⟨rfl, entries⟩ := removes_erase abs removes
    exact ⟨w', step, good', entries⟩
  | twoPhasePop key =>
    obtain ⟨res, rfl, removes⟩ := effect
    obtain ⟨rfl, entries⟩ := removes_erase abs removes
    exact ⟨w', step, good', entries⟩
  | size =>
    obtain ⟨same, rfl⟩ := effect
    have sized : Multiset.card (htContent w.ht) = m.size := by
      rw [KeyMap.size, ← abs, Multiset.card_map]
    exact ⟨w', by rw [step, sized]; rfl, good', by rw [same]; exact abs⟩
  | expand _ | tryExpand _ _ | shrinkIfNeeded | rightsizeIfNeeded | rehashMicroseconds _ | setResizePolicy _
  | pauseRehashing | resumeRehashing | pauseAutoShrink | resumeAutoShrink =>
    -- the calls that only maintain the table
    obtain ⟨same, rfl⟩ := effect
    exact ⟨w', step, good', by rw [same]; exact abs⟩

omit [Inhabited α] in
theorem initWorld_refines (policy : ResizePolicy) : Refines lawful (initWorld policy) KeyMap.empty :=
  ⟨initWorld_good T policy, by simp [htContent, tableContent, initWorld, hashtableCreate, resetTable, KeyMap.empty]⟩

theorem runReplies_refine {w : World α} {m : KeyMap lawful.setoid T.entryGetKey} (related : Refines lawful w m)
    (ops : List (Op α κ)) :
    ∃ w', runReplies (apiStep T) w ops = some (w', (specReplies (specStep lawful) m ops).2) ∧
      Refines lawful w' (specReplies (specStep lawful) m ops).1 :=
  runReplies_refines (Refines lawful) (fun _ _ op related => apiStep_refines related op) related ops

/-- Every run of the API from an empty table answers each call as a map over
keys compared by `keyCompare` does (lookups, incremental finds, removals,
insertions, the size) and ends holding exactly the entries of that map. -/
theorem apiRuns_refine_keyMap (lawful : T.Lawful) (policy : ResizePolicy) (ops : List (Op α κ)) :
    ∃ w, runReplies (apiStep T) (initWorld policy) ops =
        some (w, (specReplies (specStep lawful) KeyMap.empty ops).2) ∧
      Good T w ∧ (htContent w.ht).map Prod.fst = (specReplies (specStep lawful) KeyMap.empty ops).1.entries :=
  runReplies_refine (initWorld_refines policy) ops

theorem natType_runs_refine :
    ∃ w, runReplies (apiStep natType) (initWorld .allow) [.add 1, .find 1, .incrementalFind 1] =
        some (w, (specReplies (specStep natType_lawful) KeyMap.empty [.add 1, .find 1, .incrementalFind 1]).2) ∧
      Good natType w ∧ (htContent w.ht).map Prod.fst =
        (specReplies (specStep natType_lawful) KeyMap.empty [.add 1, .find 1, .incrementalFind 1]).1.entries :=
  apiRuns_refine_keyMap natType_lawful .allow _

section Hidden

omit [Inhabited α] in
theorem candidate_of_hidden (hidden : T.validateEntry = some fun _ => false) (key : κ) (e : α) :
    checkCandidateInBucket T key e = false := by
  simp [checkCandidateInBucket, validateElementIfNeeded, hidden]

theorem apiStep_add_of_hidden (hidden : T.validateEntry = some fun _ => false) {w : World α} (good : Good T w)
    (e : α) :
    ∃ w', apiStep T w (.add e) = some (w', .flag true) ∧ Good T w' ∧
      htContent w'.ht = (e, highBits (hashOf T e)) ::ₘ htContent w.ht := by
  obtain ⟨w', r, step, good', added, existing, rfl, inserts⟩ := apiStep_spec good (.add e)
  cases added with
  | false =>
    obtain ⟨-, e', -, candidate, -⟩ := inserts
    rw [candidate_of_hidden hidden] at candidate
    contradiction
  | true =>
    obtain ⟨-, -, content⟩ := inserts
    exact ⟨w', step, good', content⟩

theorem apiStep_find_of_hidden (hidden : T.validateEntry = some fun _ => false) {w : World α} (good : Good T w)
    (key : κ) : ∃ w', apiStep T w (.find key) = some (w', .found none) ∧ Good T w' := by
  obtain ⟨w', r, step, good', -, res, rfl, answers⟩ := apiStep_spec good (.find key)
  cases res with
  | none => exact ⟨w', step, good'⟩
  | some e =>
    obtain ⟨candidate, -⟩ := answers
    rw [candidate_of_hidden hidden] at candidate
    contradiction

end Hidden

def hiddenNatType : HashtableType Nat Nat :=
  { natType with validateEntry := some fun _ => false }

theorem hiddenNatType_find_misses_added :
    ∃ w, runReplies (apiStep hiddenNatType) (initWorld .allow) [.add 1, .find 1] =
      some (w, [.flag true, .found none]) := by
  obtain ⟨w₁, add, good₁, -⟩ := apiStep_add_of_hidden rfl (initWorld_good hiddenNatType .allow) 1
  obtain ⟨w₂, find, -⟩ := apiStep_find_of_hidden rfl good₁ 1
  exact ⟨w₂, by simp [runReplies, add, find]⟩

end Kv.Hashtable
