import Kv.Intset.Update
import Kv.Foundations.Run
import Mathlib.Data.Finset.Sort
import Mathlib.Data.Int.ConditionallyCompleteOrder

/-!
The intset's calls as a system. What a represented intset answers (intsetFind,
intsetGet, intsetLen, intsetValidateIntegrity) is read off the values it
represents; a run of intsetAdd and intsetRemove from intsetNew refines a
finite set of integers with the replies the set gives, as long as the moves'
byte counts fit their uint32_t. Past that, the count wraps and a value is lost.
-/

namespace Kv.Intset

open Foundations

inductive IntsetOp where
  | add (value : Int)
  | remove (value : Int)
  deriving DecidableEq, Repr

def IntsetOp.value : IntsetOp → Int
  | .add value => value
  | .remove value => value

def intsetCall (is : Intset) : IntsetOp → Option (Intset × Bool)
  | .add value => intsetAdd is value
  | .remove value => intsetRemove is value

def intsetStep (is : Intset) (op : IntsetOp) : Option Intset := (intsetCall is op).map Prod.fst

def referenceCall (set : Finset Int) : IntsetOp → Finset Int × Bool
  | .add value => (insert value set, decide (value ∉ set))
  | .remove value => (set.erase value, decide (value ∈ set))

section Observations

variable {is : Intset} {values : List Int}

theorem intsetNew_represents : Represents intsetNew [] := by
  have bytes : intsetNew = ⟨header intsetEncInt16 0 ++ []⟩ := rfl
  rw [bytes]
  refine ⟨⟨?_, ?_, by simp⟩, List.Pairwise.nil, by simp⟩
  · rw [encoding_header]
    exact Or.inl rfl
  · rfl

theorem Represents.length_eq (represents : Represents is values) : is.length = values.length := by
  rw [represents.length, Nat.mod_eq_of_lt (by have := represents.short; omega)]

theorem intsetFind_spec (represents : Represents is values) (value : Int) :
    intsetFind is value = some (decide (value ∈ values)) := by
  unfold intsetFind
  split
  · rw [intsetSearch_spec represents]
    rfl
  · next wider =>
    -- every value there fits the encoding, so one that does not is not there
    have missing : value ∉ values := fun mem => wider (represents.fits value mem).2
    rw [decide_eq_false missing]

theorem intsetLen_spec (represents : Represents is values) : intsetLen is = values.length :=
  represents.length_eq

theorem intsetGet_spec (represents : Represents is values) (pos : Nat) :
    intsetGet is pos = some values[pos]? := by
  have short := represents.short
  unfold intsetGet
  rw [represents.length_eq]
  split
  · next inside =>
    rw [toInt_of_short (by omega) (by omega), represents.get inside, Option.map_some,
      List.getElem?_eq_getElem inside]
  · next outside =>
    rw [List.getElem?_eq_none (by omega)]

theorem intsetBlobLen_spec (represents : Represents is values) :
    intsetBlobLen is = (header is.encoding values.length ++ values.flatMap (encodeRecord is.encoding)).length := by
  rw [intsetBlobLen, represents.length_eq, List.length_append, length_header, length_records]

theorem intsetValidateLoop_sorted (represents : Represents is values) :
    ∀ (n k : Nat) (first : 0 < k) (inside : k + n ≤ values.length),
      intsetValidateLoop is values[k - 1] (List.range' k n) = some true
  | 0, _, _, _ => rfl
  | n + 1, k, first, inside => by
    have short := represents.short
    have above : values[k - 1] < values[k] := sorted_lt represents.sorted _ _ (by omega)
    have next := intsetValidateLoop_sorted represents n (k + 1) (by omega) (by omega)
    simp only [Nat.add_sub_cancel] at next
    rw [List.range'_succ, intsetValidateLoop, toInt_of_short (by omega) (by omega), represents.get (by omega)]
    simp only [Option.bind_eq_bind, Option.bind_some, if_neg (not_le.mpr above), next]

theorem validEncoding_recordSize {encoding : Nat} (valid : ValidEncoding encoding) :
    (if encoding = intsetEncInt64 then some intsetEncInt64
      else if encoding = intsetEncInt32 then some intsetEncInt32
      else if encoding = intsetEncInt16 then some intsetEncInt16 else none) = some encoding := by
  rcases valid with rfl | rfl | rfl <;> rfl

/-- A represented intset passes the deep check on its own blob exactly when it is not empty. -/
theorem intsetValidateIntegrity_spec (represents : Represents is values) :
    intsetValidateIntegrity is.bytes (intsetBlobLen is) true = some (decide (values ≠ [])) := by
  have short := represents.short
  have blob := intsetBlobLen_spec represents
  have size : intsetBlobLen is = 8 + values.length * is.encoding := by
    rw [blob, List.length_append, length_header, length_records]
  have bytesLength : is.bytes.length = intsetBlobLen is := by rw [blob, represents.bytes]
  unfold intsetValidateIntegrity
  rw [if_neg (by omega), if_neg (by omega)]
  simp only [validEncoding_recordSize represents.valid, represents.length_eq, size, ne_eq, not_true_eq_false,
    if_false, Bool.not_true, Bool.false_eq_true]
  by_cases empty : values = []
  · simp [empty]
  · have positive : 0 < values.length := List.length_pos_iff.mpr empty
    have loop := intsetValidateLoop_sorted represents (values.length - 1) 1 (by omega) (by omega)
    have first := represents.get positive
    simp only [Nat.sub_self] at loop
    rw [if_neg (by omega), decide_eq_true empty]
    simp only [show (0 : Int) = ((0 : Nat) : Int) from rfl, first, Option.bind_eq_bind, Option.bind_some, loop]

theorem intsetValidateIntegrity_spec_pair :
    Represents ⟨[2, 0, 0, 0, 2, 0, 0, 0, 5, 0, 9, 0]⟩ [5, 9] ∧
      intsetValidateIntegrity [2, 0, 0, 0, 2, 0, 0, 0, 5, 0, 9, 0] (intsetBlobLen ⟨[2, 0, 0, 0, 2, 0, 0, 0, 5, 0, 9, 0]⟩)
        true = some (decide ([5, 9] ≠ ([] : List Int))) :=
  have represents : Represents ⟨[2, 0, 0, 0, 2, 0, 0, 0, 5, 0, 9, 0]⟩ [5, 9] :=
    { valid := Or.inl rfl
      bytes := rfl
      fits := by
        simp only [List.mem_cons, List.not_mem_nil, or_false, forall_eq_or_imp, forall_eq, IsInt64]
        decide
      sorted := by decide
      short := by decide }
  ⟨represents, intsetValidateIntegrity_spec represents⟩

end Observations

section Refinement

variable {is : Intset} {values : List Int}

theorem toFinset_insertAt (values : List Int) (k : Nat) (value : Int) :
    (values.take k ++ value :: values.drop k).toFinset = insert value values.toFinset := by
  ext x
  rw [List.mem_toFinset, List.perm_middle.mem_iff, List.take_append_drop, Finset.mem_insert, List.mem_toFinset,
    List.mem_cons]

theorem toFinset_upgraded (values : List Int) (value : Int) :
    (if value < 0 then value :: values else values ++ [value]).toFinset = insert value values.toFinset := by
  ext x
  split <;> simp

theorem toFinset_eraseIdx_countP (sorted : values.Pairwise (· < ·)) {value : Int} (present : value ∈ values) :
    (values.eraseIdx (values.countP (· < value))).toFinset = values.toFinset.erase value := by
  obtain ⟨inside, found⟩ := getElem_countP_of_mem sorted present
  ext x
  rw [← List.Nodup.erase_getElem sorted.nodup _ inside, found, List.mem_toFinset, sorted.nodup.mem_erase_iff,
    Finset.mem_erase, List.mem_toFinset]

theorem Represents.sort_toFinset (represents : Represents is values) : values.toFinset.sort (· ≤ ·) = values :=
  (List.toFinset_sort _ represents.sorted.nodup).mpr (represents.sorted.imp le_of_lt)

theorem specReplies_adds (set : Finset Int) (values : List Int) :
    (specReplies referenceCall set (values.map IntsetOp.add)).1 = set ∪ values.toFinset := by
  induction values generalizing set with
  | nil => simp [specReplies]
  | cons value values ih =>
    simp only [List.map_cons, specReplies, referenceCall, ih, List.toFinset_cons]
    rw [Finset.insert_union, Finset.union_insert]

theorem card_referenceCall_le (set : Finset Int) (op : IntsetOp) :
    (referenceCall set op).1.card ≤ set.card + 1 := by
  cases op with
  | add value => exact Finset.card_insert_le value set
  | remove value => exact le_trans Finset.card_erase_le (Nat.le_succ _)

theorem intsetCall_values (represents : Represents is values) (op : IntsetOp) (int64 : IsInt64 op.value)
    (few : values.length + 1 < 2 ^ 29) :
    ∃ is' values', intsetCall is op = some (is', (referenceCall values.toFinset op).2) ∧ Represents is' values' ∧
      values'.toFinset = (referenceCall values.toFinset op).1 := by
  -- the records a move may count, eight bytes at most each
  have fits (k : Nat) : (values.length - k) * is.encoding < 2 ^ 32 := by
    calc (values.length - k) * is.encoding ≤ values.length * 8 :=
          Nat.mul_le_mul (Nat.sub_le _ _) represents.valid.le_eight
      _ < 2 ^ 32 := by omega
  cases op with
  | add value =>
    rw [IntsetOp.value] at int64
    by_cases present : value ∈ values
    · refine ⟨is, values, ?_, represents, ?_⟩
      · rw [intsetCall, intsetAdd_of_mem represents present]
        simp [referenceCall, present]
      · simp [referenceCall, present]
    · by_cases narrow : _intsetValueEncoding value ≤ is.encoding
      · obtain ⟨is', added, represents'⟩ :=
          intsetAdd_of_missing represents int64 narrow present (by omega) (fits _)
        refine ⟨is', _, ?_, represents', toFinset_insertAt values _ value⟩
        rw [intsetCall, added]
        simp [referenceCall, present]
      · obtain ⟨is', added, represents'⟩ := intsetAdd_of_wider represents int64 (by omega) (by omega)
        refine ⟨is', _, ?_, represents', toFinset_upgraded values value⟩
        rw [intsetCall, added]
        simp [referenceCall, present]
  | remove value =>
    by_cases present : value ∈ values
    · obtain ⟨is', removed, represents'⟩ := intsetRemove_of_mem represents present (fits _)
      refine ⟨is', _, ?_, represents', toFinset_eraseIdx_countP represents.sorted present⟩
      rw [intsetCall, removed]
      simp [referenceCall, present]
    · refine ⟨is, values, ?_, represents, ?_⟩
      · rw [intsetCall, intsetRemove_of_not_mem represents present]
        simp [referenceCall, present]
      · simp [referenceCall, Finset.erase_eq_of_notMem (mt List.mem_toFinset.mp present)]

theorem intsetCall_refines {set : Finset Int} (represents : Represents is (set.sort (· ≤ ·))) (op : IntsetOp)
    (int64 : IsInt64 op.value) (few : set.card + 1 < 2 ^ 29) :
    ∃ is', intsetCall is op = some (is', (referenceCall set op).2) ∧
      Represents is' ((referenceCall set op).1.sort (· ≤ ·)) := by
  have same : (set.sort (· ≤ ·)).toFinset = set := Finset.sort_toFinset set _
  obtain ⟨is', values', called, represents', made⟩ :=
    intsetCall_values represents op int64 (by rw [Finset.length_sort]; exact few)
  rw [same] at called made
  refine ⟨is', called, ?_⟩
  rw [← made, represents'.sort_toFinset]
  exact represents'

theorem intsetCalls_refine {set : Finset Int} (represents : Represents is (set.sort (· ≤ ·))) (ops : List IntsetOp)
    (int64 : ∀ op ∈ ops, IsInt64 op.value) (few : set.card + ops.length < 2 ^ 29) :
    ∃ is', runReplies intsetCall is ops = some (is', (specReplies referenceCall set ops).2) ∧
      Represents is' ((specReplies referenceCall set ops).1.sort (· ≤ ·)) := by
  induction ops generalizing is set with
  | nil => exact ⟨is, rfl, represents⟩
  | cons op ops ih =>
    obtain ⟨is₁, called, represents₁⟩ :=
      intsetCall_refines represents op (int64 op List.mem_cons_self) (by simp at few; omega)
    have grown := card_referenceCall_le set op
    obtain ⟨is₂, run, represents₂⟩ := ih represents₁ (fun op' mem => int64 op' (List.mem_cons_of_mem op mem))
      (by simp at few; omega)
    refine ⟨is₂, ?_, represents₂⟩
    simp [runReplies, called, run, specReplies]

/-- Calls from intsetNew: while there are fewer than 2^29 of them, the intset holds the reference set in
ascending order, and every reply is the set's. -/
theorem intsetRuns_refine (ops : List IntsetOp) (int64 : ∀ op ∈ ops, IsInt64 op.value) (few : ops.length < 2 ^ 29) :
    ∃ is, runReplies intsetCall intsetNew ops = some (is, (specReplies referenceCall ∅ ops).2) ∧
      Represents is ((specReplies referenceCall ∅ ops).1.sort (· ≤ ·)) := by
  have empty : Represents intsetNew ((∅ : Finset Int).sort (· ≤ ·)) := by
    rw [Finset.sort_empty]
    exact intsetNew_represents
  exact intsetCalls_refine empty ops int64 (by simpa using few)

theorem intsetRuns_refine_three :
    (∀ op ∈ [IntsetOp.add 5, .add (-3), .remove 5], IsInt64 op.value) ∧ [IntsetOp.add 5, .add (-3), .remove 5].length < 2 ^ 29 ∧
      ∃ is, runReplies intsetCall intsetNew [.add 5, .add (-3), .remove 5] =
          some (is, (specReplies referenceCall ∅ [.add 5, .add (-3), .remove 5]).2) ∧
        Represents is ((specReplies referenceCall ∅ [.add 5, .add (-3), .remove 5]).1.sort (· ≤ ·)) :=
  have int64 : ∀ op ∈ [IntsetOp.add 5, .add (-3), .remove 5], IsInt64 op.value := by
    simp only [List.mem_cons, List.not_mem_nil, or_false, forall_eq_or_imp, forall_eq, IntsetOp.value, IsInt64]
    decide
  ⟨int64, by decide, intsetRuns_refine _ int64 (by decide)⟩

end Refinement

section Overflow

/-! Past 2^29 records of eight bytes, the byte count of a move no longer fits its uint32_t. -/

variable {is : Intset} {values : List Int} {value : Int}

theorem intsetAdd_of_above (represents : Represents is values) (int64 : IsInt64 value)
    (above : ∀ v ∈ values, v < value) (room : values.length + 1 < 2 ^ 31) :
    ∃ is', intsetAdd is value = some (is', true) ∧ Represents is' (values ++ [value]) := by
  have missing : value ∉ values := fun mem => lt_irrefl value (above value mem)
  have all : values.countP (· < value) = values.length :=
    List.countP_eq_length.mpr fun v mem => by simpa using above v mem
  by_cases narrow : _intsetValueEncoding value ≤ is.encoding
  · have added := intsetAdd_of_missing represents int64 narrow missing room (by rw [all, Nat.sub_self]; omega)
    rwa [all, List.take_length, List.drop_length] at added
  · obtain ⟨is', added, represents'⟩ := intsetAdd_of_wider represents int64 (by omega) room
    refine ⟨is', added, ?_⟩
    split at represents'
    · next negative =>
      -- a negative value that needs a wider encoding is below every value there, so there are none
      have empty : values = [] := List.eq_nil_iff_forall_not_mem.mpr fun v mem =>
        absurd (above v mem) (not_lt.mpr (le_of_lt ((outside_of_valueEncoding
          (lt_of_le_of_lt (represents.fits v mem).2 (by omega))).1 negative)))
      rw [empty] at represents' ⊢
      exact represents'
    · exact represents'

theorem intsetRun_ascending (values : List Int) (sorted : values.Pairwise (· < ·)) (int64 : ∀ v ∈ values, IsInt64 v)
    (short : values.length < 2 ^ 31) :
    ∃ is, runSteps intsetStep intsetNew (values.map IntsetOp.add) = some is ∧ Represents is values := by
  induction values using List.reverseRecOn with
  | nil => exact ⟨intsetNew, rfl, intsetNew_represents⟩
  | append_singleton front last ih =>
    rcases List.pairwise_append.mp sorted with ⟨sortedFront, -, below⟩
    have lengthEq : (front ++ [last]).length = front.length + 1 := List.length_append
    obtain ⟨is, run, represents⟩ := ih sortedFront (fun v mem => int64 v (List.mem_append_left _ mem)) (by omega)
    obtain ⟨is', added, represents'⟩ := intsetAdd_of_above represents (int64 last (by simp))
      (fun v mem => below v mem last (List.mem_singleton_self last)) (by omega)
    refine ⟨is', ?_, represents'⟩
    rw [List.map_append, runSteps_append, run, Option.bind_some]
    simp [intsetStep, intsetCall, added]

theorem intsetAdd_of_wrapped (represents : Represents is values) (int64 : IsInt64 value)
    (narrow : _intsetValueEncoding value ≤ is.encoding) (below : ∀ v ∈ values, value < v)
    (second : 1 < values.length) (room : values.length + 1 < 2 ^ 31)
    (wraps : values.length * is.encoding % 2 ^ 32 = is.encoding) :
    ∃ is', intsetAdd is value = some (is', true) ∧ is'.encoding = is.encoding ∧
      Layout is' (((values ++ [0]).set 1 values[0]).set 0 value) := by
  have missing : value ∉ values := fun mem => lt_irrefl value (below value mem)
  have none : values.countP (· < value) = 0 :=
    List.countP_eq_zero.mpr fun v mem => by simpa using le_of_lt (below v mem)
  have search := intsetSearch_spec represents value
  rw [decide_eq_false missing, none] at search
  obtain ⟨e, valid, rfl, fits⟩ := represents.exists_encoding
  have encodingEq : e % 2 ^ 32 = e := valid.mod_word
  simp only [encoding_header, encodingEq] at narrow wraps
  have lengthEq : values.length % 2 ^ 32 = values.length := Nat.mod_eq_of_lt (by omega)
  set moved := (values ++ [0]).set 1 values[0] with movedEq
  have movedLength : moved.length = values.length + 1 := by simp [movedEq]
  -- the byte count wraps to one record: the first is copied over the second, nothing more
  have movedOne : intsetMoveTail ⟨header e values.length ++ (values ++ [0]).flatMap (encodeRecord e)⟩ 0 ((0 + 1) % 2 ^ 32) =
      some ⟨header e values.length ++ moved.flatMap (encodeRecord e)⟩ := by
    have count : ofSigned 4 (((values.length % 2 ^ 32 : Nat) : Int) - ((0 : Nat) : Int)) * e % 2 ^ 32 = e := by
      rw [lengthEq, Nat.cast_zero, Int.sub_zero, ofSigned_of_lt (by norm_num; omega), wraps]
    have first : (values ++ [0])[0] = values[0] := List.getElem_append_left (by omega)
    have read : readBytes ((values ++ [0]).flatMap (encodeRecord e)) (0 * e) e =
        some (encodeRecord e values[0]) := by
      rw [← List.append_nil (List.flatMap _ _), readBytes_records (values ++ [0]) [] (by simp), first]
    rw [intsetMoveTail_header, encodingEq, valid.recordWidth, count, Nat.zero_add, Nat.mod_eq_of_lt (by norm_num),
      moveBytes, read, Option.bind_eq_bind, Option.bind_some, ← List.append_nil (List.flatMap _ (values ++ [0])),
      writeBytes_records (values ++ [0]) [] (by simp; omega), List.append_nil, Option.map_some]
  have written : _intsetSet ⟨header e values.length ++ moved.flatMap (encodeRecord e)⟩ (toInt (0 : Nat)) value =
      some ⟨header e values.length ++ (moved.set 0 value).flatMap (encodeRecord e)⟩ := by
    rw [toInt_of_short (by omega) (by omega), _intsetSet_header, encodingEq, valid.recordWidth,
      ← List.append_nil (List.flatMap _ moved), writeBytes_records moved [] (by omega) value, List.append_nil,
      Option.map_some]
  refine ⟨⟨header e (values.length + 1) ++ (moved.set 0 value).flatMap (encodeRecord e)⟩, ?_, ?_, ?_⟩
  · rw [intsetAdd, if_neg (by simp only [encoding_header, encodingEq]; omega)]
    simp only [search, Option.bind_eq_bind, Option.bind_some, Bool.false_eq_true, if_false, length_header_field,
      lengthEq, Nat.mod_eq_of_lt (show values.length + 1 < 2 ^ 32 by omega), intsetResize_grow valid,
      if_pos (show 0 < values.length by omega), movedOne, written, setLength_header]
  · simp only [encoding_header]
  · refine ⟨by rw [encoding_header, encodingEq]; exact valid, by simp only [encoding_header, encodingEq, List.length_set, movedLength],
      fun v mem => ?_⟩
    rw [encoding_header, encodingEq]
    -- each value is the new one, the first one copied, or one that was there or realloc's zero
    rcases List.mem_or_eq_of_mem_set mem with mem | rfl
    · rcases List.mem_or_eq_of_mem_set mem with mem | rfl
      · rcases List.mem_append.mp mem with old | zero
        · exact fits v old
        · rw [List.mem_singleton.mp zero]
          exact ⟨by simp [IsInt64], by rcases valid with rfl | rfl | rfl <;> decide⟩
      · exact fits _ (List.getElem_mem _)
    · exact ⟨int64, narrow⟩

/-- Adding 2^32, 2^32 + 1, ..., 2^32 + 2^29 and then 0: the move that makes room for 0 counts
(2^29 + 1) * 8 bytes in a uint32_t, which is 8, so only 2^32 is moved, over 2^32 + 1. intsetFind no longer
finds 2^32 + 1, though the set holds it. -/
theorem intsetFind_after_wrapped_move :
    ∃ is, runSteps intsetStep intsetNew
        (((List.range (2 ^ 29 + 1)).map (fun i : Nat => (2 ^ 32 + i : Int)) ++ [0]).map IntsetOp.add) = some is ∧
      intsetFind is (2 ^ 32 + 1) = some false ∧
      (2 ^ 32 + 1 : Int) ∈ (specReplies referenceCall ∅
        (((List.range (2 ^ 29 + 1)).map (fun i : Nat => (2 ^ 32 + i : Int)) ++ [0]).map IntsetOp.add)).1 := by
  set values := (List.range (2 ^ 29 + 1)).map (fun i : Nat => (2 ^ 32 + i : Int)) with valuesEq
  have length : values.length = 2 ^ 29 + 1 := by simp [valuesEq]
  have sorted : values.Pairwise (· < ·) :=
    List.pairwise_map.mpr (List.pairwise_lt_range.imp fun lt => by omega)
  have bounds : ∀ v ∈ values, 2 ^ 32 ≤ v ∧ v ≤ 2 ^ 32 + 2 ^ 29 := by
    intro v mem
    obtain ⟨i, range, rfl⟩ := List.mem_map.mp mem
    rw [List.mem_range] at range
    omega
  have int64 : ∀ v ∈ values, IsInt64 v := by
    intro v mem
    have := bounds v mem
    unfold IsInt64
    omega
  have held : (2 ^ 32 + 1 : Int) ∈ values := List.mem_map.mpr ⟨1, List.mem_range.mpr (by norm_num), rfl⟩
  have needs : _intsetValueEncoding (2 ^ 32 + 1) = intsetEncInt64 := by decide
  obtain ⟨is, run, represents⟩ := intsetRun_ascending values sorted int64 (by omega)
  -- every value needs eight bytes, so the encoding is INT64
  have wide : is.encoding = intsetEncInt64 :=
    le_antisymm represents.valid.le_eight (needs ▸ (represents.fits _ held).2)
  obtain ⟨is', added, same, layout⟩ := intsetAdd_of_wrapped represents (show IsInt64 0 by simp [IsInt64])
    (by rw [wide]; decide) (fun v mem => by have := bounds v mem; omega) (by omega) (by omega)
    (by rw [length, wide]; norm_num [intsetEncInt64])
  have positive : 0 < values.length := by omega
  set kept := ((values ++ [0]).set 1 values[0]).set 0 0 with keptEq
  have keptLength : kept.length = 2 ^ 29 + 2 := by simp [keptEq, length]
  have nonempty : kept ≠ [] := List.ne_nil_of_length_pos (by omega)
  -- the last record is realloc's zero, below 2^32 + 1
  have last : kept.getLast nonempty = 0 := by
    rw [List.getLast_eq_getElem]
    simp [keptEq, length]
  refine ⟨is', ?_, ?_, ?_⟩
  · rw [List.map_append, runSteps_append, run, Option.bind_some]
    simp [intsetStep, intsetCall, added]
  · rw [intsetFind, if_pos (by rw [same, wide, needs]),
      intsetSearch_of_above_last layout (by omega) nonempty (by rw [last]; norm_num)]
    rfl
  · rw [specReplies_adds, Finset.empty_union, List.mem_toFinset]
    exact List.mem_append_left _ held

end Overflow

end Kv.Intset
