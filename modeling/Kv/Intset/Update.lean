import Kv.Intset.Search

/-!
Adding and removing a value. On a represented set whose records the moves can
count in a uint32_t, `intsetAdd` inserts a missing value where it belongs and
`intsetRemove` takes a present one out, each with the header and the
allocation to match; a value that needs a wider encoding goes through
`intsetUpgradeAndAdd`, which re-encodes every record in place, back to front,
and puts the value at the end its sign says.
-/

namespace Kv.Intset

open Foundations

section Header

variable {encoding length : Nat} {body : List UInt8}

theorem intsetResize_header (len : Nat) :
    intsetResize ⟨header encoding length ++ body⟩ len =
      ⟨header encoding length ++ resizeBytes body (len * (encoding % 2 ^ 32))⟩ := by
  rw [intsetResize, encoding_header, ← length_header encoding length, resizeBytes_append_offset]

theorem intsetMoveTail_header (source target : Nat) :
    intsetMoveTail ⟨header encoding length ++ body⟩ source target =
      (moveBytes body (target * recordWidth (encoding % 2 ^ 32)) (source * recordWidth (encoding % 2 ^ 32))
        (ofSigned 4 ((length % 2 ^ 32 : Nat) - source) * recordWidth (encoding % 2 ^ 32) % 2 ^ 32)).map
        fun body => ⟨header encoding length ++ body⟩ := by
  simp only [intsetMoveTail, encoding_header, length_header_field]
  rw [← length_header encoding length, moveBytes_append_offset, Option.map_map]
  rfl

end Header

section Records

variable {width : Nat}

theorem flatMap_take_drop (values : List Int) (k : Nat) :
    values.flatMap (encodeRecord width) =
      (values.take k).flatMap (encodeRecord width) ++ (values.drop k).flatMap (encodeRecord width) := by
  rw [← List.flatMap_append, List.take_append_drop]

theorem moveBytes_records_up (values : List Int) (extra : Int) {pos : Nat} (inside : pos < values.length) :
    moveBytes ((values ++ [extra]).flatMap (encodeRecord width)) ((pos + 1) * width) (pos * width)
        ((values.length - pos) * width) =
      some ((values.take (pos + 1) ++ values.drop pos).flatMap (encodeRecord width)) := by
  have bytesLength : ((values.drop pos).flatMap (encodeRecord width)).length = (values.length - pos) * width := by
    rw [length_records, List.length_drop]
  have tailLength : ((values.drop (pos + 1) ++ [extra]).flatMap (encodeRecord width)).length =
      (values.length - pos) * width := by
    rw [length_records, List.length_append, List.length_drop, List.length_singleton,
      show values.length - (pos + 1) + 1 = values.length - pos by omega]
  -- read: the records from `pos` on, before the extra one
  have read : readBytes ((values ++ [extra]).flatMap (encodeRecord width)) (pos * width)
      ((values.length - pos) * width) = some ((values.drop pos).flatMap (encodeRecord width)) := by
    rw [flatMap_take_drop (values ++ [extra]) pos, List.take_append_of_le_length inside.le,
      List.drop_append_of_le_length inside.le,
      readBytes_append (by rw [length_records, List.length_take, Nat.min_eq_left inside.le])
        (by rw [List.flatMap_append, List.length_append, bytesLength]; omega),
      List.flatMap_append, List.take_append_of_le_length (le_of_eq bytesLength.symm),
      List.take_of_length_le (le_of_eq bytesLength)]
  -- write: one record further up, over the rest and the extra record
  have overwritten : ((values.drop (pos + 1) ++ [extra]).flatMap (encodeRecord width)).drop
      ((values.drop pos).flatMap (encodeRecord width)).length = [] :=
    List.drop_of_length_le (by rw [bytesLength, tailLength])
  rw [moveBytes, read, Option.bind_eq_bind, Option.bind_some, flatMap_take_drop (values ++ [extra]) (pos + 1),
    List.take_append_of_le_length inside, List.drop_append_of_le_length inside,
    writeBytes_append (by rw [length_records, List.length_take, Nat.min_eq_left inside])
      (by rw [bytesLength, tailLength]),
    overwritten, List.append_nil, List.flatMap_append]

theorem moveBytes_records_down (values : List Int) {pos : Nat} (inside : pos + 1 < values.length) :
    moveBytes (values.flatMap (encodeRecord width)) (pos * width) ((pos + 1) * width)
        ((values.length - (pos + 1)) * width) =
      some ((values.take pos ++ values.drop (pos + 1) ++ [values[values.length - 1]]).flatMap
        (encodeRecord width)) := by
  have bytesLength : ((values.drop (pos + 1)).flatMap (encodeRecord width)).length =
      (values.length - (pos + 1)) * width := by
    rw [length_records, List.length_drop]
  -- read: every record after `pos`
  have read : readBytes (values.flatMap (encodeRecord width)) ((pos + 1) * width)
      ((values.length - (pos + 1)) * width) = some ((values.drop (pos + 1)).flatMap (encodeRecord width)) := by
    rw [flatMap_take_drop values (pos + 1),
      readBytes_append (by rw [length_records, List.length_take, Nat.min_eq_left inside.le])
        (le_of_eq bytesLength.symm),
      List.take_of_length_le (le_of_eq bytesLength)]
  -- what the write leaves of the records from `pos` on is the last one
  have last : ((values.drop pos).flatMap (encodeRecord width)).drop ((values.length - (pos + 1)) * width) =
      [values[values.length - 1]].flatMap (encodeRecord width) := by
    have tail : (values.drop pos).drop (values.length - (pos + 1)) = values.drop (values.length - 1) := by
      rw [List.drop_drop]
      congr 1
      omega
    rw [drop_flatMap_chunks (length_encodeRecord width), tail, List.drop_eq_getElem_cons (by omega),
      List.drop_of_length_le (by omega)]
  rw [moveBytes, read, Option.bind_eq_bind, Option.bind_some, flatMap_take_drop values pos,
    writeBytes_append (by rw [length_records, List.length_take, Nat.min_eq_left (by omega)])
      (by rw [bytesLength, length_records, List.length_drop]; exact Nat.mul_le_mul_right _ (by omega)),
    bytesLength, last, List.flatMap_append, List.flatMap_append]

end Records

section Sets

variable {values : List Int} {value : Int}

theorem sorted_split (sorted : values.Pairwise (· < ·)) (value : Int) :
    (∀ x ∈ values.take (values.countP (· < value)), x < value) ∧
      (∀ x ∈ values.drop (values.countP (· < value)), value ≤ x) := by
  induction values with
  | nil => simp
  | cons first rest ih =>
    rcases List.pairwise_cons.mp sorted with ⟨firstBelow, sortedRest⟩
    by_cases lower : first < value
    · rw [List.countP_cons_of_pos (by simpa using lower), List.take_succ_cons, List.drop_succ_cons]
      obtain ⟨front, back⟩ := ih sortedRest
      exact ⟨fun x mem => (List.mem_cons.mp mem).elim (· ▸ lower) (front x), back⟩
    · -- every value is above `first`, which is not below `value`
      have none : rest.countP (· < value) = 0 := by
        rw [List.countP_eq_zero]
        intro x mem
        have := firstBelow x mem
        simp only [decide_eq_true_eq]
        omega
      rw [List.countP_cons_of_neg (by simpa using lower), none]
      refine ⟨by simp, fun x mem => ?_⟩
      rcases List.mem_cons.mp mem with rfl | mem
      · omega
      · have := firstBelow x mem
        omega

theorem sorted_insert (sorted : values.Pairwise (· < ·)) (missing : value ∉ values) :
    (values.take (values.countP (· < value)) ++ value :: values.drop (values.countP (· < value))).Pairwise (· < ·) := by
  obtain ⟨front, back⟩ := sorted_split sorted value
  have whole := List.take_append_drop (values.countP (· < value)) values
  rw [← whole] at sorted
  rcases List.pairwise_append.mp sorted with ⟨sortedFront, sortedBack, across⟩
  have above : ∀ x ∈ values.drop (values.countP (· < value)), value < x := by
    intro x mem
    rcases lt_or_eq_of_le (back x mem) with lt | rfl
    · exact lt
    · exact absurd (List.mem_of_mem_drop mem) missing
  refine List.pairwise_append.mpr ⟨sortedFront, List.pairwise_cons.mpr ⟨above, sortedBack⟩, ?_⟩
  intro x mem y mem'
  rcases List.mem_cons.mp mem' with rfl | mem'
  · exact front x mem
  · exact across x mem y mem'

end Sets

section Add

variable {is : Intset} {values : List Int} {value : Int}

theorem intsetResize_grow {encoding : Nat} (valid : ValidEncoding encoding) (length : Nat) :
    intsetResize ⟨header encoding length ++ values.flatMap (encodeRecord encoding)⟩ (values.length + 1) =
      ⟨header encoding length ++ (values ++ [0]).flatMap (encodeRecord encoding)⟩ := by
  rw [intsetResize_header, valid.mod_word, Nat.succ_mul, ← length_records encoding values,
    resizeBytes_append_zero, List.flatMap_append, List.flatMap_singleton, encodeRecord_zero]

theorem intsetAdd_of_missing (represents : Represents is values) (int64 : IsInt64 value)
    (narrow : _intsetValueEncoding value ≤ is.encoding) (missing : value ∉ values)
    (room : values.length + 1 < 2 ^ 31)
    (moved : (values.length - values.countP (· < value)) * is.encoding < 2 ^ 32) :
    ∃ is', intsetAdd is value = some (is', true) ∧
      Represents is' (values.take (values.countP (· < value)) ++ value :: values.drop (values.countP (· < value))) := by
  have search := intsetSearch_spec represents value
  rw [decide_eq_false missing] at search
  obtain ⟨e, valid, rfl, fits⟩ := represents.exists_encoding
  have encodingEq : e % 2 ^ 32 = e := valid.mod_word
  simp only [encoding_header, encodingEq] at narrow moved
  set pos := values.countP (· < value) with posEq
  have posLe : pos ≤ values.length := List.countP_le_length
  have lengthEq : values.length % 2 ^ 32 = values.length := Nat.mod_eq_of_lt (by omega)
  have newLength : ∀ y, (values.take pos ++ y :: values.drop pos).length = values.length + 1 := by
    intro y
    simp
    omega
  -- the records from `pos` on moved up one place, over the record the resize added
  have movedUp (inside : pos < values.length) :
      intsetMoveTail ⟨header e values.length ++ (values ++ [0]).flatMap (encodeRecord e)⟩ pos ((pos + 1) % 2 ^ 32) =
        some ⟨header e values.length ++ (values.take pos ++ values[pos] :: values.drop pos).flatMap (encodeRecord e)⟩ := by
    have count : ofSigned 4 ((values.length % 2 ^ 32 : Nat) - pos) * e % 2 ^ 32 = (values.length - pos) * e := by
      rw [lengthEq, show ((values.length : Int) - pos) = ((values.length - pos : Nat) : Int) by omega,
        ofSigned_of_lt (by norm_num; omega), Nat.mod_eq_of_lt moved]
    rw [intsetMoveTail_header, encodingEq, valid.recordWidth, count, Nat.mod_eq_of_lt (by omega),
      moveBytes_records_up values 0 inside, Option.map_some, ← List.take_concat_get' values pos inside,
      List.append_assoc, List.singleton_append]
  -- past the last record, there is nothing to move
  have atEnd (outside : ¬pos < values.length) : values ++ [0] = values.take pos ++ 0 :: values.drop pos := by
    rw [show pos = values.length by omega, List.take_length, List.drop_length]
  -- the value written over record `pos`
  have written (x : Int) : _intsetSet ⟨header e values.length ++ (values.take pos ++ x :: values.drop pos).flatMap
      (encodeRecord e)⟩ (toInt pos) value =
      some ⟨header e values.length ++ (values.take pos ++ value :: values.drop pos).flatMap (encodeRecord e)⟩ := by
    have inserted : (values.take pos ++ x :: values.drop pos).set pos value =
        values.take pos ++ value :: values.drop pos := by
      rw [List.set_append_right pos value (by simp)]
      simp [Nat.min_eq_left posLe]
    rw [toInt_of_short (by omega) (by omega), _intsetSet_header, encodingEq, valid.recordWidth,
      ← List.append_nil (List.flatMap _ _), writeBytes_records _ [] (by rw [newLength]; omega) value, inserted,
      Option.map_some, List.append_nil]
  refine ⟨⟨header e (values.length + 1) ++ (values.take pos ++ value :: values.drop pos).flatMap (encodeRecord e)⟩,
    ?_, ?_⟩
  · rw [intsetAdd, if_neg (by simp only [encoding_header, encodingEq]; omega)]
    simp only [search, Option.bind_eq_bind, Option.bind_some, Bool.false_eq_true, if_false, length_header_field,
      lengthEq, Nat.mod_eq_of_lt (show values.length + 1 < 2 ^ 32 by omega), intsetResize_grow valid]
    by_cases inside : pos < values.length
    · simp only [if_pos inside, movedUp inside, Option.bind_some, written, setLength_header, length_header_field,
        lengthEq]
    · simp only [if_neg inside, atEnd inside, written, Option.bind_some, setLength_header, length_header_field,
        lengthEq]
  · constructor
    · -- the layout of the values with the new one among them
      refine ⟨by rw [encoding_header, encodingEq]; exact valid, ?_, fun v mem => ?_⟩
      · simp only [encoding_header, encodingEq, newLength]
      · rw [encoding_header, encodingEq]
        rcases List.mem_append.mp mem with front | back
        · exact fits v (List.mem_of_mem_take front)
        · rcases List.mem_cons.mp back with rfl | back
          · exact ⟨int64, narrow⟩
          · exact fits v (List.mem_of_mem_drop back)
    · exact sorted_insert represents.sorted missing
    · rw [newLength]
      omega

theorem intsetAdd_of_mem (represents : Represents is values) (present : value ∈ values) :
    intsetAdd is value = some (is, false) := by
  obtain ⟨-, narrow⟩ := represents.fits value present
  rw [intsetAdd, if_neg (by omega), intsetSearch_spec represents, decide_eq_true present]
  rfl

end Add

section Upgrade

variable {values : List Int}

theorem intsetUpgradeLoop_spec {curenc newenc : Nat} (validOld : ValidEncoding curenc)
    (validNew : ValidEncoding newenc) (wider : curenc < newenc)
    (fits : ∀ v ∈ values, IsInt64 v ∧ _intsetValueEncoding v ≤ curenc) (prepend length : Nat)
    (tail : List UInt8) :
    ∀ i (gap : List UInt8), i ≤ values.length → gap.length + i * curenc = (i + prepend) * newenc →
      ∃ gap', gap'.length = prepend * newenc ∧
        intsetUpgradeLoop curenc prepend i ⟨header newenc length ++ ((values.take i).flatMap (encodeRecord curenc) ++
          gap ++ (values.drop i).flatMap (encodeRecord newenc) ++ tail)⟩ =
          some ⟨header newenc length ++ (gap' ++ values.flatMap (encodeRecord newenc) ++ tail)⟩
  | 0, gap, _, gapLength => ⟨gap, by simpa using gapLength, by simp [intsetUpgradeLoop]⟩
  | i + 1, gap, inside, gapLength => by
    have newMod : newenc % 2 ^ 32 = newenc := validNew.mod_word
    have front : values.take (i + 1) = values.take i ++ [values[i]] := (List.take_concat_get' values i inside).symm
    have back : values.drop i = values[i] :: values.drop (i + 1) := (List.getElem_cons_drop inside).symm
    obtain ⟨int64, needs⟩ := fits values[i] (List.getElem_mem inside)
    -- the old record `i`, right after the old records below it
    have read : _intsetGetEncoded ⟨header newenc length ++ ((values.take (i + 1)).flatMap (encodeRecord curenc) ++
        gap ++ (values.drop (i + 1)).flatMap (encodeRecord newenc) ++ tail)⟩ i curenc = some values[i] := by
      rw [_intsetGetEncoded_header, validOld.recordWidth, front, List.flatMap_append, List.flatMap_singleton,
        List.append_assoc, List.append_assoc, List.append_assoc,
        readBytes_append (by rw [length_records, List.length_take, Nat.min_eq_left (by omega)]) (by simp),
        List.take_left' (length_encodeRecord curenc values[i]), Option.map_some,
        decode_encodeRecord int64 validOld needs]
    -- the bytes from the old record `i` to the new records: where the new record `i` goes, and before it
    set block := encodeRecord curenc values[i] ++ gap with blockEq
    have products : i * curenc ≤ (i + prepend) * newenc :=
      Nat.mul_le_mul (by omega) (le_of_lt wider)
    have blockLength : block.length = (i + prepend) * newenc - i * curenc + newenc := by
      rw [blockEq, List.length_append, length_encodeRecord]
      rw [Nat.succ_mul, Nat.add_right_comm i 1 prepend, Nat.succ_mul] at gapLength
      omega
    set cut := (i + prepend) * newenc - i * curenc with cutEq
    have written : _intsetSet ⟨header newenc length ++ ((values.take (i + 1)).flatMap (encodeRecord curenc) ++
        gap ++ (values.drop (i + 1)).flatMap (encodeRecord newenc) ++ tail)⟩ ((i : Int) + (prepend : Int)) values[i] =
        some ⟨header newenc length ++ ((values.take i).flatMap (encodeRecord curenc) ++ block.take cut ++
          (values.drop i).flatMap (encodeRecord newenc) ++ tail)⟩ := by
      have split : (values.take (i + 1)).flatMap (encodeRecord curenc) ++ gap ++
          (values.drop (i + 1)).flatMap (encodeRecord newenc) ++ tail =
          ((values.take i).flatMap (encodeRecord curenc) ++ block.take cut) ++
            (block.drop cut ++ (values.drop (i + 1)).flatMap (encodeRecord newenc) ++ tail) := by
        rw [front, List.flatMap_append, List.flatMap_singleton, blockEq]
        simp only [List.append_assoc]
        rw [← List.append_assoc (List.take cut _), List.take_append_drop, List.append_assoc]
      have dropped : block.drop cut ++ (values.drop (i + 1)).flatMap (encodeRecord newenc) ++ tail =
          block.drop cut ++ ((values.drop (i + 1)).flatMap (encodeRecord newenc) ++ tail) := List.append_assoc _ _ _
      rw [show ((i : Int) + (prepend : Int)) = ((i + prepend : Nat) : Int) by push_cast; rfl, _intsetSet_header, newMod,
        validNew.recordWidth, split, writeBytes_append
          (by rw [List.length_append, length_records, List.length_take, Nat.min_eq_left (by omega), List.length_take,
            Nat.min_eq_left (by omega)]; omega)
          (by simp [blockLength]),
        Option.map_some, dropped, List.drop_append_of_le_length (by simp [blockLength]),
        List.drop_of_length_le (by simp [blockLength]), List.nil_append, back, List.flatMap_cons]
      simp only [List.append_assoc]
    obtain ⟨gap', gap'Length, run⟩ := intsetUpgradeLoop_spec validOld validNew wider fits prepend length tail i
      (block.take cut) (by omega) (by rw [List.length_take, Nat.min_eq_left (by omega)]; omega)
    refine ⟨gap', gap'Length, ?_⟩
    rw [intsetUpgradeLoop, Option.bind_eq_bind, read, Option.bind_some, Option.bind_eq_bind, written,
      Option.bind_some, run]

theorem outside_of_valueEncoding {v value : Int} (wider : _intsetValueEncoding v < _intsetValueEncoding value) :
    (value < 0 → value < v) ∧ (0 ≤ value → v < value) := by
  unfold _intsetValueEncoding at wider
  split_ifs at wider <;> simp [intsetEncInt16, intsetEncInt32, intsetEncInt64] at wider <;> omega

theorem intsetUpgradeAndAdd_spec {encoding : Nat} {value : Int} (valid : ValidEncoding encoding)
    (fits : ∀ v ∈ values, IsInt64 v ∧ _intsetValueEncoding v ≤ encoding)
    (wider : encoding < _intsetValueEncoding value) (short : values.length < 2 ^ 31) :
    intsetUpgradeAndAdd ⟨header encoding values.length ++ values.flatMap (encodeRecord encoding)⟩ value =
      some ⟨header (_intsetValueEncoding value) (values.length + 1) ++
        (if value < 0 then value :: values else values ++ [value]).flatMap
          (encodeRecord (_intsetValueEncoding value))⟩ := by
  set newenc := _intsetValueEncoding value with newencEq
  have validNew : ValidEncoding newenc := validEncoding_valueEncoding value
  have lengthEq : values.length % 2 ^ 32 = values.length := Nat.mod_eq_of_lt (by omega)
  have start : toInt (values.length : Int) = values.length := toInt_of_short (by omega) (by omega)
  set prepend : Nat := if value < 0 then 1 else 0 with prependEq
  have prependCast : (if value < 0 then (1 : Int) else 0) = (prepend : Int) := by
    rw [prependEq]
    split <;> rfl
  have prependLe : prepend ≤ 1 := by
    rw [prependEq]
    split <;> omega
  -- realloc's zeros: the gap before the new records, and the record the value may take at the end
  have products : values.length * encoding ≤ (values.length + prepend) * newenc :=
    Nat.mul_le_mul (by omega) (le_of_lt wider)
  have split : (values.length + 1) * newenc - values.length * encoding =
      ((values.length + prepend) * newenc - values.length * encoding) + (1 - prepend) * newenc := by
    have whole : (values.length + 1) * newenc = (values.length + prepend) * newenc + (1 - prepend) * newenc := by
      rw [← Nat.add_mul]
      congr 1
      omega
    omega
  have resized : resizeBytes (values.flatMap (encodeRecord encoding)) ((values.length + 1) * newenc) =
      (values.take values.length).flatMap (encodeRecord encoding) ++
        List.replicate ((values.length + prepend) * newenc - values.length * encoding) 0 ++
        (values.drop values.length).flatMap (encodeRecord newenc) ++ List.replicate ((1 - prepend) * newenc) 0 := by
    have grown : (values.length + 1) * newenc = (values.flatMap (encodeRecord encoding)).length +
        ((values.length + 1) * newenc - values.length * encoding) := by
      rw [length_records]
      have := Nat.mul_le_mul (show values.length ≤ values.length + 1 by omega) (le_of_lt wider)
      omega
    rw [grown, resizeBytes_append_zero, split, List.replicate_add, List.take_length, List.drop_length,
      List.flatMap_nil, List.append_nil, List.append_assoc]
  obtain ⟨gap, gapLength, loop⟩ := intsetUpgradeLoop_spec valid validNew wider fits prepend values.length
    (List.replicate ((1 - prepend) * newenc) 0) values.length
    (List.replicate ((values.length + prepend) * newenc - values.length * encoding) 0) (le_refl _) (by simp; omega)
  rw [intsetUpgradeAndAdd]
  simp only [encoding_header, valid.mod_word, valid.mod_byte, length_header_field, lengthEq, start,
    setEncoding_header, ← newencEq, Nat.mod_eq_of_lt (show values.length + 1 < 2 ^ 32 by omega),
    intsetResize_header, validNew.mod_word, resized, prependCast, Nat.cast_nonneg, not_lt.mpr, if_false,
    Int.toNat_natCast, loop, Option.bind_eq_bind, Option.bind_some]
  by_cases negative : value < 0
  · -- the value takes the first record, which the loop left as a gap
    have one : prepend = 1 := by rw [prependEq, if_pos negative]
    have empty : List.replicate ((1 - prepend) * newenc) (0 : UInt8) = [] := by simp [one]
    have first : _intsetSet ⟨header newenc values.length ++ (gap ++ values.flatMap (encodeRecord newenc) ++
        List.replicate ((1 - prepend) * newenc) 0)⟩ 0 value =
        some ⟨header newenc values.length ++ (value :: values).flatMap (encodeRecord newenc)⟩ := by
      rw [empty, List.append_nil, show (0 : Int) = ((0 : Nat) : Int) from rfl, _intsetSet_header, validNew.mod_word,
        validNew.recordWidth, Nat.zero_mul, ← List.nil_append (gap ++ _),
        writeBytes_append (show 0 = ([] : List UInt8).length from rfl) (by simp [gapLength, one]), List.nil_append,
        List.drop_append_of_le_length (by simp [gapLength, one]), List.drop_of_length_le (by simp [gapLength, one]),
        List.nil_append, Option.map_some, List.flatMap_cons]
    have castOne : ((prepend : Nat) : Int) = 1 := by rw [one]; rfl
    simp only [castOne, if_true, first, Option.bind_some, setLength_header, length_header_field, lengthEq,
      if_pos negative]
  · -- the value takes the record after the last, past an empty gap
    have zero : prepend = 0 := by rw [prependEq, if_neg negative]
    have noGap : gap = [] := List.eq_nil_of_length_eq_zero (by rw [gapLength, zero, Nat.zero_mul])
    have lastRecord : List.replicate ((1 - prepend) * newenc) 0 = (encodeRecord newenc 0) := by
      rw [zero, encodeRecord_zero, Nat.sub_zero, Nat.one_mul]
    have last : _intsetSet ⟨header newenc values.length ++ (gap ++ values.flatMap (encodeRecord newenc) ++
        List.replicate ((1 - prepend) * newenc) 0)⟩ (values.length : Int) value =
        some ⟨header newenc values.length ++ (values ++ [value]).flatMap (encodeRecord newenc)⟩ := by
      have appended : (values ++ [0]).set values.length value = values ++ [value] := by simp
      rw [noGap, lastRecord, List.nil_append, _intsetSet_header, validNew.mod_word,
        validNew.recordWidth, ← List.flatMap_singleton (encodeRecord newenc) 0, ← List.flatMap_append,
        ← List.append_nil (List.flatMap _ (values ++ [0])), writeBytes_records _ [] (by simp) value, appended,
        List.append_nil, Option.map_some]
    have castZero : ((prepend : Nat) : Int) = 0 := by rw [zero]; rfl
    simp only [castZero, eq_false (by decide : ¬((0 : Int) = 1)), if_false, last, Option.bind_some,
      setLength_header, length_header_field, lengthEq, if_neg negative]

theorem intsetAdd_of_wider {is : Intset} {value : Int} (represents : Represents is values) (int64 : IsInt64 value)
    (wider : is.encoding < _intsetValueEncoding value) (room : values.length + 1 < 2 ^ 31) :
    ∃ is', intsetAdd is value = some (is', true) ∧
      Represents is' (if value < 0 then value :: values else values ++ [value]) := by
  obtain ⟨e, valid, rfl, fits⟩ := represents.exists_encoding
  have encodingEq : e % 2 ^ 32 = e := valid.mod_word
  simp only [encoding_header, encodingEq] at wider
  have validNew := validEncoding_valueEncoding value
  have newEq : _intsetValueEncoding value % 2 ^ 32 = _intsetValueEncoding value := validNew.mod_word
  -- every value already there lies on the other side of the new one
  have outside : ∀ v ∈ values, (value < 0 → value < v) ∧ (0 ≤ value → v < value) := fun v mem =>
    outside_of_valueEncoding (lt_of_le_of_lt (fits v mem).2 wider)
  refine ⟨⟨header (_intsetValueEncoding value) (values.length + 1) ++
    (if value < 0 then value :: values else values ++ [value]).flatMap (encodeRecord (_intsetValueEncoding value))⟩,
    ?_, ?_⟩
  · rw [intsetAdd, if_pos (by simp only [encoding_header, encodingEq]; omega),
      intsetUpgradeAndAdd_spec valid fits wider represents.short]
    rfl
  · have newLength : (if value < 0 then value :: values else values ++ [value]).length = values.length + 1 := by
      split <;> simp
    constructor
    · refine ⟨by rw [encoding_header, newEq]; exact validNew, by simp only [encoding_header, newEq, newLength],
        fun v mem => ?_⟩
      rw [encoding_header, newEq]
      have added : v = value ∨ v ∈ values := by
        split at mem <;> simp_all [or_comm]
      rcases added with rfl | old
      · exact ⟨int64, le_refl _⟩
      · exact ⟨(fits v old).1, le_trans (fits v old).2 (le_of_lt wider)⟩
    · split
      · next negative => exact List.pairwise_cons.mpr ⟨fun v mem => (outside v mem).1 negative, represents.sorted⟩
      · next positive =>
        refine List.pairwise_append.mpr ⟨represents.sorted, List.pairwise_singleton _ _, fun v mem w mem' => ?_⟩
        rw [List.mem_singleton.mp mem']
        exact (outside v mem).2 (by omega)
    · rw [newLength]
      omega

end Upgrade

section Remove

variable {is : Intset} {values : List Int} {value : Int}

theorem getElem_countP_of_mem (sorted : values.Pairwise (· < ·)) (present : value ∈ values) :
    ∃ inside : values.countP (· < value) < values.length, values[values.countP (· < value)] = value := by
  obtain ⟨front, back⟩ := sorted_split sorted value
  set k := values.countP (· < value) with kEq
  -- the value is not among the first `k`, all below it
  have later : value ∈ values.drop k := by
    rw [← List.take_append_drop k values] at present
    rcases List.mem_append.mp present with early | later
    · exact absurd (front value early) (lt_irrefl value)
    · exact later
  obtain ⟨j, hj, found⟩ := List.mem_iff_getElem.mp later
  rw [List.length_drop] at hj
  rw [List.getElem_drop] at found
  have inside : k < values.length := by omega
  refine ⟨inside, le_antisymm ?_ ?_⟩
  · calc values[k] ≤ values[k + j] := sorted_le sorted inside (by omega) (by omega)
      _ = value := found
  · apply back
    rw [← List.getElem_cons_drop inside]
    exact List.mem_cons_self

theorem intsetRemove_of_mem (represents : Represents is values) (present : value ∈ values)
    (moved : (values.length - (values.countP (· < value) + 1)) * is.encoding < 2 ^ 32) :
    ∃ is', intsetRemove is value = some (is', true) ∧ Represents is' (values.eraseIdx (values.countP (· < value))) := by
  have search := intsetSearch_spec represents value
  rw [decide_eq_true present] at search
  obtain ⟨int64, narrow⟩ := represents.fits value present
  obtain ⟨inside, -⟩ := getElem_countP_of_mem represents.sorted present
  obtain ⟨e, valid, rfl, fits⟩ := represents.exists_encoding
  have encodingEq : e % 2 ^ 32 = e := valid.mod_word
  simp only [encoding_header, encodingEq] at narrow moved
  set pos := values.countP (· < value) with posEq
  have short := represents.short
  have lengthEq : values.length % 2 ^ 32 = values.length := Nat.mod_eq_of_lt (by omega)
  have last : ofSigned 4 ((values.length : Int) - 1) = values.length - 1 := by
    rw [show ((values.length : Int) - 1) = ((values.length - 1 : Nat) : Int) by omega, ofSigned_of_lt (by norm_num; omega)]
  have kept : (values.take pos ++ values.drop (pos + 1)).length = values.length - 1 := by
    simp
    omega
  -- the records after `pos` moved down one place over it, the last one left in place
  have movedDown (before : pos < values.length - 1) :
      intsetMoveTail ⟨header e values.length ++ values.flatMap (encodeRecord e)⟩ ((pos + 1) % 2 ^ 32) pos =
        some ⟨header e values.length ++ (values.take pos ++ values.drop (pos + 1) ++ [values[values.length - 1]]).flatMap
          (encodeRecord e)⟩ := by
    have next : (pos + 1) % 2 ^ 32 = pos + 1 := Nat.mod_eq_of_lt (by omega)
    have count : ofSigned 4 (((values.length % 2 ^ 32 : Nat) : Int) - ((pos + 1 : Nat) : Int)) * e % 2 ^ 32 =
        (values.length - (pos + 1)) * e := by
      rw [lengthEq, show ((values.length : Int) - (pos + 1 : Nat)) = ((values.length - (pos + 1) : Nat) : Int) by omega,
        ofSigned_of_lt (by norm_num; omega), Nat.mod_eq_of_lt moved]
    rw [intsetMoveTail_header, encodingEq, valid.recordWidth, next, count,
      moveBytes_records_down values (by omega), Option.map_some]
  -- the last record: nothing to move
  have atLast (after : ¬pos < values.length - 1) :
      values = values.take pos ++ values.drop (pos + 1) ++ [values[values.length - 1]] := by
    have same : pos = values.length - 1 := by omega
    rw [List.drop_of_length_le (by omega), List.append_nil, same, List.take_concat_get' values _ (by omega),
      Nat.sub_add_cancel (by omega), List.take_length]
  have shrunk (last : Int) : intsetResize ⟨header e values.length ++
      (values.take pos ++ values.drop (pos + 1) ++ [last]).flatMap (encodeRecord e)⟩ (values.length - 1) =
      ⟨header e values.length ++ (values.take pos ++ values.drop (pos + 1)).flatMap (encodeRecord e)⟩ := by
    rw [intsetResize_header, encodingEq, List.flatMap_append,
      resizeBytes_of_length (by rw [length_records, kept])]
  refine ⟨⟨header e (values.length - 1) ++ (values.take pos ++ values.drop (pos + 1)).flatMap (encodeRecord e)⟩,
    ?_, ?_⟩
  · rw [intsetRemove, if_pos (by simp only [encoding_header, encodingEq]; omega), search]
    simp only [Option.bind_eq_bind, Option.bind_some, if_true, length_header_field, lengthEq, last]
    by_cases before : pos < values.length - 1
    · simp only [if_pos before, movedDown before, Option.bind_some, shrunk, setLength_header]
    · simp only [if_neg before]
      rw [atLast before]
      simp only [List.length_append, List.length_singleton, kept, Nat.sub_add_cancel (by omega : 1 ≤ values.length),
        shrunk, setLength_header, Option.some.injEq]
      rw [← atLast before]
  · rw [← List.eraseIdx_eq_take_drop_succ]
    constructor
    · refine ⟨by rw [encoding_header, encodingEq]; exact valid, ?_, fun v mem => ?_⟩
      · simp only [encoding_header, encodingEq, List.length_eraseIdx_of_lt inside]
      · rw [encoding_header, encodingEq]
        exact fits v (List.mem_of_mem_eraseIdx mem)
    · exact represents.sorted.sublist (List.eraseIdx_sublist values pos)
    · rw [List.length_eraseIdx_of_lt inside]
      omega

theorem intsetRemove_of_not_mem (represents : Represents is values) (missing : value ∉ values) :
    intsetRemove is value = some (is, false) := by
  rw [intsetRemove]
  split
  · rw [intsetSearch_spec represents, decide_eq_false missing]
    rfl
  · rfl

end Remove

end Kv.Intset
