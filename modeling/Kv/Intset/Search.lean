import Kv.Intset.Layout

/-!
The binary search of an intset: on a set of fewer than 2^31 values, whose
positions C's int holds, `intsetSearch` finds a value exactly when it is in the
set, at the number of values below it, which is also where a missing value
belongs.
-/

namespace Kv.Intset

open Foundations

section Sorted

variable {values : List Int}

theorem sorted_lt (sorted : values.Pairwise (· < ·)) {i j : Nat} (hi : i < values.length) (hj : j < values.length)
    (lt : i < j) : values[i] < values[j] :=
  List.pairwise_iff_getElem.mp sorted i j hi hj lt

theorem sorted_le (sorted : values.Pairwise (· < ·)) {i j : Nat} (hi : i < values.length) (hj : j < values.length)
    (le : i ≤ j) : values[i] ≤ values[j] := by
  rcases Nat.lt_or_eq_of_le le with lt | rfl
  · exact (sorted_lt sorted hi hj lt).le
  · exact le_refl _

theorem countP_lt_of_split {value : Int} {k : Nat} (inside : k ≤ values.length)
    (below : ∀ j (h : j < values.length), j < k → values[j] < value)
    (above : ∀ j (h : j < values.length), k ≤ j → value ≤ values[j]) :
    values.countP (· < value) = k := by
  rw [← List.take_append_drop k values, List.countP_append]
  have front : (values.take k).countP (· < value) = k := by
    rw [List.countP_eq_length.mpr, List.length_take, Nat.min_eq_left inside]
    intro x mem
    obtain ⟨j, hj, rfl⟩ := List.mem_iff_getElem.mp mem
    simp only [List.getElem_take, List.length_take] at hj ⊢
    simpa using below j (by omega) (by omega)
  have back : (values.drop k).countP (· < value) = 0 := by
    rw [List.countP_eq_zero]
    intro x mem
    obtain ⟨j, hj, rfl⟩ := List.mem_iff_getElem.mp mem
    simp only [List.getElem_drop, List.length_drop] at hj ⊢
    simpa using above (k + j) (by omega) (by omega)
  rw [front, back, Nat.add_zero]

end Sorted

structure SearchRange (values : List Int) (value : Int) (min max : Int) : Prop where
  low : 0 ≤ min
  high : max < values.length
  ordered : min ≤ max + 1
  below : ∀ j (h : j < values.length), (j : Int) < min → values[j] < value
  above : ∀ j (h : j < values.length), max < j → value < values[j]

section Search

variable {is : Intset} {values : List Int} {value : Int}

theorem toInt_of_short {v : Int} (low : -2147483648 ≤ v) (high : v < 2147483648) : toInt v = v := by
  apply toSigned_ofSigned <;> norm_num <;> omega

theorem midpoint_of_range {min max : Int} (low : 0 ≤ min) (ordered : min ≤ max) (high : max < 2147483648) :
    (((ofSigned 4 min + ofSigned 4 max) % 2 ^ 32 / 2 : Nat) : Int) = (min + max) / 2 := by
  have minNat : ofSigned 4 min = min.toNat := ofSigned_of_nonneg low (by norm_num; omega)
  have maxNat : ofSigned 4 max = max.toNat := ofSigned_of_nonneg (by omega) (by norm_num; omega)
  rw [minNat, maxNat, Nat.mod_eq_of_lt (by omega)]
  omega

theorem intsetSearchLoop_spec (represents : Represents is values) :
    ∀ (fuel : Nat) (min max mid cur : Int), SearchRange values value min max → max + 2 - min ≤ fuel →
      (max < min → cur ≠ value) →
      ∃ min' mid' cur', intsetSearchLoop is value fuel min max mid cur = some (min', mid', cur') ∧
        ((cur' = value ∧ 0 ≤ mid' ∧ ∃ h : mid'.toNat < values.length, values[mid'.toNat] = value) ∨
          (cur' ≠ value ∧ SearchRange values value min' (min' - 1)))
  | 0, min, max, _, _, range, enough, _ => by
    have := range.ordered
    omega
  | fuel + 1, min, max, mid, cur, range, enough, last => by
    by_cases nonempty : max ≥ min
    · -- the midpoint is read; the range shrinks to one side of it, or the value is there
      have short := represents.short
      have halfway := midpoint_of_range range.low nonempty (by have := range.high; omega)
      set mid' : Int := (((ofSigned 4 min + ofSigned 4 max) % 2 ^ 32 / 2 : Nat) : Int) with midEq
      have inside : mid'.toNat < values.length := by have := range.high; omega
      have read : _intsetGet is mid' = some values[mid'.toNat] := by
        rw [← represents.get inside, Int.toNat_of_nonneg (by omega)]
      by_cases greater : value > values[mid'.toNat]
      · have next : toInt (mid' + 1) = mid' + 1 := toInt_of_short (by omega) (by have := range.high; omega)
        have range' : SearchRange values value (mid' + 1) max := by
          refine ⟨by omega, range.high, by omega, fun j h lt => ?_, range.above⟩
          exact lt_of_le_of_lt (sorted_le represents.sorted h inside (by omega)) greater
        obtain ⟨min', mid'', cur', run, result⟩ :=
          intsetSearchLoop_spec represents fuel (mid' + 1) max mid' values[mid'.toNat] range' (by omega)
            fun _ => ne_of_lt greater
        refine ⟨min', mid'', cur', ?_, result⟩
        rw [intsetSearchLoop, if_pos nonempty]
        simp only [← midEq, read, if_pos greater, next, run]
      · by_cases smaller : value < values[mid'.toNat]
        · have next : toInt (mid' - 1) = mid' - 1 := toInt_of_short (by omega) (by omega)
          have range' : SearchRange values value min (mid' - 1) := by
            refine ⟨range.low, by omega, by omega, range.below, fun j h lt => ?_⟩
            exact lt_of_lt_of_le smaller (sorted_le represents.sorted inside h (by omega))
          obtain ⟨min', mid'', cur', run, result⟩ :=
            intsetSearchLoop_spec represents fuel min (mid' - 1) mid' values[mid'.toNat] range' (by omega)
              fun _ => ne_of_gt smaller
          refine ⟨min', mid'', cur', ?_, result⟩
          rw [intsetSearchLoop, if_pos nonempty]
          simp only [← midEq, read, if_neg greater, if_pos smaller, next, run]
        · have equal : values[mid'.toNat] = value := le_antisymm (not_lt.mp smaller) (not_lt.mp greater)
          refine ⟨min, mid', values[mid'.toNat], ?_, .inl ⟨equal, by omega, inside, equal⟩⟩
          rw [intsetSearchLoop, if_pos nonempty]
          simp only [← midEq, read, if_neg greater, if_neg smaller]
    · -- the range is empty: it splits the values at min
      have split : max = min - 1 := by have := range.ordered; omega
      refine ⟨min, mid, cur, ?_, .inr ⟨last (by omega), split ▸ range⟩⟩
      rw [intsetSearchLoop, if_neg nonempty]

theorem SearchRange.not_mem {min : Int} (range : SearchRange values value min (min - 1)) :
    value ∉ values ∧ values.countP (· < value) = min.toNat := by
  constructor
  · intro mem
    obtain ⟨j, h, rfl⟩ := List.mem_iff_getElem.mp mem
    by_cases lt : (j : Int) < min
    · exact lt_irrefl _ (range.below j h lt)
    · exact lt_irrefl _ (range.above j h (by omega))
  · apply countP_lt_of_split (by have := range.high; omega)
    · intro j h lt
      exact range.below j h (by omega)
    · intro j h le
      exact (range.above j h (by omega)).le

theorem intsetSearch_spec (represents : Represents is values) (value : Int) :
    intsetSearch is value = some (decide (value ∈ values), values.countP (· < value)) := by
  have length := represents.length
  have short := represents.short
  rw [Nat.mod_eq_of_lt (by omega)] at length
  cases values with
  | nil => simp [intsetSearch, length]
  | cons first rest =>
    set values := first :: rest with valuesEq
    have nonempty : is.length ≠ 0 := by simp [length, values]
    have lastIndex : toInt (is.length - 1 : Int) = ((values.length - 1 : Nat) : Int) := by
      rw [toInt_of_short (by omega) (by omega), length]
      simp [values]
    have readLast := represents.get (i := values.length - 1) (by simp [values])
    have readFirst := represents.get (i := 0) (by simp [values])
    rw [intsetSearch, if_neg nonempty]
    simp only [lastIndex, readLast, Option.bind_eq_bind, Option.bind_some]
    by_cases above : value > values[values.length - 1]
    · -- above the largest value
      have below : ∀ j (h : j < values.length), values[j] < value := fun j h =>
        lt_of_le_of_lt (sorted_le represents.sorted h (by simp [values]) (by omega)) above
      rw [if_pos above, length]
      have count := countP_lt_of_split (le_refl values.length) (fun j h _ => below j h) (fun j h le => by omega)
      have missing : value ∉ values := fun mem => by
        obtain ⟨j, h, rfl⟩ := List.mem_iff_getElem.mp mem
        exact lt_irrefl _ (below j h)
      simp [count, missing]
    · rw [if_neg above]
      simp only [Nat.cast_zero] at readFirst
      simp only [readFirst, Option.bind_some]
      by_cases under : value < values[0]
      · -- below the smallest value
        have above' : ∀ j (h : j < values.length), value < values[j] := fun j h =>
          lt_of_lt_of_le under (sorted_le represents.sorted (by simp [values]) h (by omega))
        have count : values.countP (· < value) = 0 := countP_lt_of_split (by omega)
          (fun j h lt => absurd lt (by omega)) (fun j h _ => (above' j h).le)
        have missing : value ∉ values := fun mem => by
          obtain ⟨j, h, rfl⟩ := List.mem_iff_getElem.mp mem
          exact lt_irrefl _ (above' j h)
        rw [if_pos under]
        simp [count, missing]
      · -- within the range of the values: the loop
        rw [if_neg under]
        have range : SearchRange values value 0 ((values.length - 1 : Nat) : Int) := by
          refine ⟨le_refl 0, by simp [values], by omega, fun j h lt => absurd lt (by omega), fun j h lt => ?_⟩
          omega
        obtain ⟨min', mid', cur', run, result⟩ :=
          intsetSearchLoop_spec represents (is.length + 1) 0 _ (-1) (-1) range (by rw [length]; omega)
            fun empty => by omega
        rw [run]
        rcases result with ⟨found, nonneg, inside, equal⟩ | ⟨missed, split⟩
        · -- found at mid': the values before it are below it
          have count : values.countP (· < value) = mid'.toNat := by
            apply countP_lt_of_split inside.le
            · intro j h lt
              rw [← equal]
              exact sorted_lt represents.sorted h inside lt
            · intro j h le
              rw [← equal]
              exact sorted_le represents.sorted inside h le
          have position : ofSigned 4 mid' = mid'.toNat := ofSigned_of_nonneg nonneg (by norm_num; omega)
          have mem : value ∈ values := equal ▸ List.getElem_mem inside
          simp [found, position, count, mem]
        · obtain ⟨missing, count⟩ := split.not_mem
          have position : ofSigned 4 min' = min'.toNat := by
            have := split.high
            exact ofSigned_of_nonneg split.low (by norm_num; omega)
          simp [Ne.symm missed, position, count, missing]

theorem intsetSearch_of_above_last (layout : Layout is values) (short : values.length < 2 ^ 31) (nonempty : values ≠ [])
    (above : values.getLast nonempty < value) : intsetSearch is value = some (false, values.length) := by
  have length := layout.length
  rw [Nat.mod_eq_of_lt (by omega)] at length
  have positive : 0 < values.length := List.length_pos_iff.mpr nonempty
  have lastIndex : toInt ((values.length : Int) - 1) = ((values.length - 1 : Nat) : Int) := by
    rw [toInt_of_short (by omega) (by omega)]
    omega
  rw [List.getLast_eq_getElem] at above
  rw [intsetSearch, if_neg (by omega)]
  simp only [length, lastIndex, layout.get (i := values.length - 1) (by omega), Option.bind_eq_bind, Option.bind_some,
    gt_iff_lt, if_pos above]

end Search

end Kv.Intset
