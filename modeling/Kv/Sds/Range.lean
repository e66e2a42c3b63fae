import Kv.Sds.Header

/-!
Cutting an sds string down in place (sds.c): sdssubstr, which takes a start
and a length as size_t and clamps them to the content, and sdsrange, which
takes inclusive start and end indexes as ssize_t, counts negative ones from
the end, and passes them on to sdssubstr as size_t. An index still negative
after the length is added becomes a huge size_t there; the ssize_t arithmetic
wraps as the compiled code does.
-/

namespace Kv.Sds

open Foundations

/-- sdssubstr: the `len` bytes from `start`, clamped to the content, moved to the front and terminated; none where
the allocation is too short for a byte it moves or writes. -/
def sdssubstr (s : SdsString) (start len : Nat) : Option SdsString := do
  let oldlen := sdslen s
  -- clamp out of range input
  let clamped := start ≥ oldlen
  let start := if clamped then 0 else start
  let len := if clamped then 0 else len
  let len := if len > oldlen - start then oldlen - start else len
  let buf ← if len ≠ 0 then moveBytes s.buf 0 start len else some s.buf
  let buf ← writeBytes buf len [0]
  some (sdssetlen { s with buf } len)

/-- sdsrange: the bytes from `start` to `stop` inclusive, negative indexes counted from the end. -/
def sdsrange (s : SdsString) (start stop : Int64) : Option SdsString :=
  let len := sdslen s
  if len = 0 then some s
  else
    -- size_t plus ssize_t, stored back as ssize_t
    let start := if start < 0 then (len.toUInt64 + start.toUInt64).toInt64 else start
    let stop := if stop < 0 then (len.toUInt64 + stop.toUInt64).toInt64 else stop
    let newlen : Nat := if start > stop then 0 else ((stop - start) + 1).toUInt64.toNat
    sdssubstr s start.toUInt64.toNat newlen

variable {s : SdsString}

/-- The free space of a valid string lies inside its allocation, before the byte that ends it. -/
theorem SdsString.Valid.len_add_avail_lt (valid : s.Valid) : s.len + sdsavail s < s.buf.length := by
  have inside : s.len < s.buf.length := (List.getElem?_eq_some_iff.mp valid.terminated).1
  by_cases five : s.type = .type5
  · simpa [sdsavail, five] using inside
  · have alloc := valid.alloc_eq five
    have below := valid.len_le five
    simp only [sdsavail, five, if_false, SdsString.bufsize] at alloc ⊢
    omega

/-- A length the header of a valid string can take: below 32 under SDS_TYPE_5, up to alloc under the others. -/
def SdsString.Fits (s : SdsString) (n : Nat) : Prop := (s.type = .type5 → n < 32) ∧ (s.type ≠ .type5 → n ≤ s.alloc)

theorem SdsString.Valid.fits_of_le (valid : s.Valid) {n : Nat} (short : n ≤ s.len + sdsavail s) : s.Fits n := by
  refine ⟨fun five => ?_, fun five => ?_⟩
  · simp only [sdsavail, five, if_true] at short
    have := valid.short five
    omega
  · simp only [sdsavail, five, if_false] at short
    have := valid.len_le five
    omega

theorem SdsString.Valid.storeField_of_fits (valid : s.Valid) {n : Nat} (fits : s.Fits n) : storeField s.type n = n := by
  by_cases five : s.type = .type5
  · rw [five]
    exact Nat.mod_eq_of_lt (by have := fits.1 five; omega)
  · exact Kv.Sds.storeField_of_le (le_trans (Nat.cast_le.mpr (fits.2 five)) (valid.within five))

theorem SdsString.Valid.storeField_of_le (valid : s.Valid) {n : Nat} (short : n ≤ s.len + sdsavail s) :
    storeField s.type n = n :=
  valid.storeField_of_fits (valid.fits_of_le short)

/-- Setting a length the header can take, over bytes of the same size ending there, keeps a string valid. -/
theorem SdsString.Valid.sdssetlen_of_fits (valid : s.Valid) {buf : List UInt8} (sameSize : buf.length = s.buf.length)
    {n : Nat} (fits : s.Fits n) (terminated : buf[n]? = some 0) : (Kv.Sds.sdssetlen { s with buf } n).Valid := by
  have kept := valid.storeField_of_fits fits
  refine ⟨?_, fun five => ?_, fun five => ?_, fun five => ?_, valid.within⟩
  · simp only [Kv.Sds.sdssetlen, kept, terminated]
  · simpa [kept] using fits.1 five
  · simp only [Kv.Sds.sdssetlen, SdsString.bufsize, sameSize]
    exact valid.alloc_eq five
  · simpa [kept] using fits.2 five

/-- Setting a new length within the free space, over bytes of the same size ending there, keeps a string valid. -/
theorem SdsString.Valid.sdssetlen (valid : s.Valid) {buf : List UInt8} (sameSize : buf.length = s.buf.length)
    {n : Nat} (short : n ≤ s.len + sdsavail s) (terminated : buf[n]? = some 0) :
    (Kv.Sds.sdssetlen { s with buf } n).Valid :=
  valid.sdssetlen_of_fits sameSize (valid.fits_of_le short) terminated

theorem sdssubstr_spec (valid : s.Valid) (start len : Nat) :
    ∃ s', sdssubstr s start len = some s' ∧ s'.Valid ∧ sdsContent s' = ((sdsContent s).drop start).take len := by
  have room : s.len < s.buf.length := (List.getElem?_eq_some_iff.mp valid.terminated).1
  -- the clamp: a start past the content cuts nothing
  obtain ⟨start', len1, ⟨startEq, len1Eq⟩, inside, asked⟩ : ∃ start' len1,
      ((if start ≥ sdslen s then 0 else start) = start' ∧ (if start ≥ sdslen s then 0 else len) = len1) ∧
        start' ≤ s.len ∧ ((sdsContent s).drop start).take len = ((sdsContent s).drop start').take len1 := by
    by_cases clamped : start ≥ sdslen s
    · refine ⟨0, 0, ⟨if_pos clamped, if_pos clamped⟩, Nat.zero_le _, ?_⟩
      have past : (sdsContent s).length ≤ start := by
        simp only [sdsContent, List.length_take, sdslen] at clamped ⊢
        omega
      rw [List.drop_eq_nil_of_le past, List.take_nil, List.take_zero]
    · exact ⟨start, len, ⟨if_neg clamped, if_neg clamped⟩, by simp only [sdslen] at clamped; omega, rfl⟩
  unfold sdssubstr
  dsimp only
  rw [startEq, len1Eq]
  generalize lenEq : (if len1 > sdslen s - start' then sdslen s - start' else len1) = len'
  have length : sdslen s = s.len := rfl
  have fits : start' + len' ≤ s.len := by
    rw [← lenEq]
    by_cases more : len1 > sdslen s - start'
    · rw [if_pos more]
      omega
    · rw [if_neg more]
      omega
  -- the content cut is the `len'` bytes from `start'` of the allocation
  have cut : ((sdsContent s).drop start').take len1 = (s.buf.drop start').take len' := by
    rw [sdsContent, List.drop_take, List.take_take, ← lenEq]
    by_cases more : len1 > sdslen s - start'
    · rw [if_pos more, Nat.min_eq_right (by omega), length]
    · rw [if_neg more, Nat.min_eq_left (by omega)]
  -- both branches leave the cut bytes, the terminator, and the rest of the allocation
  have front : ((s.buf.drop start').take len').length = len' := by
    simp only [List.length_take, List.length_drop]
    omega
  have terminated : ∀ cutBytes : List UInt8, cutBytes.length = len' →
      writeBytes (cutBytes ++ s.buf.drop len') len' [0] = some (cutBytes ++ 0 :: s.buf.drop (len' + 1)) := by
    intro cutBytes sized
    have size : len' + [(0 : UInt8)].length ≤ (cutBytes ++ s.buf.drop len').length := by
      simp only [List.length_append, List.length_drop, sized, List.length_singleton]
      omega
    rw [writeBytes_eq_some size, List.take_left' sized, List.length_singleton, List.drop_append,
      List.drop_eq_nil_of_le (show cutBytes.length ≤ len' + 1 by omega), sized, show len' + 1 - len' = 1 by omega,
      List.drop_drop, List.nil_append]
    simp
  have finish : ∃ s',
      some (Kv.Sds.sdssetlen { s with buf := (s.buf.drop start').take len' ++ 0 :: s.buf.drop (len' + 1) } len') =
        some s' ∧ s'.Valid ∧ sdsContent s' = ((sdsContent s).drop start).take len := by
    refine ⟨_, rfl, valid.sdssetlen ?_ (show len' ≤ s.len + sdsavail s by omega) ?_, ?_⟩
    · simp only [List.length_append, List.length_cons, List.length_drop, front]
      omega
    · rw [List.getElem?_append_right (by omega), front, Nat.sub_self]
      rfl
    · rw [asked, cut]
      simp only [sdsContent, Kv.Sds.sdssetlen, valid.storeField_of_le (show len' ≤ s.len + sdsavail s by omega)]
      rw [List.take_left' front]
  by_cases moved : len' = 0
  · -- nothing to move: only the terminator is written, at the front
    subst moved
    have written := terminated [] rfl
    simp only [List.nil_append, List.drop_zero] at written
    simp only [ne_eq, not_true_eq_false, if_false, Option.bind_eq_bind, Option.bind_some, written]
    simpa using finish
  · have written : moveBytes s.buf 0 start' len' = some ((s.buf.drop start').take len' ++ s.buf.drop len') := by
      rw [moveBytes_eq_some (by omega) (by omega), List.take_zero, List.nil_append, Nat.zero_add]
    simp only [ne_eq, moved, not_false_eq_true, if_true, Option.bind_eq_bind, written, Option.bind_some,
      terminated _ front]
    exact finish

theorem toInt_fromEnd {len : Nat} (addressable : len < 2 ^ 63) (x : Int64) :
    (if x < 0 then (len.toUInt64 + x.toUInt64).toInt64 else x).toInt = if x.toInt < 0 then len + x.toInt else x.toInt := by
  have low := Int64.le_toInt x
  have high := Int64.toInt_lt x
  by_cases negative : x < 0
  · have negativeInt : x.toInt < 0 := Int64.lt_iff_toInt_lt.mp negative
    have residue := toNat_toUInt64 x
    rw [if_pos negative, if_pos negativeInt, toInt_toInt64, UInt64.toNat_add, Nat.toUInt64, UInt64.toNat_ofNat',
      Nat.mod_eq_of_lt (show len < 2 ^ 64 by omega)]
    rw [Int.emod_eq_add_self_emod, Int.emod_eq_of_lt (by omega) (by omega)] at residue
    -- the sum wraps back below `2 ^ 64` exactly when it is not negative
    split <;> omega
  · have nonnegative : ¬x.toInt < 0 := fun below => negative (Int64.lt_iff_toInt_lt.mpr below)
    rw [if_neg negative, if_neg nonnegative]

theorem sdsrange_spec (valid : s.Valid) (addressable : s.len < 2 ^ 63) (start stop : Int64) :
    let a := if start.toInt < 0 then s.len + start.toInt else start.toInt
    let b := if stop.toInt < 0 then s.len + stop.toInt else stop.toInt
    ∃ s', sdsrange s start stop = some s' ∧ s'.Valid ∧
      sdsContent s' = if a < 0 ∨ b < a then [] else ((sdsContent s).drop a.toNat).take (b - a + 1).toNat := by
  intro a b
  have length : sdslen s = s.len := rfl
  have contentLength : (sdsContent s).length ≤ s.len := by
    simp only [sdsContent, List.length_take]
    omega
  unfold sdsrange
  by_cases empty : sdslen s = 0
  · -- an empty string is left as it is
    rw [if_pos empty]
    have nothing : sdsContent s = [] := List.eq_nil_of_length_eq_zero (by omega)
    refine ⟨s, rfl, valid, ?_⟩
    rw [nothing]
    split <;> simp
  · rw [if_neg empty]
    dsimp only
    generalize startEq : (if start < 0 then ((sdslen s).toUInt64 + start.toUInt64).toInt64 else start) = start'
    generalize stopEq : (if stop < 0 then ((sdslen s).toUInt64 + stop.toUInt64).toInt64 else stop) = stop'
    have startInt : start'.toInt = a := by
      rw [← startEq]
      exact toInt_fromEnd addressable start
    have stopInt : stop'.toInt = b := by
      rw [← stopEq]
      exact toInt_fromEnd addressable stop
    -- the indexes after the length is added: still a long long each
    have startRange : -2 ^ 63 ≤ a ∧ a < 2 ^ 63 := by
      have low := Int64.le_toInt start
      have high := Int64.toInt_lt start
      show -2 ^ 63 ≤ (if start.toInt < 0 then s.len + start.toInt else start.toInt) ∧ _ < _
      split <;> omega
    have stopRange : -2 ^ 63 ≤ b ∧ b < 2 ^ 63 := by
      have low := Int64.le_toInt stop
      have high := Int64.toInt_lt stop
      show -2 ^ 63 ≤ (if stop.toInt < 0 then s.len + stop.toInt else stop.toInt) ∧ _ < _
      split <;> omega
    obtain ⟨s', cutEq, valid', content⟩ := sdssubstr_spec valid start'.toUInt64.toNat
      (if start' > stop' then 0 else ((stop' - start') + 1).toUInt64.toNat)
    refine ⟨s', cutEq, valid', ?_⟩
    rw [content]
    have startResidue := toNat_toUInt64 start'
    rw [startInt] at startResidue
    by_cases below : a < 0
    · -- still negative: as size_t, a start past the content
      have huge : (sdsContent s).length ≤ start'.toUInt64.toNat := by
        rw [Int.emod_eq_add_self_emod, Int.emod_eq_of_lt (by omega) (by omega)] at startResidue
        omega
      rw [if_pos (Or.inl below), List.drop_eq_nil_of_le huge, List.take_nil]
    · have startNat : start'.toUInt64.toNat = a.toNat := by
        rw [Int.emod_eq_of_lt (by omega) (by omega)] at startResidue
        omega
      by_cases order : b < a
      · -- the end before the start: sdssubstr cuts nothing
        have after : start' > stop' := Int64.lt_iff_toInt_lt.mpr (by omega)
        rw [if_pos (Or.inr order), if_pos after, List.take_zero]
      · have notAfter : ¬start' > stop' := fun after => order (by have := Int64.lt_iff_toInt_lt.mp after; omega)
        -- the length is exact, wrapping only at `2 ^ 63`, which size_t reads back
        have lengthNat : ((stop' - start') + 1).toUInt64.toNat = (b - a + 1).toNat := by
          have residue := toNat_toUInt64 ((stop' - start') + 1)
          rw [Int64.toInt_add, Int64.toInt_sub, Int64.toInt_one, startInt, stopInt] at residue
          simp only [Int.bmod_def] at residue
          split_ifs at residue <;> omega
        rw [if_neg (show ¬(a < 0 ∨ b < a) by omega), if_neg notAfter, startNat, lengthNat]

/-- sdsrange and sdssubstr on valid strings: sdsrange keeps the bytes from `a` to `b` inclusive, `a` and `b` the
indexes with the length added to negative ones, and nothing when `a` is still negative or `b` is below it;
sdssubstr keeps the `len` bytes from `start`, as many as there are. -/
theorem sdsrange_sdssubstr_cut :
    (∀ s : SdsString, s.Valid → s.len < 2 ^ 63 → ∀ start stop : Int64,
      let a := if start.toInt < 0 then s.len + start.toInt else start.toInt
      let b := if stop.toInt < 0 then s.len + stop.toInt else stop.toInt
      ∃ s', sdsrange s start stop = some s' ∧ s'.Valid ∧
        sdsContent s' = if a < 0 ∨ b < a then [] else ((sdsContent s).drop a.toNat).take (b - a + 1).toNat) ∧
    (∀ s : SdsString, s.Valid → ∀ start len : Nat,
      ∃ s', sdssubstr s start len = some s' ∧ s'.Valid ∧ sdsContent s' = ((sdsContent s).drop start).take len) :=
  ⟨fun _ valid addressable start stop => sdsrange_spec valid addressable start stop,
    fun _ valid start len => sdssubstr_spec valid start len⟩

theorem valid_ciao : SdsString.Valid ⟨.type8, 4, 4, [99, 105, 97, 111, 0]⟩ :=
  ⟨rfl, fun five => (by cases five), fun _ => rfl, fun _ => (by decide), fun _ =>
    (coe_le_sdsTypeMaxSize .type8 4).mpr ⟨by decide, by decide, by decide, by decide⟩⟩

theorem sdsrange_sdssubstr_cut_ciao :
    (SdsString.Valid ⟨.type8, 4, 4, [99, 105, 97, 111, 0]⟩ ∧ 4 < 2 ^ 63) ∧
      (∃ s', sdsrange ⟨.type8, 4, 4, [99, 105, 97, 111, 0]⟩ (-2) (-1) = some s' ∧ s'.Valid ∧
        sdsContent s' = if (4 + (-2 : Int64).toInt < 0 ∨ 4 + (-1 : Int64).toInt < 4 + (-2 : Int64).toInt) then []
          else ((sdsContent ⟨.type8, 4, 4, [99, 105, 97, 111, 0]⟩).drop (4 + (-2 : Int64).toInt).toNat).take
            (4 + (-1 : Int64).toInt - (4 + (-2 : Int64).toInt) + 1).toNat) ∧
      ∃ s', sdssubstr ⟨.type8, 4, 4, [99, 105, 97, 111, 0]⟩ 9 2 = some s' ∧ s'.Valid ∧
        sdsContent s' = ((sdsContent ⟨.type8, 4, 4, [99, 105, 97, 111, 0]⟩).drop 9).take 2 :=
  ⟨⟨valid_ciao, by decide⟩, sdsrange_sdssubstr_cut.1 _ valid_ciao (by decide) (-2) (-1),
    sdsrange_sdssubstr_cut.2 _ valid_ciao 9 2⟩

theorem sdsrange_start_below_length_empties :
    (sdsrange ⟨.type8, 4, 4, [99, 105, 97, 111, 0]⟩ (-100) (-1)).map sdsContent = some [] ∧
      sdsContent ⟨.type8, 4, 4, [99, 105, 97, 111, 0]⟩ = [99, 105, 97, 111] := by
  decide

end Kv.Sds
