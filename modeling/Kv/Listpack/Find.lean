import Kv.Listpack.Entry

/-!
The validation of a whole listpack and lpFind, which looks up hash fields, set members and
sorted-set members in their listpack encodings (listpack.c).
-/

namespace Kv.Listpack

open Foundations Util

def lpHdrSize : Nat := 6

def lpHdrNumeleUnknown : Nat := 65535

def lpGetTotalBytes (lp : List UInt8) : Nat := decodeLE (lp.take 4)

def lpGetNumElements (lp : List UInt8) : Nat := decodeLE ((lp.drop 4).take 2)

def lpCurrentEncodedSizeBytes (p : List UInt8) : Nat :=
  let b := byteAt p 0
  if lpEncodingIs7BitUint b then 1
  else if lpEncodingIs6BitStr b then 1
  else if lpEncodingIs13BitInt b then 1
  else if lpEncodingIs16BitInt b then 1
  else if lpEncodingIs24BitInt b then 1
  else if lpEncodingIs32BitInt b then 1
  else if lpEncodingIs64BitInt b then 1
  else if lpEncodingIs12BitStr b then 2
  else if lpEncodingIs32BitStr b then 5
  else if b = lpEof then 1
  else 0

/-- lpSkip, as the offset of the entry after the one at p. -/
def lpSkip (lp : List UInt8) (p : Nat) : Nat :=
  let entrylen := lpCurrentEncodedSizeUnsafe (lp.drop p)
  p + (entrylen + (lpEncodeBacklen entrylen).length)

def lpOutOfRange (lpbytes q : Nat) : Bool :=
  q < lpHdrSize || q > lpbytes - 1

/-- lpValidateNext: none where it returns 0, otherwise the new *pp, NULL past the EOF. -/
def lpValidateNext (lp : List UInt8) (p lpbytes : Nat) : Option (Option Nat) :=
  if lpOutOfRange lpbytes p then none
  else if byteAt (lp.drop p) 0 = lpEof then
    -- EOF must only appear at the end of a listpack
    if p + 1 ≠ lpbytes then none else some none
  else
    let lenbytes := lpCurrentEncodedSizeBytes (lp.drop p)
    if lenbytes = 0 then none
    else if lpOutOfRange lpbytes (p + lenbytes) then none
    else
      let encodedBacklen := (lpEncodeBacklen (lpCurrentEncodedSizeUnsafe (lp.drop p))).length
      let entrylen := lpCurrentEncodedSizeUnsafe (lp.drop p) + encodedBacklen
      if lpOutOfRange lpbytes (p + entrylen) then none
      else
        -- lpDecodeBacklen(p - 1) from the last byte of the entry down; its UINT64_MAX for a failed
        -- read, plus encodedBacklen, never equals entrylen
        let prevlen := lpDecodeBacklen ((lp.take (p + entrylen)).reverse)
        if prevlen + encodedBacklen ≠ entrylen then none else some (some (p + entrylen))

def lpValidateEntries (lp : List UInt8) (bytes : Nat) : Nat → Option Nat → Nat → Option (Option Nat × Nat)
  | 0, _, _ => none
  | _ + 1, none, count => some (none, count)
  | fuel + 1, some p, count =>
    if byteAt (lp.drop p) 0 = lpEof then some (some p, count)
    else
      match lpValidateNext lp p bytes with
      | none => none
      | some next => lpValidateEntries lp bytes fuel next (count + 1)

/-- lpValidateIntegrity with entry_cb NULL, for an allocation of size bytes. -/
def lpValidateIntegrity (lp : List UInt8) (size : Nat) (deep : Bool) : Bool :=
  -- the header and the EOF must be readable
  if size < lpHdrSize + 1 then false
  else if lpGetTotalBytes lp ≠ size then false
  else if byteAt lp (size - 1) ≠ lpEof then false
  else if !deep then true
  else
    match lpValidateEntries lp size size (some lpHdrSize) 0 with
    | none => false
    | some (p, count) =>
      if p ≠ some (size - 1) then false
      else if lpGetNumElements lp ≠ lpHdrNumeleUnknown ∧ lpGetNumElements lp ≠ count then false
      else true

/-- lpCompare: whether the entry at p holds s, as a string or as the integer s spells. -/
def lpCompare (p s : List UInt8) : Bool :=
  if byteAt p 0 = lpEof then false
  else
    match (lpGetWithSize p).1 with
    | .str offset count => decide (s.length = count ∧ (p.drop offset).take s.length = s)
    | .int sz =>
      match string2ll s with
      | some sval => sz == sval
      | none => false

structure FindState where
  p : Nat
  skipcnt : Int32
  vencoding : UInt8
  vll : Int64
  entrySize : Nat

def lpFindVencoding (s : List UInt8) (vencoding : UInt8) (vll : Int64) : UInt8 × Int64 :=
  if vencoding = 0 then
    if s.length ≥ 32 ∨ s.length = 0 then (255, vll)
    else
      match string2ll s with
      | some v => (1, v)
      | none => (255, vll)
  else (vencoding, vll)

def lpFindCompare (lp s : List UInt8) (skip : UInt32) (lpBytes : Nat) (st : FindState) :
    Option (Nat ⊕ FindState) :=
  if st.skipcnt = 0 then
    let got := lpGetWithSize (lp.drop st.p)
    -- entry_size is written only for a known encoding
    let entrySize := got.2.getD st.entrySize
    match got.1 with
    | .str offset count =>
      -- the value must not reach outside the listpack
      if ¬(lpHdrSize ≤ st.p ∧ st.p + entrySize < lpBytes) then none
      else if s.length = count ∧ (lp.drop (st.p + offset)).take s.length = s then some (.inl st.p)
      else some (.inr ⟨st.p + entrySize, skip.toInt32, st.vencoding, st.vll, entrySize⟩)
    | .int ll =>
      let encoded := lpFindVencoding s st.vencoding st.vll
      if encoded.1 ≠ 255 ∧ ll = encoded.2 then some (.inl st.p)
      else some (.inr ⟨st.p + entrySize, skip.toInt32, encoded.1, encoded.2, entrySize⟩)
  else some (.inr { st with p := lpSkip lp st.p, skipcnt := st.skipcnt - 1 })

def lpFindLoop (lp s : List UInt8) (skip : UInt32) (lpBytes : Nat) : Nat → FindState → Option (Option Nat)
  | 0, _ => none
  | fuel + 1, st =>
    match lpFindCompare lp s skip lpBytes st with
    | none => none
    | some (.inl p) => some (some p)
    | some (.inr st) =>
      -- the next lpGetWithSize reads at most 8 bytes past p: the full check only near the end
      let checked : Bool :=
        if st.p + 8 ≥ lpBytes then (lpValidateNext lp st.p lpBytes).isSome
        else decide (lpHdrSize ≤ st.p ∧ st.p < lpBytes)
      if !checked then none
      else if byteAt (lp.drop st.p) 0 = lpEof then (if st.p + 1 = lpBytes then some none else none)
      else lpFindLoop lp s skip lpBytes fuel st

/-- lpFind from the entry at p, skipping skip entries between comparisons: none for a failed
assertion, otherwise the entry found or NULL. -/
def lpFind (lp : List UInt8) (p : Nat) (s : List UInt8) (skip : UInt32) : Option (Option Nat) :=
  lpFindLoop lp s skip (lpGetTotalBytes lp) lp.length ⟨p, 0, 0, 0, 123456789⟩

inductive Walk (lp : List UInt8) (bytes : Nat) : Nat → List Nat → Prop
  | eof {p : Nat} : lpValidateNext lp p bytes = some none → Walk lp bytes p []
  | entry {p q : Nat} {offs : List Nat} :
      lpValidateNext lp p bytes = some (some q) → Walk lp bytes q offs → Walk lp bytes p (p :: offs)

def scanHit (lp s : List UInt8) (skip : Nat) (entry : Nat × Nat) : Bool :=
  entry.2 % (skip + 1) == 0 && lpCompare (lp.drop entry.1) s

def lpScan (lp s : List UInt8) (skip : Nat) (offs : List Nat) : Option Nat :=
  ((offs.zipIdx).find? (scanHit lp s skip)).map Prod.fst

section Validation

/-! What one step of lpValidateNext establishes, and the walk of a valid listpack built from it. -/

theorem lpOutOfRange_eq_false {b q : Nat} : lpOutOfRange b q = false ↔ lpHdrSize ≤ q ∧ q ≤ b - 1 := by
  unfold lpOutOfRange
  simp only [Bool.or_eq_false_iff, decide_eq_false_iff_not]
  omega

theorem lpValidateNext_entry {lp : List UInt8} {p b q : Nat} (next : lpValidateNext lp p b = some (some q)) :
    lpHdrSize ≤ p ∧ q < b ∧ byteAt (lp.drop p) 0 ≠ lpEof ∧ lpCurrentEncodedSizeBytes (lp.drop p) ≠ 0 ∧
      q = lpSkip lp p := by
  simp only [lpValidateNext] at next
  split_ifs at next with outside eof _ known _ beyond
  · exact absurd next (by simp)
  · cases next
    have inside := lpOutOfRange_eq_false.mp (Bool.eq_false_iff.mpr outside)
    have ends := lpOutOfRange_eq_false.mp (Bool.eq_false_iff.mpr beyond)
    unfold lpHdrSize at ends
    exact ⟨inside.1, by omega, eof, known, rfl⟩

theorem lpValidateNext_eof {lp : List UInt8} {p b : Nat} (next : lpValidateNext lp p b = some none) :
    lpHdrSize ≤ p ∧ byteAt (lp.drop p) 0 = lpEof ∧ p + 1 = b := by
  simp only [lpValidateNext] at next
  split_ifs at next with outside eof ended <;> cases next
  exact ⟨(lpOutOfRange_eq_false.mp (Bool.eq_false_iff.mpr outside)).1, eof, by omega⟩

theorem lpValidateNext_of_eof {lp : List UInt8} {p b : Nat} (start : lpHdrSize ≤ p)
    (eof : byteAt (lp.drop p) 0 = lpEof) (last : p + 1 = b) : lpValidateNext lp p b = some none := by
  have inside : lpOutOfRange b p = false := lpOutOfRange_eq_false.mpr ⟨start, by omega⟩
  simp [lpValidateNext, inside, eof, last]

theorem lpEncodeBacklen_length_pos (l : Nat) : 0 < (lpEncodeBacklen l).length := by
  unfold lpEncodeBacklen
  split_ifs <;> simp

theorem lt_lpSkip (lp : List UInt8) (p : Nat) : p < lpSkip lp p := by
  have := lpEncodeBacklen_length_pos (lpCurrentEncodedSizeUnsafe (lp.drop p))
  simp only [lpSkip]
  omega

theorem lpGetWithSize_size {p : List UInt8} (known : lpCurrentEncodedSizeBytes p ≠ 0) (notEof : byteAt p 0 ≠ lpEof) :
    (lpGetWithSize p).2 =
      some (lpCurrentEncodedSizeUnsafe p + (lpEncodeBacklen (lpCurrentEncodedSizeUnsafe p)).length) := by
  simp only [lpGetWithSize, lpCurrentEncodedSizeUnsafe]
  split_ifs with h7 h6 h13 h16 h24 h32 h64 h12 h32s
  -- an integer form is a fixed-size encoding and a one-byte backlen; a string form is its header,
  -- the string and the backlen of their sum
  · rfl
  · rw [Nat.add_comm (lpEncoding6BitStrLen p) 1]
  · rfl
  · rfl
  · rfl
  · rfl
  · rfl
  · rw [Nat.add_comm (lpEncoding12BitStrLen p) 2]
  · rw [Nat.add_comm (lpEncoding32BitStrLen p) 5]
  · simp [lpCurrentEncodedSizeBytes, h7, h6, h13, h16, h24, h32, h64, h12, h32s, notEof] at known

namespace Walk

variable {lp : List UInt8} {b : Nat}

theorem length_le {p : Nat} {offs : List Nat} (walk : Walk lp b p offs) : p + offs.length + 1 ≤ b := by
  induction walk with
  | eof next =>
    have := lpValidateNext_eof next
    simp only [List.length_nil]
    omega
  | @entry p q offs next _ ih =>
    have skipTo := (lpValidateNext_entry next).2.2.2.2
    have := lt_lpSkip lp p
    simp only [List.length_cons]
    omega

theorem of_mem {p : Nat} {offs : List Nat} (walk : Walk lp b p offs) {o : Nat} (member : o ∈ offs) :
    ∃ rest, Walk lp b o (o :: rest) ∧ o :: rest <:+ offs := by
  induction walk with
  | eof _ => cases member
  | @entry p q offs next walk ih =>
    rcases List.mem_cons.mp member with rfl | later
    · exact ⟨offs, .entry next walk, List.suffix_refl _⟩
    · obtain ⟨rest, walkO, suffix⟩ := ih later
      exact ⟨rest, walkO, suffix.trans (List.suffix_cons p offs)⟩

end Walk

theorem lpValidateEntries_walk {lp : List UInt8} {b : Nat} (room : lpHdrSize + 1 ≤ b) :
    ∀ fuel p count count', lpValidateEntries lp b fuel (some p) count = some (some (b - 1), count') →
      ∃ offs, Walk lp b p offs := by
  intro fuel
  induction fuel with
  | zero =>
    intro p count count' run
    simp [lpValidateEntries] at run
  | succ fuel ih =>
    intro p count count' run
    simp only [lpValidateEntries] at run
    split at run
    · -- the EOF ends the loop, at the last byte
      rename_i eof
      obtain ⟨last, -⟩ := Prod.mk.inj (Option.some.inj run)
      cases last
      exact ⟨[], .eof (lpValidateNext_of_eof (by omega) eof (by omega))⟩
    · split at run
      · cases run
      · rename_i next found
        cases next with
        | none => cases fuel <;> simp [lpValidateEntries] at run
        | some q =>
          obtain ⟨offs, walk⟩ := ih q (count + 1) count' run
          exact ⟨p :: offs, .entry found walk⟩

theorem lpValidateIntegrity_walk {lp : List UInt8} (valid : lpValidateIntegrity lp lp.length true = true) :
    lpGetTotalBytes lp = lp.length ∧ ∃ offs, Walk lp lp.length lpHdrSize offs := by
  simp only [lpValidateIntegrity] at valid
  split_ifs at valid with small bytes eof shallow
  · exact absurd shallow (by decide)
  split at valid
  · cases valid
  · rename_i final count run
    split_ifs at valid with ended
    simp only [ne_eq, Decidable.not_not] at ended
    subst ended
    exact ⟨by omega, lpValidateEntries_walk (by omega) _ _ _ _ run⟩

end Validation

section Needle

/-! What lpFind knows of the needle s between turns: how many entries it still skips, and its
integer form once worked out. -/

def VencodingOk (s : List UInt8) (vencoding : UInt8) (vll : Int64) : Prop :=
  vencoding = 0 ∨ (vencoding = 255 ∧ string2ll s = none) ∨ (vencoding = 1 ∧ string2ll s = some vll)

structure FindState.Ok (s : List UInt8) (skip : UInt32) (c : Nat) (st : FindState) : Prop where
  count : st.skipcnt.toBitVec.toNat = c
  le : c ≤ skip.toNat
  vencoding : VencodingOk s st.vencoding st.vll

theorem string2ll_eq_none_of_length {s : List UInt8} (length : s.length ≥ 32 ∨ s.length = 0) :
    string2ll s = none := by
  simp only [string2ll, string2llScalar, longStrSize]
  rw [if_pos (by omega)]

theorem lpFindVencoding_spec {s : List UInt8} {vencoding : UInt8} {vll : Int64} (ok : VencodingOk s vencoding vll)
    (ll : Int64) :
    VencodingOk s (lpFindVencoding s vencoding vll).1 (lpFindVencoding s vencoding vll).2 ∧
      ((lpFindVencoding s vencoding vll).1 ≠ 255 ∧ ll = (lpFindVencoding s vencoding vll).2 ↔
        string2ll s = some ll) := by
  unfold lpFindVencoding
  split_ifs with fresh length
  · simp [VencodingOk, string2ll_eq_none_of_length length]
  · cases parsed : string2ll s with
    | none => simp [VencodingOk, parsed]
    | some v =>
      simp only [VencodingOk, parsed, ne_eq, reduceCtorEq, true_and, and_true, or_true, Option.some.injEq]
      exact ⟨fun found => found.2.symm, fun same => ⟨by decide, same.symm⟩⟩
  · rcases ok with zero | ⟨no, none⟩ | ⟨one, some⟩
    · exact absurd zero fresh
    · simp [VencodingOk, no, none]
    · simp [VencodingOk, one, some, eq_comm]

theorem skipcnt_eq_zero_iff {x : Int32} {c : Nat} (count : x.toBitVec.toNat = c) : x = 0 ↔ c = 0 := by
  rw [← Int32.toBitVec_inj, ← count]
  simp [BitVec.toNat_eq]

theorem skipcnt_sub_one {x : Int32} {c : Nat} (count : x.toBitVec.toNat = c) (pos : 0 < c) :
    (x - 1).toBitVec.toNat = c - 1 := by
  have := x.toBitVec.isLt
  simp [Int32.toBitVec_sub, BitVec.toNat_sub, count]
  omega

theorem toInt32_count (skip : UInt32) : skip.toInt32.toBitVec.toNat = skip.toNat := by
  simp [UInt32.toBitVec_toInt32]

theorem skipDue_iff {k c n : Nat} (aligned : (k + c) % (n + 1) = 0) (le : c ≤ n) : k % (n + 1) = 0 ↔ c = 0 := by
  constructor
  · intro due
    by_contra nonzero
    have : (k + c) % (n + 1) = c := by
      rw [Nat.add_mod, due, Nat.zero_add, Nat.mod_mod, Nat.mod_eq_of_lt (by omega)]
    omega
  · rintro rfl
    simpa using aligned

theorem skipDue_next {k c n : Nat} (aligned : (k + c) % (n + 1) = 0) :
    (k + 1 + (if c = 0 then n else c - 1)) % (n + 1) = 0 := by
  split
  · rename_i zero
    subst zero
    rw [show k + 1 + n = k + (n + 1) by omega, Nat.add_mod_right]
    simpa using aligned
  · rw [show k + 1 + (c - 1) = k + c by omega]
    exact aligned

end Needle

section Scan

variable {lp s : List UInt8} {skip : UInt32} {b : Nat}

theorem lpFindCompare_entry {c q : Nat} {st : FindState} (ok : st.Ok s skip c)
    (next : lpValidateNext lp st.p b = some (some q)) :
    ∃ st', st'.p = q ∧ st'.Ok s skip (if c = 0 then skip.toNat else c - 1) ∧
      lpFindCompare lp s skip b st =
        if c = 0 ∧ lpCompare (lp.drop st.p) s = true then some (.inl st.p) else some (.inr st') := by
  obtain ⟨start, within, notEof, known, skipTo⟩ := lpValidateNext_entry next
  by_cases due : c = 0
  · subst due
    have zero : st.skipcnt = 0 := (skipcnt_eq_zero_iff ok.count).mpr rfl
    -- entry_size steps exactly as lpSkip does, and the entry ends inside the listpack
    obtain ⟨n, size, moved⟩ : ∃ n, (lpGetWithSize (lp.drop st.p)).2 = some n ∧ st.p + n = q :=
      ⟨_, lpGetWithSize_size known notEof, skipTo.symm⟩
    cases value : (lpGetWithSize (lp.drop st.p)).1 with
    | str offset count =>
      refine ⟨⟨q, skip.toInt32, st.vencoding, st.vll, n⟩, rfl, ⟨toInt32_count skip, le_refl _, ok.vencoding⟩, ?_⟩
      simp only [lpFindCompare, zero, if_true, size, Option.getD_some, value, moved, start, within, and_self,
        not_true_eq_false, if_false, lpCompare, notEof, List.drop_drop, true_and, decide_eq_true_eq]
    | int ll =>
      obtain ⟨okV, hit⟩ := lpFindVencoding_spec ok.vencoding ll
      refine ⟨⟨q, skip.toInt32, (lpFindVencoding s st.vencoding st.vll).1, (lpFindVencoding s st.vencoding st.vll).2, n⟩,
        rfl, ⟨toInt32_count skip, le_refl _, okV⟩, ?_⟩
      -- lpCompare parses s afresh where lpFind reuses vencoding
      have compared : lpCompare (lp.drop st.p) s = true ↔ string2ll s = some ll := by
        simp only [lpCompare, notEof, if_false, value]
        cases string2ll s with
        | none => simp
        | some sval =>
          simp only [beq_iff_eq, Option.some.injEq]
          exact eq_comm
      simp only [lpFindCompare, zero, if_true, size, Option.getD_some, value, moved]
      by_cases found : string2ll s = some ll
      · rw [if_pos (hit.mpr found), if_pos ⟨trivial, compared.mpr found⟩]
      · rw [if_neg (mt hit.mp found), if_neg (fun both => found (compared.mp both.2))]
  · have nonzero : st.skipcnt ≠ 0 := fun zero => due ((skipcnt_eq_zero_iff ok.count).mp zero)
    refine ⟨{ st with p := lpSkip lp st.p, skipcnt := st.skipcnt - 1 }, skipTo.symm, ?_, ?_⟩
    · rw [if_neg due]
      exact ⟨skipcnt_sub_one ok.count (by omega), by have := ok.le; omega, ok.vencoding⟩
    · simp only [lpFindCompare, nonzero, if_false, due, false_and]

theorem lpFind_checked {q : Nat} {offs : List Nat} (walk : Walk lp b q offs) :
    (if q + 8 ≥ b then (lpValidateNext lp q b).isSome else decide (lpHdrSize ≤ q ∧ q < b)) = true := by
  cases walk with
  | eof next =>
    obtain ⟨start, -, last⟩ := lpValidateNext_eof next
    split
    · rw [next]
      rfl
    · simp only [decide_eq_true_eq]
      exact ⟨start, by omega⟩
  | entry next _ =>
    obtain ⟨start, within, -, -, skipTo⟩ := lpValidateNext_entry next
    have := lt_lpSkip lp q
    split
    · rw [next]
      rfl
    · simp only [decide_eq_true_eq]
      exact ⟨start, by omega⟩

theorem lpFindLoop_turn (fuel : Nat) {c q : Nat} {rest : List Nat} {st : FindState} (ok : st.Ok s skip c)
    (next : lpValidateNext lp st.p b = some (some q)) (later : Walk lp b q rest) :
    ∃ st', st'.p = q ∧ st'.Ok s skip (if c = 0 then skip.toNat else c - 1) ∧
      lpFindLoop lp s skip b (fuel + 1) st =
        if c = 0 ∧ lpCompare (lp.drop st.p) s = true then some (some st.p)
        else if byteAt (lp.drop q) 0 = lpEof then some none
        else lpFindLoop lp s skip b fuel st' := by
  obtain ⟨st', moved, ok', compare⟩ := lpFindCompare_entry ok next
  refine ⟨st', moved, ok', ?_⟩
  by_cases found : c = 0 ∧ lpCompare (lp.drop st.p) s = true
  · rw [if_pos found] at compare
    simp only [lpFindLoop, compare, if_pos found]
  · rw [if_neg found] at compare
    subst moved
    have checked := lpFind_checked later
    rw [if_neg found]
    -- the walk tells whether the EOF follows, and that it ends the listpack
    cases later with
    | eof last =>
      obtain ⟨-, eof, ends⟩ := lpValidateNext_eof last
      simp only [lpFindLoop, compare, checked, Bool.not_true, Bool.false_eq_true, if_false, eof, ends, if_true]
    | entry following _ =>
      have notEof := (lpValidateNext_entry following).2.2.1
      simp only [lpFindLoop, compare, checked, Bool.not_true, Bool.false_eq_true, if_false, notEof]

theorem scanHit_iff {o k c : Nat} (aligned : (k + c) % (skip.toNat + 1) = 0) (le : c ≤ skip.toNat) :
    scanHit lp s skip.toNat (o, k) = true ↔ c = 0 ∧ lpCompare (lp.drop o) s = true := by
  simp [scanHit, skipDue_iff aligned le]

theorem lpFindLoop_scan :
    ∀ (rest : List Nat) (fuel k c : Nat) (st : FindState), Walk lp b st.p (st.p :: rest) → st.Ok s skip c →
      (k + c) % (skip.toNat + 1) = 0 → rest.length < fuel →
      lpFindLoop lp s skip b fuel st =
        some ((((st.p :: rest).zipIdx k).find? (scanHit lp s skip.toNat)).map Prod.fst) := by
  intro rest
  -- one entry of the walk per turn of the loop
  induction rest with
  | nil =>
    intro fuel k c st walk ok aligned enough
    obtain _ | ⟨next, last⟩ := walk
    obtain _ | fuel := fuel
    · cases enough
    obtain ⟨st', moved, -, turn⟩ := lpFindLoop_turn fuel ok next last
    rw [turn, List.zipIdx_cons, List.find?_cons]
    by_cases found : c = 0 ∧ lpCompare (lp.drop st.p) s = true
    · simp only [if_pos found, (scanHit_iff aligned ok.le).mpr found, Option.map_some]
    · -- the walk ends with this entry: the EOF follows it
      have miss := Bool.eq_false_iff.mpr (mt (scanHit_iff aligned ok.le).mp found)
      obtain _ | last := last
      simp only [if_neg found, miss, (lpValidateNext_eof ‹_›).2.1, if_true, List.zipIdx_nil, List.find?_nil,
        Option.map_none]
  | cons r rest ih =>
    intro fuel k c st walk ok aligned enough
    obtain _ | ⟨next, later⟩ := walk
    obtain _ | fuel := fuel
    · cases enough
    obtain ⟨st', moved, ok', turn⟩ := lpFindLoop_turn fuel ok next later
    rw [turn, List.zipIdx_cons, List.find?_cons]
    by_cases found : c = 0 ∧ lpCompare (lp.drop st.p) s = true
    · simp only [if_pos found, (scanHit_iff aligned ok.le).mpr found, Option.map_some]
    · -- the loop goes on from the next entry of the walk
      have miss := Bool.eq_false_iff.mpr (mt (scanHit_iff aligned ok.le).mp found)
      subst moved
      obtain _ | ⟨following, _⟩ := later
      have goesOn := ih fuel (k + 1) _ st' (.entry following ‹_›) ok' (skipDue_next aligned)
        (by simp only [List.length_cons] at enough; omega)
      simp only [if_neg found, miss, (lpValidateNext_entry following).2.2.1, if_false, goesOn]

end Scan

theorem lpFind_scan (lp : List UInt8) (valid : lpValidateIntegrity lp lp.length true = true) :
    ∃ offs, Walk lp lp.length lpHdrSize offs ∧
      ∀ p ∈ offs, ∀ (s : List UInt8) (skip : UInt32), ∃ rest, p :: rest <:+ offs ∧
        lpFind lp p s skip = some (lpScan lp s skip.toNat (p :: rest)) := by
  obtain ⟨bytes, offs, walk⟩ := lpValidateIntegrity_walk valid
  refine ⟨offs, walk, fun p member s skip => ?_⟩
  obtain ⟨rest, walkP, suffix⟩ := walk.of_mem member
  refine ⟨rest, suffix, ?_⟩
  -- the walk from p is shorter than the listpack, so the fuel lasts
  have room := walkP.length_le
  have start : FindState.Ok s skip 0 ⟨p, 0, 0, 0, 123456789⟩ := ⟨rfl, Nat.zero_le _, Or.inl rfl⟩
  simp only [lpFind, bytes]
  exact lpFindLoop_scan rest lp.length 0 0 _ walkP start (by simp) (by simp only [List.length_cons] at room; omega)

theorem lpFind_scan_pair :
    let lp : List UInt8 := [12, 0, 0, 0, 2, 0, 0x81, 97, 2, 5, 1, 0xFF]
    lpValidateIntegrity lp lp.length true = true ∧
      ∃ offs, Walk lp lp.length lpHdrSize offs ∧
        ∀ p ∈ offs, ∀ (s : List UInt8) (skip : UInt32), ∃ rest, p :: rest <:+ offs ∧
          lpFind lp p s skip = some (lpScan lp s skip.toNat (p :: rest)) := by
  intro lp
  have valid : lpValidateIntegrity lp lp.length true = true := by decide
  exact ⟨valid, lpFind_scan lp valid⟩

example : lpFind [12, 0, 0, 0, 2, 0, 0x81, 97, 2, 5, 1, 0xFF] 6 [53] 0 = some (some 9) := by decide

end Kv.Listpack
