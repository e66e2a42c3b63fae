import Mathlib.Algebra.Group.Nat.Defs
import Kv.Sds.SplitArgs

/-!
sdscatrepr and the byte-level argument splitter of sds.c, sdsnsplitargs_internal behind
sdssplitargs and sdsnsplitargs, with the end pointer of the length-delimited form and the C types
of the splitter's counters: sdsparsearg returns how far it read as an int, and the token length is
an unsigned int. A line is the bytes of the string, with the terminator read past its end; char is
signed, as on the x86-64 and ARM64 Linux builds, and the locale is C.
-/

namespace Kv.Sds.Repr

def isprint (c : UInt8) : Bool :=
  32 ≤ c && c ≤ 126

def isspace (c : UInt8) : Bool :=
  c == 32 || (9 ≤ c && c ≤ 13)

def hexDigitByte (v : Nat) : UInt8 :=
  if v < 10 then UInt8.ofNat (48 + v) else UInt8.ofNat (87 + v)

def reprByte (c : UInt8) : List UInt8 :=
  if isprint c && c != 92 && c != 34 then [c]
  else if c = 92 ∨ c = 34 then [92, c]
  else if c = 10 then [92, 110]
  else if c = 13 then [92, 114]
  else if c = 9 then [92, 116]
  else if c = 7 then [92, 97]
  else if c = 8 then [92, 98]
  else [92, 120, hexDigitByte (c.toNat / 16), hexDigitByte (c.toNat % 16)]

/-- sdscatrepr(s, p, len): s, then p between double quotes. The source appends a run of plain
bytes with one sdscatlen; the bytes are those of one reprByte each. -/
def sdscatrepr (s p : List UInt8) : List UInt8 :=
  s ++ 34 :: p.flatMap reprByte ++ [34]

def charAt (p : List UInt8) (i : Nat) : UInt8 :=
  p.getD i 0

def isHexDigit (c : UInt8) : Bool :=
  (48 ≤ c && c ≤ 57) || (97 ≤ c && c ≤ 102) || (65 ≤ c && c ≤ 70)

def hexDigitToInt (c : UInt8) : Nat :=
  if 48 ≤ c ∧ c ≤ 57 then c.toNat - 48
  else if 97 ≤ c ∧ c ≤ 102 then c.toNat - 87
  else if 65 ≤ c ∧ c ≤ 70 then c.toNat - 55
  else 0

def charValue (c : UInt8) : Int :=
  if c.toNat < 128 then c.toNat else c.toNat - 256

def unescape (e : UInt8) : Int :=
  if e = 110 then 10
  else if e = 114 then 13
  else if e = 116 then 9
  else if e = 98 then 8
  else if e = 97 then 7
  else charValue e

def isPtrExceedingEnd (left : Option Nat) (len : Nat) : Bool :=
  match left with
  | none => false
  | some n => n ≤ len

def sdsparseargTurn (left : Option Nat) (q : Quote) (p : List UInt8) : Option (Quote × Nat × Int × Bool) :=
  match q with
  | .double =>
    if charAt p 0 = 0 then none
    else if !isPtrExceedingEnd left 4 && charAt p 0 == 92 && charAt p 1 == 120 &&
        isHexDigit (charAt p 2) && isHexDigit (charAt p 3) then
      some (.double, 4, hexDigitToInt (charAt p 2) * 16 + hexDigitToInt (charAt p 3), false)
    else if !isPtrExceedingEnd left 2 && charAt p 0 == 92 && charAt p 1 != 0 then
      some (.double, 2, unescape (charAt p 1), false)
    else if charAt p 0 = 34 then some (.none, 1, -1, false)
    else some (.double, 1, charValue (charAt p 0), false)
  | .single =>
    if charAt p 0 = 0 then none
    else if !isPtrExceedingEnd left 2 && charAt p 0 == 92 && charAt p 1 == 39 then
      some (.single, 2, 39, false)
    else if charAt p 0 = 39 then some (.none, 1, -1, false)
    else some (.single, 1, charValue (charAt p 0), false)
  | .none =>
    let c := charAt p 0
    -- a blank is stepped over, the terminator is not
    if c = 32 ∨ c = 10 ∨ c = 13 ∨ c = 9 then some (.none, 1, -1, true)
    else if c = 0 then some (.none, 0, -1, true)
    else if c = 34 then some (.double, 1, -1, false)
    else if c = 39 then some (.single, 1, -1, false)
    else some (.none, 1, charValue c, false)

def sdsparseargLoop (left : Option Nat) : Nat → Quote → List UInt8 → Nat → List UInt8 →
    Option (Nat × List UInt8)
  | 0, _, _, _, _ => none
  | fuel + 1, q, p, consumed, out =>
    match sdsparseargTurn (left.map (· - consumed)) q p with
    | none => none
    | some (q, step, newChar, done) =>
      -- (*len)++ and *dst++ = (char)new_char
      let out := if newChar ≠ -1 then out ++ [UInt8.ofNat (newChar % 256).toNat] else out
      let consumed := consumed + step
      if isPtrExceedingEnd (left.map (· - consumed)) 0 then
        if q ≠ .none then none else some (consumed, out)
      else if done then some (consumed, out)
      else sdsparseargLoop left fuel q (p.drop step) consumed out

/-- sdsparsearg(arg, end, len, dst): its return value, p - arg as a C int (0 where it fails),
and the bytes it writes to dst. What it wrote before returning 0 is not read by its caller. -/
def sdsparsearg (left : Option Nat) (arg : List UInt8) : Int32 × List UInt8 :=
  if isPtrExceedingEnd left 0 then (0, [])
  else
    match sdsparseargLoop left (arg.length + 1) .none arg 0 [] with
    | none => (0, [])
    | some (consumed, out) => (Int32.ofNat consumed, out)

def skipBlanks : Option Nat → List UInt8 → Option Nat × List UInt8
  | left, [] => (left, [])
  | left, c :: rest =>
    if c != 0 && !isPtrExceedingEnd left 0 && isspace c then skipBlanks (left.map (· - 1)) rest
    else (left, c :: rest)

def intMax : Nat :=
  2 ^ 31 - 1

def sdsnsplitargsLoop : Nat → Option Nat → List UInt8 → Nat → Option (Option (List (List UInt8)))
  | 0, _, _, _ => none
  | fuel + 1, left, p, argc =>
    let (left, p) := skipBlanks left p
    if charAt p 0 = 0 ∨ isPtrExceedingEnd left 0 then some (some [])
    else
      -- both calls of sdsparsearg read the same bytes: the first gives the unsigned token_len,
      -- the second writes the token into a buffer of that size
      let (parsed, current) := sdsparsearg left p
      if parsed = 0 then some none
      else if 2 ^ 32 ≤ current.length then none
      else if ¬(0 < parsed) then none
      else if argc = intMax then none
      else
        (sdsnsplitargsLoop fuel (left.map (· - parsed.toInt.toNat)) (p.drop parsed.toInt.toNat)
          (argc + 1)).map (Option.map (current :: ·))

/-- sdsnsplitargs_internal(line, end, argc), with left the bytes from line to end, none for NULL. -/
def sdsnsplitargsInternal (line : List UInt8) (left : Option Nat) : Option (Option (List (List UInt8))) :=
  sdsnsplitargsLoop (line.length + 1) left line 0

def sdssplitargs (line : List UInt8) : Option (Option (List (List UInt8))) :=
  sdsnsplitargsInternal line none

def sdsnsplitargs (line : List UInt8) (len : Nat) : Option (Option (List (List UInt8))) :=
  sdsnsplitargsInternal line (some len)

/-! ## Quoted bytes -/

@[simp] theorem charAt_cons_zero (c : UInt8) (p : List UInt8) : charAt (c :: p) 0 = c := rfl

@[simp] theorem charAt_cons_succ (c : UInt8) (p : List UInt8) (i : Nat) :
    charAt (c :: p) (i + 1) = charAt p i := rfl

@[simp] theorem charAt_nil (i : Nat) : charAt [] i = 0 := by
  simp [charAt]

theorem hexDigitByte_read :
    ∀ v < 16, isHexDigit (hexDigitByte v) = true ∧ hexDigitToInt (hexDigitByte v) = v := by
  decide

theorem reprByte_cases (c : UInt8) :
    (reprByte c = [c] ∧ c.toNat < 128 ∧ c ≠ 0 ∧ c ≠ 92 ∧ c ≠ 34) ∨
    (∃ e, reprByte c = [92, e] ∧ e ≠ 120 ∧ e ≠ 0 ∧ unescape e = c.toNat) ∨
    (∃ h l, reprByte c = [92, 120, h, l] ∧ isHexDigit h = true ∧ isHexDigit l = true ∧
      hexDigitToInt h * 16 + hexDigitToInt l = c.toNat) := by
  unfold reprByte
  split_ifs with plain quoted nl cr tab bel bs
  · simp only [isprint, Bool.and_eq_true, decide_eq_true_eq, bne_iff_ne, ne_eq,
      UInt8.le_iff_toNat_le] at plain
    obtain ⟨⟨⟨low, high⟩, notBackslash⟩, notQuote⟩ := plain
    refine .inl ⟨rfl, by simp at high; omega, fun zero => ?_, notBackslash, notQuote⟩
    simp [zero] at low
  · rcases quoted with rfl | rfl
    all_goals exact .inr (.inl ⟨_, rfl, by decide, by decide, by decide⟩)
  -- the named escapes
  · subst nl; exact .inr (.inl ⟨110, rfl, by decide, by decide, by decide⟩)
  · subst cr; exact .inr (.inl ⟨114, rfl, by decide, by decide, by decide⟩)
  · subst tab; exact .inr (.inl ⟨116, rfl, by decide, by decide, by decide⟩)
  · subst bel; exact .inr (.inl ⟨97, rfl, by decide, by decide, by decide⟩)
  · subst bs; exact .inr (.inl ⟨98, rfl, by decide, by decide, by decide⟩)
  · -- the hex escape: the two digits of c read back
    have bound := c.toNat_lt
    obtain ⟨highHex, highRead⟩ := hexDigitByte_read (c.toNat / 16) (by omega)
    obtain ⟨lowHex, lowRead⟩ := hexDigitByte_read (c.toNat % 16) (by omega)
    refine .inr (.inr ⟨_, _, rfl, highHex, lowHex, ?_⟩)
    rw [highRead, lowRead]
    omega

/-! ## sdsparsearg on a quoted string -/

def endAt (bounded : Bool) (n : Nat) : Option Nat :=
  if bounded then some n else none

@[simp] theorem endAt_map_sub (bounded : Bool) (n k : Nat) :
    (endAt bounded n).map (· - k) = endAt bounded (n - k) := by
  cases bounded <;> rfl

@[simp] theorem isPtrExceedingEnd_endAt (bounded : Bool) (n len : Nat) :
    isPtrExceedingEnd (endAt bounded n) len = (bounded && decide (n ≤ len)) := by
  cases bounded <;> rfl

theorem ofNat_toNat_mod (c : UInt8) : UInt8.ofNat (((c.toNat : Int) % 256).toNat) = c := by
  have small : (c.toNat : Int) % 256 = c.toNat :=
    Int.emod_eq_of_lt (by omega) (by have := c.toNat_lt; omega)
  rw [small, Int.toNat_natCast, UInt8.ofNat_toNat]

theorem sdsparseargTurn_reprByte (bounded : Bool) (c : UInt8) {rest : List UInt8} (more : rest ≠ []) :
    sdsparseargTurn (endAt bounded (reprByte c ++ rest).length) .double (reprByte c ++ rest) =
      some (Quote.double, (reprByte c).length, (c.toNat : Int), false) := by
  rcases reprByte_cases c with ⟨form, small, notNul, notBackslash, notQuote⟩ |
    ⟨e, form, notX, notNul, read⟩ | ⟨h, l, form, highHex, lowHex, read⟩
  · have signed : charValue c = c.toNat := if_pos small
    simp [form, sdsparseargTurn, notNul, notBackslash, notQuote, signed]
  · simp [form, sdsparseargTurn, notX, notNul, read, more]
  · have value : (hexDigitToInt h : Int) * 16 + hexDigitToInt l = c.toNat := by
      rw [← read]; push_cast; rfl
    simp [form, sdsparseargTurn, highHex, lowHex, value, more]

theorem sdsparseargLoop_reprByte (bounded : Bool) (c : UInt8) {rest : List UInt8} (more : rest ≠ [])
    (fuel consumed total : Nat) (out : List UInt8)
    (whole : total = consumed + (reprByte c ++ rest).length) :
    sdsparseargLoop (endAt bounded total) (fuel + 1) .double (reprByte c ++ rest) consumed out =
      sdsparseargLoop (endAt bounded total) fuel .double rest (consumed + (reprByte c).length)
        (out ++ [c]) := by
  have left : total - consumed = (reprByte c ++ rest).length := by omega
  have follows : ¬(total - (consumed + (reprByte c).length) ≤ 0) := by
    have := List.length_pos_iff.mpr more
    simp only [List.length_append] at whole
    omega
  simp only [sdsparseargLoop, endAt_map_sub, left, sdsparseargTurn_reprByte bounded c more]
  simp [follows, ofNat_toNat_mod]

theorem sdsparseargLoop_body (bounded : Bool) (x : List UInt8) {rest : List UInt8} (more : rest ≠ []) :
    ∀ fuel consumed total out, total = consumed + (x.flatMap reprByte ++ rest).length →
      sdsparseargLoop (endAt bounded total) (fuel + x.length) .double (x.flatMap reprByte ++ rest)
          consumed out =
        sdsparseargLoop (endAt bounded total) fuel .double rest
          (consumed + (x.flatMap reprByte).length) (out ++ x) := by
  induction x with
  | nil => intro fuel consumed total out _; simp
  | cons c x ih =>
    intro fuel consumed total out whole
    have tail : x.flatMap reprByte ++ rest ≠ [] := by simp [more]
    rw [List.flatMap_cons, List.append_assoc] at whole ⊢
    have after : total = consumed + (reprByte c).length + (x.flatMap reprByte ++ rest).length := by
      simp only [List.length_append] at whole ⊢
      omega
    rw [List.length_cons, ← Nat.add_assoc, sdsparseargLoop_reprByte bounded c tail _ _ _ _ whole,
      ih fuel _ total _ after]
    simp [Nat.add_assoc]

theorem sdscatrepr_nil_append (x sep : List UInt8) :
    sdscatrepr [] x ++ sep = 34 :: (x.flatMap reprByte ++ 34 :: sep) := by
  simp [sdscatrepr]

theorem length_sdscatrepr_nil (x : List UInt8) :
    (sdscatrepr [] x).length = 1 + (x.flatMap reprByte).length + 1 := by
  simp [sdscatrepr]
  omega

theorem length_le_flatMap_reprByte (x : List UInt8) : x.length ≤ (x.flatMap reprByte).length := by
  induction x with
  | nil => simp
  | cons c x ih =>
    have nonempty : 0 < (reprByte c).length := by
      unfold reprByte
      split_ifs <;> simp
    simp only [List.flatMap_cons, List.length_append, List.length_cons]
    omega

theorem sdsparseargLoop_quoted (bounded : Bool) (x sep : List UInt8) (fuel total : Nat)
    (whole : total = (sdscatrepr [] x ++ sep).length) :
    sdsparseargLoop (endAt bounded total) (fuel + x.length + 1) .none (sdscatrepr [] x ++ sep) 0 [] =
      sdsparseargLoop (endAt bounded total) fuel .double (34 :: sep)
        (1 + (x.flatMap reprByte).length) x := by
  rw [sdscatrepr_nil_append] at whole ⊢
  have opened : ¬(total - 1 ≤ 0) := by simp at whole; omega
  have body := @sdsparseargLoop_body bounded x (34 :: sep) (by simp) fuel 1 total []
    (by simp only [List.length_cons, List.length_append] at whole ⊢; omega)
  simp only [sdsparseargLoop, endAt_map_sub, sdsparseargTurn]
  simpa [opened] using body

theorem sdsparseargLoop_closeEnd (bounded : Bool) (fuel consumed : Nat) (out : List UInt8) :
    sdsparseargLoop (endAt bounded (consumed + 1)) (fuel + 2) .double [34] consumed out =
      some (consumed + 1, out) := by
  cases bounded <;> simp [sdsparseargLoop, sdsparseargTurn]

theorem sdsparseargLoop_closeBlank (bounded : Bool) (more : List UInt8) (fuel consumed : Nat)
    (out : List UInt8) :
    sdsparseargLoop (endAt bounded (consumed + 2 + more.length)) (fuel + 2) .double
        (34 :: 32 :: more) consumed out =
      some (consumed + 2, out) := by
  have inside : ¬(consumed + 2 + more.length - (consumed + 1) ≤ 0) := by omega
  cases bounded <;> simp [sdsparseargLoop, sdsparseargTurn, inside]

theorem sdsparsearg_sdscatrepr_end (bounded : Bool) (x : List UInt8) :
    sdsparsearg (endAt bounded (sdscatrepr [] x).length) (sdscatrepr [] x) =
      (Int32.ofNat (sdscatrepr [] x).length, x) := by
  have long := length_le_flatMap_reprByte x
  have size := length_sdscatrepr_nil x
  have fuel : (sdscatrepr [] x).length + 1 =
      ((x.flatMap reprByte).length - x.length + 2) + x.length + 1 := by omega
  have quoted := sdsparseargLoop_quoted bounded x [] ((x.flatMap reprByte).length - x.length + 2)
    (sdscatrepr [] x).length (by simp)
  rw [List.append_nil] at quoted
  unfold sdsparsearg
  rw [isPtrExceedingEnd_endAt, fuel, quoted, size, sdsparseargLoop_closeEnd]
  simp

theorem sdsparsearg_sdscatrepr_blank (bounded : Bool) (x more : List UInt8) :
    sdsparsearg (endAt bounded (sdscatrepr [] x ++ 32 :: more).length) (sdscatrepr [] x ++ 32 :: more) =
      (Int32.ofNat ((sdscatrepr [] x).length + 1), x) := by
  have long := length_le_flatMap_reprByte x
  have size : (sdscatrepr [] x ++ 32 :: more).length =
      1 + (x.flatMap reprByte).length + 2 + more.length := by
    simp only [List.length_append, List.length_cons, length_sdscatrepr_nil]
    omega
  have fuel : (sdscatrepr [] x ++ 32 :: more).length + 1 =
      ((x.flatMap reprByte).length - x.length + 1 + more.length + 2) + x.length + 1 := by omega
  have quoted := sdsparseargLoop_quoted bounded x (32 :: more)
    ((x.flatMap reprByte).length - x.length + 1 + more.length + 2) _ rfl
  have started : ¬(1 + (x.flatMap reprByte).length + 2 + more.length ≤ 0) := by omega
  rw [length_sdscatrepr_nil]
  unfold sdsparsearg
  rw [isPtrExceedingEnd_endAt, fuel, quoted, size, sdsparseargLoop_closeBlank]
  simp only [started, decide_false, Bool.and_false, Bool.false_eq_true, if_false]

/-! ## sdsnsplitargs_internal on quoted strings joined by spaces -/

theorem toInt_ofNat_of_lt {n : Nat} (small : n < 2 ^ 31) : (Int32.ofNat n).toInt = n := by
  rw [Int32.toInt_ofNat']
  exact Int.bmod_eq_of_le (by omega) (by simp only [Int32.size]; omega)

theorem skipBlanks_of_quote {line : List UInt8} (left : Option Nat) (quote : charAt line 0 = 34) :
    skipBlanks left line = (left, line) := by
  cases line with
  | nil => simp at quote
  | cons c rest =>
    simp only [charAt_cons_zero] at quote
    subst quote
    simp [skipBlanks, isspace]

theorem sdsnsplitargsLoop_token (bounded : Bool) {line x : List UInt8} {n : Nat} (fuel argc : Nat)
    (quote : charAt line 0 = 34)
    (parse : sdsparsearg (endAt bounded line.length) line = (Int32.ofNat n, x))
    (pos : 0 < n) (small : n < 2 ^ 31) (fits : x.length < 2 ^ 32) (room : argc < intMax) :
    sdsnsplitargsLoop (fuel + 1) (endAt bounded line.length) line argc =
      (sdsnsplitargsLoop fuel (endAt bounded (line.length - n)) (line.drop n) (argc + 1)).map
        (Option.map (x :: ·)) := by
  have value := toInt_ofNat_of_lt small
  have nonzero : Int32.ofNat n ≠ 0 := by
    intro zero
    have := congrArg Int32.toInt zero
    rw [value, Int32.toInt_zero] at this
    omega
  have positive : 0 < Int32.ofNat n := Int32.lt_iff_toInt_lt.mpr (by rw [value, Int32.toInt_zero]; omega)
  have started : ¬(line.length ≤ 0) := by
    cases line with
    | nil => simp at quote
    | cons c rest => simp
  have fitting : ¬(2 ^ 32 ≤ x.length) := by omega
  have counted : argc ≠ intMax := by omega
  simp only [sdsnsplitargsLoop, skipBlanks_of_quote _ quote, quote, isPtrExceedingEnd_endAt, started,
    parse, nonzero, fitting, positive, counted, endAt_map_sub, value]
  simp

theorem charAt_sdscatrepr (x sep : List UInt8) : charAt (sdscatrepr [] x ++ sep) 0 = 34 := by
  rw [sdscatrepr_nil_append, charAt_cons_zero]

theorem sdsnsplitargsLoop_sdscatrepr (bounded : Bool) :
    ∀ (xs : List (List UInt8)) (fuel argc : Nat),
      (∀ x ∈ xs, (sdscatrepr [] x).length < intMax) → argc + xs.length ≤ intMax →
      ([32].intercalate (xs.map (sdscatrepr []))).length < fuel →
      sdsnsplitargsLoop fuel (endAt bounded ([32].intercalate (xs.map (sdscatrepr []))).length)
        ([32].intercalate (xs.map (sdscatrepr []))) argc = some (some xs)
  | [], fuel + 1, argc, _, _, _ => by simp [sdsnsplitargsLoop, skipBlanks]
  | [x], fuel + 1, argc, short, room, enough => by
    have size := length_sdscatrepr_nil x
    have long := length_le_flatMap_reprByte x
    have shortX := short x (by simp)
    have quote : charAt (sdscatrepr [] x) 0 = 34 := by simpa using charAt_sdscatrepr x []
    simp only [List.map_cons, List.map_nil, List.intercalate_singleton] at enough ⊢
    rw [sdsnsplitargsLoop_token bounded fuel argc quote
      (sdsparsearg_sdscatrepr_end bounded x) (by omega) (by unfold intMax at shortX; omega)
      (by unfold intMax at shortX; omega) (by simp at room; omega)]
    obtain ⟨fuel, rfl⟩ : ∃ rest, fuel = rest + 1 := ⟨fuel - 1, by omega⟩
    simp [sdsnsplitargsLoop, skipBlanks]
  | x :: y :: rest, fuel + 1, argc, short, room, enough => by
    have size := length_sdscatrepr_nil x
    have long := length_le_flatMap_reprByte x
    have shortX := short x (by simp)
    have line : [32].intercalate ((x :: y :: rest).map (sdscatrepr [])) =
        sdscatrepr [] x ++ 32 :: [32].intercalate ((y :: rest).map (sdscatrepr [])) := by
      simp [List.intercalate_cons_cons]
    rw [line] at enough ⊢
    rw [sdsnsplitargsLoop_token bounded fuel argc (charAt_sdscatrepr x _)
      (sdsparsearg_sdscatrepr_blank bounded x _) (by omega) (by unfold intMax at shortX; omega)
      (by unfold intMax at shortX; omega) (by simp at room; omega)]
    have after : (sdscatrepr [] x ++ 32 :: [32].intercalate ((y :: rest).map (sdscatrepr []))).drop
        ((sdscatrepr [] x).length + 1) = [32].intercalate ((y :: rest).map (sdscatrepr [])) := by
      simp
    have left : (sdscatrepr [] x ++ 32 :: [32].intercalate ((y :: rest).map (sdscatrepr []))).length -
        ((sdscatrepr [] x).length + 1) = ([32].intercalate ((y :: rest).map (sdscatrepr []))).length := by
      simp only [List.length_append, List.length_cons]
      omega
    rw [after, left, sdsnsplitargsLoop_sdscatrepr bounded (y :: rest) fuel (argc + 1)
      (fun z mem => short z (List.mem_cons_of_mem x mem)) (by simp at room ⊢; omega)
      (by simp only [List.length_append, List.length_cons] at enough; omega)]
    rfl

/-- Strings quoted by sdscatrepr and joined by single spaces split back into the same strings,
by sdssplitargs and by sdsnsplitargs given the line's length, as long as every quoted string
with its space fits sdsparsearg's int and argc counts them in an int. -/
theorem sdssplitargs_sdscatrepr (xs : List (List UInt8))
    (short : ∀ x ∈ xs, (sdscatrepr [] x).length < intMax) (few : xs.length ≤ intMax) :
    sdssplitargs ([32].intercalate (xs.map (sdscatrepr []))) = some (some xs) ∧
      sdsnsplitargs ([32].intercalate (xs.map (sdscatrepr [])))
        ([32].intercalate (xs.map (sdscatrepr []))).length = some (some xs) :=
  ⟨sdsnsplitargsLoop_sdscatrepr false xs _ 0 short (by omega) (by omega),
    sdsnsplitargsLoop_sdscatrepr true xs _ 0 short (by omega) (by omega)⟩

theorem sdssplitargs_sdscatrepr_escapes :
    (∀ x ∈ [[0, 34, 92, 255, 10], [], [92, 120, 52, 49, 32]], (sdscatrepr [] x).length < intMax) ∧
      [[0, 34, 92, 255, 10], [], [92, 120, 52, 49, 32]].length ≤ intMax ∧
      (sdssplitargs ([32].intercalate ([[0, 34, 92, 255, 10], [], [92, 120, 52, 49, 32]].map
          (sdscatrepr []))) = some (some [[0, 34, 92, 255, 10], [], [92, 120, 52, 49, 32]]) ∧
        sdsnsplitargs ([32].intercalate ([[0, 34, 92, 255, 10], [], [92, 120, 52, 49, 32]].map
            (sdscatrepr [])))
          ([32].intercalate ([[0, 34, 92, 255, 10], [], [92, 120, 52, 49, 32]].map
            (sdscatrepr []))).length = some (some [[0, 34, 92, 255, 10], [], [92, 120, 52, 49, 32]])) :=
  ⟨by decide, by decide, sdssplitargs_sdscatrepr _ (by decide) (by decide)⟩

theorem toInt_ofNat_of_ge {n : Nat} (large : 2 ^ 31 ≤ n) (small : n < 2 ^ 32) :
    (Int32.ofNat n).toInt = n - ((2 ^ 32 : Nat) : Int) := by
  rw [Int32.toInt_ofNat', Int.bmod_def, Int.emod_eq_of_lt (by omega) (by simp only [Int32.size]; omega),
    if_neg (by simp only [Int32.size]; omega)]
  rfl

/-- A string that sdscatrepr quotes into 2^31 bytes or more, below 2^32: sdsparsearg's int
comes back negative, and the assertion on it fails. -/
theorem sdssplitargs_sdscatrepr_negative {x : List UInt8} (large : 2 ^ 31 ≤ (sdscatrepr [] x).length)
    (small : (sdscatrepr [] x).length < 2 ^ 32) :
    sdssplitargs (sdscatrepr [] x) = none := by
  have long := length_le_flatMap_reprByte x
  have size := length_sdscatrepr_nil x
  have value := toInt_ofNat_of_ge large small
  have nonzero : Int32.ofNat (sdscatrepr [] x).length ≠ 0 := by
    intro zero
    have := congrArg Int32.toInt zero
    rw [value, Int32.toInt_zero] at this
    omega
  have negative : ¬(0 < Int32.ofNat (sdscatrepr [] x).length) := by
    rw [Int32.lt_iff_toInt_lt, value, Int32.toInt_zero]
    omega
  have quote : charAt (sdscatrepr [] x) 0 = 34 := by simpa using charAt_sdscatrepr x []
  have parse := sdsparsearg_sdscatrepr_end false x
  simp only [endAt, Bool.false_eq_true, if_false] at parse
  simp only [sdssplitargs, sdsnsplitargsInternal, sdsnsplitargsLoop, skipBlanks_of_quote _ quote,
    quote, parse]
  -- the buffer check and the assertion both fault
  simp [isPtrExceedingEnd, nonzero, negative]

theorem flatMap_reprByte_replicate (n : Nat) :
    (List.replicate n (97 : UInt8)).flatMap reprByte = List.replicate n 97 := by
  induction n with
  | zero => rfl
  | succ n ih => rw [List.replicate_succ, List.flatMap_cons, ih]; rfl

theorem sdssplitargs_sdscatrepr_intMin :
    sdssplitargs (sdscatrepr [] (List.replicate (2 ^ 31 - 2) 97)) = none := by
  have size : (sdscatrepr [] (List.replicate (2 ^ 31 - 2) 97)).length = 2 ^ 31 := by
    rw [length_sdscatrepr_nil, flatMap_reprByte_replicate, List.length_replicate]
    omega
  exact sdssplitargs_sdscatrepr_negative (Nat.le_of_eq size.symm) (by rw [size]; decide)

end Kv.Sds.Repr
