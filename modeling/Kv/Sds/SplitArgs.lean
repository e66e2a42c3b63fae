import Mathlib.Data.List.Basic

/-!
Argument splitting of sds.c. `sdsparsearg` reads one argument of a line in the
REPL-like form (`foo "a\x20b" 'c'`): outside quotes a blank ends it, inside
double quotes backslash and hex escapes are decoded, inside single quotes only
an escaped single quote is; a quote left open fails. `sdssplitargs` skips the
blanks between arguments and collects them, or fails when one does. A line is
the characters of the C string, each standing for one byte; a NUL character
ends it, as the terminator does.
-/

namespace Kv.Sds

def isspace (c : Char) : Bool :=
  c == ' ' || c == '\t' || c == '\n' || c == '\x0b' || c == '\x0c' || c == '\r'

def isHexDigit (c : Char) : Bool :=
  ('0' ≤ c && c ≤ '9') || ('a' ≤ c && c ≤ 'f') || ('A' ≤ c && c ≤ 'F')

def hexDigitToInt (c : Char) : Nat :=
  if '0' ≤ c && c ≤ '9' then c.toNat - '0'.toNat
  else if 'a' ≤ c && c ≤ 'f' then c.toNat - 'a'.toNat + 10
  else if 'A' ≤ c && c ≤ 'F' then c.toNat - 'A'.toNat + 10
  else 0

def singleQuote : Char := Char.ofNat 39

def unescape (c : Char) : Char :=
  if c = 'n' then '\n'
  else if c = 'r' then '\r'
  else if c = 't' then '\t'
  else if c = 'b' then '\x08'
  else if c = 'a' then '\x07'
  else c

def endsArg (c : Char) : Bool :=
  c == ' ' || c == '\n' || c == '\r' || c == '\t'

inductive Quote where
  | none
  | double
  | single
  deriving DecidableEq, Repr

def pushArg (c : Char) : Option (List Char × List Char) → Option (List Char × List Char) :=
  Option.map fun read => (c :: read.1, read.2)

/-- `sdsparsearg` with no end pointer: the argument at the start of the line
and the rest of the line after it, or nothing when a quote is left open. -/
def sdsparsearg : Quote → List Char → Option (List Char × List Char)
  | .none, [] => some ([], [])
  | .none, c :: rest =>
    -- the terminator is not consumed, a blank is
    if c = '\x00' then some ([], c :: rest)
    else if endsArg c then some ([], rest)
    else if c = '"' then sdsparsearg .double rest
    else if c = singleQuote then sdsparsearg .single rest
    else pushArg c (sdsparsearg .none rest)
  | .double, [] => none
  | .double, '\\' :: 'x' :: h :: l :: more =>
    if isHexDigit h && isHexDigit l then
      pushArg (Char.ofNat (hexDigitToInt h * 16 + hexDigitToInt l)) (sdsparsearg .double more)
    else pushArg 'x' (sdsparsearg .double (h :: l :: more))
  | .double, '\\' :: e :: more =>
    -- a backslash before the terminator is an ordinary character
    if e = '\x00' then pushArg '\\' (sdsparsearg .double (e :: more))
    else pushArg (unescape e) (sdsparsearg .double more)
  | .double, c :: rest =>
    if c = '\x00' then none
    else if c = '"' then sdsparsearg .none rest
    else pushArg c (sdsparsearg .double rest)
  | .single, [] => none
  | .single, '\\' :: q :: more =>
    if q = singleQuote then pushArg singleQuote (sdsparsearg .single more)
    else pushArg '\\' (sdsparsearg .single (q :: more))
  | .single, c :: rest =>
    if c = '\x00' then none
    else if c = singleQuote then sdsparsearg .none rest
    else pushArg c (sdsparsearg .single rest)

theorem sdsparsearg_none_cons (c : Char) (rest : List Char) :
    sdsparsearg .none (c :: rest) =
      if c = '\x00' then some ([], c :: rest)
      else if endsArg c then some ([], rest)
      else if c = '"' then sdsparsearg .double rest
      else if c = singleQuote then sdsparsearg .single rest
      else pushArg c (sdsparsearg .none rest) := by
  rw [sdsparsearg]

@[simp] theorem pushArg_eq_some {c : Char} {read : Option (List Char × List Char)} {arg after : List Char} :
    pushArg c read = some (arg, after) ↔ ∃ tail, read = some (tail, after) ∧ arg = c :: tail := by
  cases read with
  | none => simp [pushArg]
  | some r =>
    obtain ⟨tail, rest⟩ := r
    simp only [pushArg, Option.map_some, Option.some.injEq, Prod.mk.injEq]
    grind

theorem sdsparsearg_suffix {q : Quote} {line arg after : List Char}
    (parsed : sdsparsearg q line = some (arg, after)) : after <:+ line := by
  -- each branch drops what it read in front of the rest it recurses on
  fun_induction sdsparsearg q line generalizing arg after <;>
    grind [pushArg_eq_some, List.suffix_cons, List.IsSuffix.trans]

theorem sdsparsearg_rest_lt {c : Char} {rest arg after : List Char} (notEnd : c ≠ '\x00')
    (notBlank : endsArg c = false) (parsed : sdsparsearg .none (c :: rest) = some (arg, after)) :
    after.length < (c :: rest).length := by
  simp only [sdsparsearg_none_cons, if_neg notEnd, notBlank, Bool.false_eq_true, if_false] at parsed
  have shorter : ∀ {q arg}, sdsparsearg q rest = some (arg, after) → after.length < (c :: rest).length :=
    fun read => Nat.lt_succ_of_le (sdsparsearg_suffix read).length_le
  split_ifs at parsed
  · exact shorter parsed
  · exact shorter parsed
  · obtain ⟨_, read, -⟩ := pushArg_eq_some.mp parsed
    exact shorter read

/-- `sdssplitargs`: the arguments of a line, or nothing when one of them
leaves a quote open. The loop skips blanks one at a time, stops at the
terminator, and otherwise reads an argument. -/
def sdssplitargs : List Char → Option (List (List Char))
  | [] => some []
  | c :: rest =>
    if isspace c then sdssplitargs rest
    else if _notEnd : c = '\x00' then some []
    else
      match _parsed : sdsparsearg .none (c :: rest) with
      | none => none
      | some (arg, after) => (sdssplitargs after).map (arg :: ·)
termination_by line => line.length
decreasing_by
  · simp
  · have notBlank : endsArg c = false := by
      revert ‹¬isspace c = true›
      simp only [isspace, endsArg]
      grind
    exact sdsparsearg_rest_lt _notEnd notBlank _parsed

section Equations

variable {c : Char} {rest arg after : List Char}

theorem sdssplitargs_nil : sdssplitargs [] = some [] := by
  rw [sdssplitargs]

theorem sdssplitargs_cons (c : Char) (rest : List Char) :
    sdssplitargs (c :: rest) =
      if isspace c then sdssplitargs rest
      else if c = '\x00' then some []
      else (sdsparsearg .none (c :: rest)).bind fun read => (sdssplitargs read.2).map (read.1 :: ·) := by
  rw [sdssplitargs]
  split_ifs
  · rfl
  · rfl
  · split <;> simp_all

theorem sdssplitargs_blank (blank : isspace c = true) : sdssplitargs (c :: rest) = sdssplitargs rest := by
  rw [sdssplitargs_cons, if_pos blank]

theorem sdssplitargs_arg (notSpace : isspace c = false) (notEnd : c ≠ '\x00')
    (parsed : sdsparsearg .none (c :: rest) = some (arg, after)) :
    sdssplitargs (c :: rest) = (sdssplitargs after).map (arg :: ·) := by
  rw [sdssplitargs_cons, if_neg (by simp [notSpace]), if_neg notEnd, parsed]
  rfl

theorem sdssplitargs_unbalanced (notSpace : isspace c = false) (notEnd : c ≠ '\x00')
    (parsed : sdsparsearg .none (c :: rest) = none) : sdssplitargs (c :: rest) = none := by
  rw [sdssplitargs_cons, if_neg (by simp [notSpace]), if_neg notEnd, parsed]
  rfl

end Equations

section Plain

def plainChar (c : Char) : Bool :=
  !isspace c && c != '"' && c != singleQuote && c != '\x00'

def PlainWord (w : List Char) : Prop :=
  w ≠ [] ∧ ∀ c ∈ w, plainChar c = true

theorem plainChar_iff {c : Char} :
    plainChar c = true ↔ isspace c = false ∧ c ≠ '"' ∧ c ≠ singleQuote ∧ c ≠ '\x00' := by
  simp only [plainChar, Bool.and_eq_true, Bool.not_eq_true', bne_iff_ne, ne_eq, and_assoc]

theorem endsArg_eq_false_of_plainChar {c : Char} (plain : plainChar c = true) : endsArg c = false := by
  have notSpace := (plainChar_iff.mp plain).1
  revert notSpace
  simp only [isspace, endsArg]
  grind

theorem sdsparsearg_plain {w : List Char} (tail : List Char) (plain : ∀ c ∈ w, plainChar c = true) :
    sdsparsearg .none (w ++ tail) = (sdsparsearg .none tail).map fun read => (w ++ read.1, read.2) := by
  induction w with
  | nil => simp
  | cons c w ih =>
    have cPlain := plain c List.mem_cons_self
    obtain ⟨-, notDouble, notSingle, notEnd⟩ := plainChar_iff.mp cPlain
    rw [List.cons_append, sdsparsearg_none_cons, if_neg notEnd, if_neg (by simp [endsArg_eq_false_of_plainChar cPlain]),
      if_neg notDouble, if_neg notSingle, ih fun d mem => plain d (List.mem_cons_of_mem c mem)]
    simp [pushArg, Option.map_map, Function.comp_def]

theorem sdssplitargs_word_append {w tail after : List Char} (plain : PlainWord w)
    (ends : sdsparsearg .none tail = some ([], after)) :
    sdssplitargs (w ++ tail) = (sdssplitargs after).map (w :: ·) := by
  obtain ⟨nonempty, chars⟩ := plain
  obtain ⟨c, word, rfl⟩ := List.exists_cons_of_ne_nil nonempty
  obtain ⟨notSpace, -, -, notEnd⟩ := plainChar_iff.mp (chars c List.mem_cons_self)
  apply sdssplitargs_arg notSpace notEnd
  show sdsparsearg .none ((c :: word) ++ tail) = _
  rw [sdsparsearg_plain tail chars, ends]
  simp

theorem sdsparsearg_space (rest : List Char) : sdsparsearg .none (' ' :: rest) = some ([], rest) := by
  rw [sdsparsearg_none_cons]
  simp [endsArg]

theorem sdssplitargs_intercalate {ws : List (List Char)} (plain : ∀ w ∈ ws, PlainWord w) :
    sdssplitargs ([' '].intercalate ws) = some ws := by
  induction ws with
  | nil => rw [List.intercalate_nil, sdssplitargs_nil]
  | cons w ws ih =>
    have wPlain := plain w List.mem_cons_self
    have rest := ih fun v mem => plain v (List.mem_cons_of_mem w mem)
    cases ws with
    | nil =>
      have := sdssplitargs_word_append wPlain (show sdsparsearg .none [] = some ([], []) from rfl)
      simpa [sdssplitargs_nil] using this
    | cons v vs =>
      rw [List.intercalate_cons_cons, List.append_assoc, List.singleton_append,
        sdssplitargs_word_append wPlain (sdsparsearg_space _), rest]
      rfl

end Plain

end Kv.Sds
