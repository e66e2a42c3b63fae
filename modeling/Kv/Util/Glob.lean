import Kv.Foundations.Glob
import Mathlib.Data.List.TakeWhile

/-!
The glob matcher of util.c. `stringmatchlen_impl` walks the pattern and the
string together: `?`, a bracket class, an escaped byte or a plain byte each take
one byte of the string; at a `*` the run of stars is skipped and the rest of the
pattern is tried, by a recursive call one level deeper, against the string and
each of its suffixes. The flag `skipLongerMatches`, shared by every level, is
set when such a loop runs out of string, and every enclosing loop then gives up
at once. A level deeper than 1000 fails.
-/

namespace Kv.Util

open Foundations GlobToken

def charOf (b : UInt8) : Int := if b.toNat < 128 then b.toNat else (b.toNat : Int) - 256

def tolower (c : Int) : Int := if 65 ≤ c ∧ c ≤ 90 then c + 32 else c

def byteMatches (nocase : Bool) (p c : UInt8) : Bool :=
  if nocase then tolower (charOf p) == tolower (charOf c) else p == c

def inRange (nocase : Bool) (a b c : UInt8) : Bool :=
  let (start, stop) := if charOf a > charOf b then (charOf b, charOf a) else (charOf a, charOf b)
  if nocase then tolower start ≤ tolower (charOf c) && tolower (charOf c) ≤ tolower stop
  else start ≤ charOf c && charOf c ≤ stop

def matchClass (nocase : Bool) (c : UInt8) : List UInt8 → Bool → Bool × List UInt8
  | [], m => (m, [])
  -- a backslash with a byte after it: that byte, compared exactly
  | 92 :: e :: p, m => matchClass nocase c p (m || e == c)
  | 93 :: p, m => (m, p)
  | a :: 45 :: b :: p, m => matchClass nocase c p (m || inRange nocase a b c)
  | a :: p, m => matchClass nocase c p (m || byteMatches nocase a c)

def classNegation : List UInt8 → Bool × List UInt8
  | 94 :: q => (true, q)
  | q => (false, q)

def matchOne (nocase : Bool) (c : UInt8) : List UInt8 → Option (List UInt8)
  | [] => none
  | 63 :: p => some p
  | 91 :: p =>
    let q := classNegation p
    let scan := matchClass nocase c q.2 false
    if q.1 != scan.1 then some scan.2 else none
  | 92 :: e :: p => if byteMatches nocase e c then some p else none
  | b :: p => if byteMatches nocase b c then some p else none

def starLoop (attempt : List UInt8 → Bool → Bool × Bool) : List UInt8 → Bool → Bool × Bool
  | [], _ => (false, true)
  | s@(_ :: rest), skip =>
    match attempt s skip with
    | (true, skip) => (true, skip)
    | (false, skip) => if skip then (false, skip) else starLoop attempt rest skip

section Suffixes

variable {nocase : Bool} {c : UInt8}

theorem matchClass_suffix (p : List UInt8) (m : Bool) : (matchClass nocase c p m).2 <:+ p := by
  fun_induction matchClass nocase c p m with
  | case1 m => exact List.suffix_rfl
  | case2 e p m ih => exact ih.trans (List.suffix_append [92, e] p)
  | case3 p m => exact List.suffix_cons _ _
  | case4 a b p m _ _ ih => exact ih.trans (List.suffix_append [a, 45, b] p)
  | case5 a p m _ _ _ ih => exact ih.trans (List.suffix_cons a p)

theorem classNegation_suffix (p : List UInt8) : (classNegation p).2 <:+ p := by
  unfold classNegation
  split
  · exact List.suffix_cons _ _
  · exact List.suffix_rfl

theorem matchOne_suffix {p p' : List UInt8} (h : matchOne nocase c p = some p') : p' <:+ p.tail := by
  unfold matchOne at h
  split at h
  · cases h
  · cases h
    exact List.suffix_rfl
  · next p =>
    simp only [Option.ite_none_right_eq_some, Option.some.injEq] at h
    obtain ⟨-, rfl⟩ := h
    exact (matchClass_suffix _ false).trans (classNegation_suffix p)
  all_goals
    simp only [Option.ite_none_right_eq_some, Option.some.injEq] at h
    obtain ⟨-, rfl⟩ := h
    simp

theorem matchOne_length_lt {p p' : List UInt8} (h : matchOne nocase c p = some p') :
    p'.length < p.length := by
  have shorter := (matchOne_suffix h).length_le
  cases p with
  | nil => simp [matchOne] at h
  | cons b p =>
    simp only [List.tail_cons] at shorter
    simp only [List.length_cons]
    omega

end Suffixes

def matchLoop (pattern string : List UInt8) (nocase skip : Bool) (nesting : Nat) : Bool × Bool :=
  match pattern, string with
  | [], s => (s.isEmpty, skip)
  | _ :: _, [] => (false, skip)
  | 42 :: p, s@(_ :: _) =>
    let rest := p.dropWhile (· == 42)
    if rest.isEmpty then (true, skip)
    else
      -- the call one level deeper, with the check of depth it starts with
      starLoop (fun s skip =>
        if 1000 < nesting + 1 then (false, skip) else matchLoop rest s nocase skip (nesting + 1)) s skip
  | b :: p, c :: s =>
    match next : matchOne nocase c (b :: p) with
    | none => (false, skip)
    | some p' =>
      if s.isEmpty then ((p'.dropWhile (· == 42)).isEmpty, skip)
      else matchLoop p' s nocase skip nesting
termination_by pattern.length
decreasing_by
  · simp only [List.length_cons]
    have := (List.dropWhile_suffix (· == (42 : UInt8)) (l := p)).length_le
    omega
  · exact matchOne_length_lt next

/-- `stringmatchlen_impl`: a level deeper than 1000 fails. -/
def stringmatchlenImpl (pattern string : List UInt8) (nocase skip : Bool) (nesting : Nat) : Bool × Bool :=
  if 1000 < nesting then (false, skip) else matchLoop pattern string nocase skip nesting

def stringmatchlen (pattern string : List UInt8) (nocase : Bool) : Bool :=
  (stringmatchlenImpl pattern string nocase false 0).1

/-! The language of a pattern. -/

inductive ClassItem where
  | escaped (b : UInt8)
  | range (a b : UInt8)
  | single (b : UInt8)

def ClassItem.accepts (nocase : Bool) (c : UInt8) : ClassItem → Bool
  | escaped b => b == c
  | range a b => inRange nocase a b c
  | single b => byteMatches nocase b c

def classItems : List UInt8 → List ClassItem × List UInt8
  | [] => ([], [])
  | 92 :: e :: p => (.escaped e :: (classItems p).1, (classItems p).2)
  | 93 :: p => ([], p)
  | a :: 45 :: b :: p => (.range a b :: (classItems p).1, (classItems p).2)
  | a :: p => (.single a :: (classItems p).1, (classItems p).2)

theorem classItems_suffix (p : List UInt8) : (classItems p).2 <:+ p := by
  fun_induction classItems p with
  | case1 => exact List.suffix_rfl
  | case2 e p ih => exact ih.trans (List.suffix_append [92, e] p)
  | case3 p => exact List.suffix_cons _ _
  | case4 a b p _ _ ih => exact ih.trans (List.suffix_append [a, 45, b] p)
  | case5 a p _ _ _ ih => exact ih.trans (List.suffix_cons a p)

def globTokens (nocase : Bool) : List UInt8 → List (GlobToken UInt8)
  | [] => []
  | 42 :: p => star :: globTokens nocase p
  | 63 :: p => one (fun _ => true) :: globTokens nocase p
  | 91 :: p =>
    let q := classNegation p
    one (fun c => q.1 != (classItems q.2).1.any (ClassItem.accepts nocase c)) ::
      globTokens nocase (classItems q.2).2
  | 92 :: e :: p => one (byteMatches nocase e) :: globTokens nocase p
  | b :: p => one (byteMatches nocase b) :: globTokens nocase p
termination_by p => p.length
decreasing_by
  all_goals simp only [List.length_cons]
  -- a class ends within the pattern after its bracket; every other token is one or two bytes
  all_goals first
    | omega
    | have := ((classItems_suffix _).trans (classNegation_suffix p)).length_le
      omega

theorem matchClass_eq (nocase : Bool) (c : UInt8) (p : List UInt8) (m : Bool) :
    matchClass nocase c p m = (m || (classItems p).1.any (ClassItem.accepts nocase c), (classItems p).2) := by
  fun_induction matchClass nocase c p m with
  | case1 m => simp [classItems]
  | case2 e p m ih => simp [ih, classItems, ClassItem.accepts, Bool.or_assoc]
  | case3 p m => simp [classItems]
  | case4 a b p m notEscape notClose ih =>
    rw [ih, classItems]
    · simp [ClassItem.accepts, Bool.or_assoc]
    · exact notEscape
    · exact notClose
  | case5 a p m notEscape notClose notRange ih =>
    rw [ih, classItems]
    · simp [ClassItem.accepts, Bool.or_assoc]
    · exact notEscape
    · exact notClose
    · exact notRange

theorem matchOne_token (nocase : Bool) {b : UInt8} (p : List UInt8) (notStar : b ≠ 42) :
    ∃ accepts p', globTokens nocase (b :: p) = one accepts :: globTokens nocase p' ∧
      ∀ c, matchOne nocase c (b :: p) = if accepts c then some p' else none := by
  by_cases any : b = 63
  · subst any
    exact ⟨fun _ => true, p, by rw [globTokens], fun c => by simp [matchOne]⟩
  by_cases bracket : b = 91
  · subst bracket
    refine ⟨fun c => (classNegation p).1 != (classItems (classNegation p).2).1.any (ClassItem.accepts nocase c),
      (classItems (classNegation p).2).2, by rw [globTokens], fun c => ?_⟩
    simp only [matchOne, matchClass_eq, Bool.false_or]
  by_cases escape : b = 92
  · subst escape
    cases p with
    | nil =>
      refine ⟨byteMatches nocase 92, [], ?_, fun c => ?_⟩
      · simp [globTokens]
      · rw [matchOne]
        all_goals simp
    | cons e p =>
      refine ⟨byteMatches nocase e, p, by rw [globTokens], fun c => by rw [matchOne]⟩
  · refine ⟨byteMatches nocase b, p, ?_, fun c => ?_⟩
    · rw [globTokens]
      all_goals simp_all
    · rw [matchOne]
      all_goals simp_all

theorem globMatches_star_dropWhile (nocase : Bool) (p s : List UInt8) :
    GlobMatches (star :: globTokens nocase p) s ↔
      GlobMatches (star :: globTokens nocase (p.dropWhile (· == 42))) s := by
  induction p with
  | nil => rfl
  | cons b p ih =>
    by_cases b42 : b = 42
    · subst b42
      rw [globTokens, globMatches_star_star, ih, List.dropWhile_cons_of_pos (by decide)]
    · rw [List.dropWhile_cons_of_neg (by simpa using b42)]

theorem globMatches_globTokens_nil (nocase : Bool) (p : List UInt8) :
    GlobMatches (globTokens nocase p) [] ↔ ∀ b ∈ p, b = 42 := by
  induction p with
  | nil => simp [globTokens]
  | cons b p ih =>
    by_cases b42 : b = 42
    · subst b42
      rw [globTokens, globMatches_star_nil, ih]
      simp
    · obtain ⟨accepts, p', tokens, -⟩ := matchOne_token nocase p b42
      simp [tokens, b42]

def Decides (M : List UInt8 → Prop) (s : List UInt8) (r : Bool × Bool) : Prop :=
  (r.1 = true ↔ M s) ∧ (r.2 = true → ∀ u, u <:+ s → ¬ M u)

theorem Decides.one {ts : List (GlobToken UInt8)} {accepts : UInt8 → Bool} {c : UInt8} {s : List UInt8}
    {r : Bool × Bool} (accepted : accepts c = true) (rest : Decides (GlobMatches ts) s r) :
    Decides (GlobMatches (one accepts :: ts)) (c :: s) r := by
  refine ⟨?_, fun flag => not_globMatches_one_of_suffixes (rest.2 flag)⟩
  rw [rest.1, globMatches_one_cons]
  simp [accepted]

theorem starLoop_spec {ts : List (GlobToken UInt8)} {attempt : List UInt8 → Bool → Bool × Bool}
    (s : List UInt8) (calls : ∀ u, u <:+ s → u ≠ [] → Decides (GlobMatches ts) u (attempt u false))
    (empty : ¬ GlobMatches ts []) :
    Decides (GlobMatches (star :: ts)) s (starLoop attempt s false) := by
  induction s with
  | nil =>
    -- the loop ran out of string: the flag is set
    refine ⟨by simp [starLoop, globMatches_star_nil, empty], fun _ u suffix => ?_⟩
    rw [List.suffix_nil.mp suffix, globMatches_star_nil]
    exact empty
  | cons c t ih =>
    have here := calls (c :: t) List.suffix_rfl (List.cons_ne_nil c t)
    have later := ih fun u suffix nonempty => calls u (suffix.trans (List.suffix_cons c t)) nonempty
    rw [starLoop]
    generalize attempt (c :: t) false = r at here ⊢
    obtain ⟨result, flag⟩ := r
    cases result with
    | true =>
      -- a match here: the flag cannot have been set
      have matched : GlobMatches ts (c :: t) := here.1.mp rfl
      refine ⟨by simp [globMatches_star_cons, matched], fun set => ?_⟩
      exact absurd matched (here.2 set _ List.suffix_rfl)
    | false =>
      cases flag with
      | true =>
        have none := not_globMatches_star_of_suffixes (here.2 rfl)
        exact ⟨by simpa using none _ List.suffix_rfl, fun _ => none⟩
      | false =>
        have miss : ¬ GlobMatches ts (c :: t) := fun matched => by simpa using here.1.mpr matched
        refine ⟨by simp [later.1, globMatches_star_cons, miss], fun set u suffix => ?_⟩
        rcases List.suffix_cons_iff.mp suffix with rfl | shorter
        · rw [globMatches_star_cons]
          exact fun matched => matched.elim miss (later.2 set _ List.suffix_rfl)
        · exact later.2 set u shorter

theorem matchLoop_spec (nocase : Bool) (p s : List UInt8) (nesting : Nat) (nonempty : s ≠ [])
    (deep : nesting + p.count 42 ≤ 1000) :
    Decides (GlobMatches (globTokens nocase p)) s (matchLoop p s nocase false nesting) := by
  induction h : p.length using Nat.strong_induction_on generalizing p s nesting with
  | _ n ih =>
  obtain ⟨c, t, rfl⟩ := List.exists_cons_of_ne_nil nonempty
  cases p with
  | nil =>
    rw [matchLoop]
    simp [Decides, globTokens]
  | cons b q =>
    by_cases b42 : b = 42
    · subst b42
      have tokens : globTokens nocase (42 :: q) = star :: globTokens nocase q := by rw [globTokens]
      have collapse : GlobMatches (star :: globTokens nocase q) =
          GlobMatches (star :: globTokens nocase (q.dropWhile (· == 42))) :=
        funext fun u => propext (globMatches_star_dropWhile nocase q u)
      rw [tokens, collapse, matchLoop]
      have shorter := (List.dropWhile_suffix (· == (42 : UInt8)) (l := q)).length_le
      have fewer := (List.dropWhile_suffix (· == (42 : UInt8)) (l := q)).sublist.count_le 42
      simp only [List.count_cons_self] at deep
      split
      · next ends =>
        -- the stars end the pattern: it matches every string
        rw [List.isEmpty_iff.mp ends, globTokens]
        exact ⟨iff_of_true rfl (globMatches_star_iff.mpr ⟨[], List.nil_suffix, .nil⟩), by simp⟩
      · next more =>
        have remains : q.dropWhile (· == 42) ≠ [] := fun none => more (List.isEmpty_iff.mpr none)
        obtain ⟨r, rs, after⟩ := List.exists_cons_of_ne_nil remains
        have notStar : r ≠ 42 := by
          have := List.head_dropWhile_not (· == (42 : UInt8)) remains
          simpa [after] using this
        apply starLoop_spec
        · intro u _ nonempty
          rw [if_neg (by omega)]
          exact ih _ (by simp only [List.length_cons] at h; omega) _ u (nesting + 1) nonempty (by omega) rfl
        · obtain ⟨accepts, p', tokens', -⟩ := matchOne_token nocase rs notStar
          rw [after, tokens']
          exact not_globMatches_one_nil
    · obtain ⟨accepts, p', tokens, step⟩ := matchOne_token nocase q b42
      rw [tokens, matchLoop]
      · split
        · next rejected =>
          rw [step] at rejected
          have refused : accepts c = false := by simpa using rejected
          exact ⟨by simp [refused], by simp⟩
        · next p'' found =>
          rw [step] at found
          obtain ⟨accepted, rfl⟩ : accepts c = true ∧ p' = p'' := by simpa using found
          split
          · next last =>
            rw [List.isEmpty_iff.mp last]
            refine ⟨?_, by simp⟩
            rw [globMatches_one_cons, globMatches_globTokens_nil]
            simp [accepted, List.dropWhile_eq_nil_iff]
          · next more =>
            have suffix : p' <:+ q := by simpa using matchOne_suffix ((step c).trans (if_pos accepted))
            have shorter := suffix.length_le
            have fewer := suffix.sublist.count_le 42
            have fewer' : q.count 42 ≤ (b :: q).count 42 := List.count_le_count_cons
            apply Decides.one accepted
            exact ih _ (by simp only [List.length_cons] at h; omega) _ t nesting (by simpa using more)
              (by omega) rfl
      · exact b42

/-- On a nonempty string the matcher decides the language of the pattern, for
every pattern with at most 1000 stars: no level reaches the depth limit, and
the pruning by the shared flag never loses a match. -/
theorem stringmatchlen_correct (pattern string : List UInt8) (nocase : Bool)
    (few : pattern.count 42 ≤ 1000) (nonempty : string ≠ []) :
    stringmatchlen pattern string nocase = true ↔ GlobMatches (globTokens nocase pattern) string := by
  have spec := matchLoop_spec nocase pattern string 0 nonempty (by omega)
  unfold stringmatchlen stringmatchlenImpl
  rw [if_neg (by omega)]
  exact spec.1

theorem stringmatchlen_correct_star :
    ([97, 42, 99] : List UInt8).count 42 ≤ 1000 ∧ ([97, 98, 99] : List UInt8) ≠ [] ∧
      (stringmatchlen [97, 42, 99] [97, 98, 99] false = true ↔
        GlobMatches (globTokens false [97, 42, 99]) [97, 98, 99]) :=
  ⟨by decide, by decide, stringmatchlen_correct [97, 42, 99] [97, 98, 99] false (by decide) (by decide)⟩

theorem stringmatchlen_nil (pattern : List UInt8) (nocase : Bool) :
    stringmatchlen pattern [] nocase = pattern.isEmpty := by
  unfold stringmatchlen stringmatchlenImpl
  rw [if_neg (by omega)]
  cases pattern <;> rw [matchLoop]
  all_goals rfl

/-- A pattern of stars matches the empty string, and the matcher rejects it. -/
theorem stringmatchlen_stars_empty (pattern : List UInt8) (nocase : Bool) (nonempty : pattern ≠ [])
    (stars : ∀ b ∈ pattern, b = 42) :
    stringmatchlen pattern [] nocase = false ∧ GlobMatches (globTokens nocase pattern) [] := by
  refine ⟨?_, (globMatches_globTokens_nil nocase pattern).mpr stars⟩
  rw [stringmatchlen_nil]
  simpa using nonempty

theorem stringmatchlen_stars_empty_twoStars :
    ([42, 42] : List UInt8) ≠ [] ∧ (∀ b ∈ ([42, 42] : List UInt8), b = 42) ∧
      stringmatchlen [42, 42] [] false = false ∧ GlobMatches (globTokens false [42, 42]) [] :=
  ⟨by simp, by simp, stringmatchlen_stars_empty [42, 42] false (by simp) (by simp)⟩

theorem inRange_ascii {a b : UInt8} (c : UInt8) (lowA : a.toNat < 128) (lowB : b.toNat < 128) :
    inRange false a b c = decide (min a.toNat b.toNat ≤ c.toNat ∧ c.toNat ≤ max a.toNat b.toNat) := by
  have bounded := c.toNat_lt
  have signedA : charOf a = a.toNat := if_pos lowA
  have signedB : charOf b = b.toNat := if_pos lowB
  -- a byte from 0x80 up is negative, below both ends
  have signedC : charOf c = if c.toNat < 128 then (c.toNat : Int) else c.toNat - 256 := rfl
  unfold inRange
  rw [signedA, signedB, signedC]
  by_cases order : (a.toNat : Int) > b.toNat
  · rw [if_pos order]
    simp only [Bool.false_eq_true, if_false, ← Bool.decide_and, decide_eq_decide]
    split <;> omega
  · rw [if_neg order]
    simp only [Bool.false_eq_true, if_false, ← Bool.decide_and, decide_eq_decide]
    split <;> omega

end Kv.Util
