import Kv.Foundations.Binary64

/-!
The listpack encoding of a sorted set (t_zset.c): element and score entries in
pairs, ordered by score and then by element. A score is written as an integer
entry when `double2ll` accepts it, and otherwise as the text of `d2string`;
`zzlGetScore` reads it back.
-/

namespace Kv.Zset

open Foundations Binary64

def llongMax : Int := 9223372036854775807

def double2ll (d : Binary64) : Option Int :=
  if blt d (ofInt (-(llongMax / 2))) || blt (ofInt (llongMax / 2)) d then none
  else
    let ll := d.truncate
    if beq (ofInt ll) d then some ll else none

inductive ZzlScore where
  /-- What `lpAppendInteger` and `lpInsertInteger` store. -/
  | integer (value : Int)
  /-- The string `d2string` wrote, by the double it parses back to. -/
  | text (value : Binary64)
  deriving DecidableEq

def zzlScoreEntry (score : Binary64) : ZzlScore :=
  match double2ll score with
  | some lscore => .integer lscore
  | none => .text score

/-- `zzlGetScore`: an integer entry is converted to double, a string goes
through `zzlStrtod`. -/
def zzlGetScore : ZzlScore → Binary64
  | .integer vlong => ofInt vlong
  | .text score => score

structure ZzlEntry where
  ele : List Char
  score : ZzlScore
  deriving DecidableEq

def memcmpCommon : List Char → List Char → Int
  | c1 :: s1, c2 :: s2 => if c1 = c2 then memcmpCommon s1 s2 else (c1.toNat : Int) - c2.toNat
  | _, _ => 0

def sdscmp (s1 s2 : List Char) : Int :=
  let cmp := memcmpCommon s1 s2
  if cmp = 0 then (if s1.length > s2.length then 1 else if s1.length < s2.length then -1 else 0) else cmp

def zzlCompareElements (vstr cstr : List Char) : Int :=
  let cmp := memcmpCommon vstr cstr
  if cmp = 0 then (vstr.length : Int) - cstr.length else cmp

def zzlLength (zl : List ZzlEntry) : Nat :=
  zl.length

/-- `zzlFind`: the position of the element's pair, and its score. -/
def zzlFind : List ZzlEntry → List Char → Option (Nat × Binary64)
  | [], _ => none
  | entry :: rest, ele =>
    if entry.ele = ele then some (0, zzlGetScore entry.score)
    else (zzlFind rest ele).map fun (eptr, score) => (eptr + 1, score)

/-- `zzlDelete`: the pair at the position is removed. -/
def zzlDelete (zl : List ZzlEntry) (eptr : Nat) : List ZzlEntry :=
  zl.eraseIdx eptr

def zzlInsertAt (zl : List ZzlEntry) (eptr : Option Nat) (ele : List Char) (score : Binary64) : List ZzlEntry :=
  match eptr with
  | none => zl ++ [⟨ele, zzlScoreEntry score⟩]
  | some eptr => zl.insertIdx eptr ⟨ele, zzlScoreEntry score⟩

def zzlInsertPosition : List ZzlEntry → List Char → Binary64 → Option Nat
  | [], _, _ => none
  | entry :: rest, ele, score =>
    let s := zzlGetScore entry.score
    if blt score s then some 0
    else if beq s score && decide (zzlCompareElements entry.ele ele > 0) then some 0
    else (zzlInsertPosition rest ele score).map (· + 1)

def zzlInsert (zl : List ZzlEntry) (ele : List Char) (score : Binary64) : List ZzlEntry :=
  zzlInsertAt zl (zzlInsertPosition zl ele score) ele score

section Score

variable {d : Binary64} {l : Int}

theorem double2ll_eq_some (conv : double2ll d = some l) : ofInt l = d ∨ (d = negZero ∧ l = 0) := by
  unfold double2ll at conv
  split at conv
  · cases conv
  · dsimp only at conv
    split at conv
    · next exact =>
      cases conv
      obtain ⟨-, -, keys⟩ := beq_iff.mp exact
      rcases key_inj keys with same | ⟨intZero, dZero⟩
      · exact .inl same
      · have lZero : d.truncate = 0 := ((ofInt_fields _).2.2).mp intZero
        rcases eq_zero_of_scaled dZero with pos | neg
        · exact .inl (by rw [lZero, ofInt_zero, pos])
        · exact .inr ⟨neg, lZero⟩
    · cases conv

theorem double2ll_negZero : double2ll negZero = some 0 := by
  have zero : negZero.key = 0 := key_eq_zero_of_scaled (by decide) (by decide)
  -- both bounds are on their own side of zero
  have below : (ofInt (-(llongMax / 2))).key ≤ 0 :=
    key_nonpos (by rw [(ofInt_fields _).1]; decide)
  have above : 0 ≤ (ofInt (llongMax / 2)).key :=
    key_nonneg (by rw [(ofInt_fields _).1]; decide)
  have inRange : (blt negZero (ofInt (-(llongMax / 2))) || blt (ofInt (llongMax / 2)) negZero) = false := by
    simp only [blt, zero, Bool.or_eq_false_iff, Bool.and_eq_false_iff, decide_eq_false_iff_not, not_lt]
    exact ⟨.inr below, .inr above⟩
  have exact : beq posZero negZero = true := by decide
  simp only [double2ll, inRange, Bool.false_eq_true, if_false, truncate_of_scaled (show negZero.scaled = 0 by decide),
    ofInt_zero, exact, if_true]

theorem zzlGetScore_zzlScoreEntry (d : Binary64) :
    zzlGetScore (zzlScoreEntry d) = if d = negZero then posZero else d := by
  unfold zzlScoreEntry
  split
  · next lscore conv =>
    rcases double2ll_eq_some conv with exact | ⟨rfl, rfl⟩
    · rw [zzlGetScore, exact, if_neg (exact ▸ ofInt_ne_negZero lscore)]
    · rw [zzlGetScore, ofInt_zero, if_pos rfl]
  · next none =>
    have notNeg : d ≠ negZero := fun neg => by rw [neg, double2ll_negZero] at none; cases none
    rw [zzlGetScore, if_neg notNeg]

end Score

section Find

variable {zl : List ZzlEntry} {ele : List Char}

theorem zzlFind_eq_none_iff : zzlFind zl ele = none ↔ ∀ entry ∈ zl, entry.ele ≠ ele := by
  induction zl with
  | nil => simp [zzlFind]
  | cons entry rest ih =>
    by_cases here : entry.ele = ele <;> simp [zzlFind, here, ih]

theorem zzlInsertAt_eq_insertIdx (zl : List ZzlEntry) (eptr : Option Nat) (ele : List Char) (score : Binary64) :
    zzlInsertAt zl eptr ele score = zl.insertIdx (eptr.getD zl.length) ⟨ele, zzlScoreEntry score⟩ := by
  cases eptr <;> simp [zzlInsertAt, List.insertIdx_length_self]

theorem zzlInsertPosition_le (zl : List ZzlEntry) (ele : List Char) (score : Binary64) :
    (zzlInsertPosition zl ele score).getD zl.length ≤ zl.length := by
  induction zl with
  | nil => simp [zzlInsertPosition]
  | cons entry rest ih =>
    simp only [zzlInsertPosition]
    split
    · simp
    · split
      · simp
      · cases later : zzlInsertPosition rest ele score <;> simp_all

theorem zzlFind_insertIdx_of_absent {i : Nat} {score : ZzlScore} (absent : zzlFind zl ele = none)
    (le : i ≤ zl.length) : (zzlFind (zl.insertIdx i ⟨ele, score⟩) ele).map Prod.snd = some (zzlGetScore score) := by
  induction zl generalizing i with
  | nil =>
    obtain rfl : i = 0 := by simpa using le
    simp [zzlFind]
  | cons entry rest ih =>
    have other : entry.ele ≠ ele := zzlFind_eq_none_iff.mp absent entry List.mem_cons_self
    cases i with
    | zero => simp [zzlFind]
    | succ i =>
      have restAbsent : zzlFind rest ele = none := by simpa [zzlFind, other] using absent
      have found := ih restAbsent (by simpa using le)
      simp only [List.insertIdx_succ_cons, zzlFind, other, if_false, Option.map_map]
      exact found

theorem zzlFind_zzlInsert_of_absent (score : Binary64) (absent : zzlFind zl ele = none) :
    (zzlFind (zzlInsert zl ele score) ele).map Prod.snd = some (zzlGetScore (zzlScoreEntry score)) := by
  rw [zzlInsert, zzlInsertAt_eq_insertIdx]
  exact zzlFind_insertIdx_of_absent absent (zzlInsertPosition_le zl ele score)

end Find

end Kv.Zset
