import Kv.Zset.Listpack

/-!
The sorted-set API over its two encodings (t_zset.c `zsetAdd`, `zsetScore`,
`zsetDel`, `zsetLength`, `zsetConvertAndExpand`). The skiplist encoding is
modelled by its level-0 chain, which holds every node in order: the upper
levels only speed up the search for a position, and the hashtable maps each
element to its node, which is the lookup by element on the chain.
-/

namespace Kv.Zset

open Foundations Binary64

structure ZslNode where
  ele : List Char
  score : Binary64
  deriving DecidableEq

def zslCompareNodes (a b : ZslNode) : Int :=
  if blt b.score a.score then 1 else if blt a.score b.score then -1 else sdscmp a.ele b.ele

def zslInsertNode : List ZslNode → ZslNode → List ZslNode
  | [], node => [node]
  | x :: rest, node => if zslCompareNodes x node < 0 then x :: zslInsertNode rest node else node :: x :: rest

def zslInsert (zsl : List ZslNode) (score : Binary64) (ele : List Char) : List ZslNode :=
  zslInsertNode zsl ⟨ele, score⟩

/-- `zslDelete` of the node at a position. -/
def zslDelete (zsl : List ZslNode) (node : Nat) : List ZslNode :=
  zsl.eraseIdx node

/-- `zslUpdateScore`: the score is changed in place when the node keeps its
place between its neighbours, and the node is removed and inserted again
otherwise. -/
def zslUpdateScore (zsl : List ZslNode) (node : Nat) (newscore : Binary64) : List ZslNode :=
  match zsl[node]? with
  | none => zsl
  | some x =>
    let backward := if node = 0 then none else zsl[node - 1]?
    let forward := zsl[node + 1]?
    if (backward.all fun b => blt b.score newscore) && (forward.all fun f => blt newscore f.score) then
      zsl.set node { x with score := newscore }
    else zslInsertNode (zsl.eraseIdx node) { x with score := newscore }

def hashtableFindRef : List ZslNode → List Char → Option (Nat × ZslNode)
  | [], _ => none
  | x :: rest, ele =>
    if x.ele = ele then some (0, x)
    else (hashtableFindRef rest ele).map fun (node, found) => (node + 1, found)

inductive ZsetObj where
  | listpack (zl : List ZzlEntry)
  | skiplist (zsl : List ZslNode)
  deriving DecidableEq

structure ZsetConfig where
  zsetMaxListpackEntries : Nat
  zsetMaxListpackValue : Nat
  lpSafeToAdd : List ZzlEntry → Nat → Bool

structure ZaddFlags where
  incr : Bool := false
  nx : Bool := false
  xx : Bool := false
  gt : Bool := false
  lt : Bool := false

def zaddOutNop : Nat := 1
def zaddOutNan : Nat := 2
def zaddOutAdded : Nat := 4
def zaddOutUpdated : Nat := 8

structure ZaddResult where
  ret : Nat
  outFlags : Nat
  newscore : Option Binary64
  zobj : ZsetObj

def zsetConvertToSkiplist (zl : List ZzlEntry) : List ZslNode :=
  zl.foldl (fun zsl entry => zslInsert zsl (zzlGetScore entry.score) entry.ele) []

def zsetConvertToListpack (zsl : List ZslNode) : List ZzlEntry :=
  zsl.foldl (fun zl node => zzlInsertAt zl none node.ele node.score) []

section Add

-- the double addition of `score += curscore`
variable (fadd : Binary64 → Binary64 → Binary64)

def zsetAddSkiplist (zsl : List ZslNode) (score : Binary64) (ele : List Char) (flags : ZaddFlags) : ZaddResult :=
  match hashtableFindRef zsl ele with
  | some (node, old) =>
    if flags.nx then ⟨1, zaddOutNop, none, .skiplist zsl⟩
    else
      let curscore := old.score
      let score := if flags.incr then fadd score curscore else score
      if flags.incr && score.isNaN then ⟨0, zaddOutNan, none, .skiplist zsl⟩
      else if (flags.lt && ble curscore score) || (flags.gt && ble score curscore) then
        ⟨1, zaddOutNop, none, .skiplist zsl⟩
      else if !beq score curscore then ⟨1, zaddOutUpdated, some score, .skiplist (zslUpdateScore zsl node score)⟩
      else ⟨1, 0, some score, .skiplist zsl⟩
  | none =>
    if !flags.xx then ⟨1, zaddOutAdded, some score, .skiplist (zslInsert zsl score ele)⟩
    else ⟨1, zaddOutNop, none, .skiplist zsl⟩

/-- `zsetAdd`. A listpack that would grow past its limits is converted, and
the element is then added by the skiplist block. -/
def zsetAdd (config : ZsetConfig) (zobj : ZsetObj) (score : Binary64) (ele : List Char) (flags : ZaddFlags) :
    ZaddResult :=
  if score.isNaN then ⟨0, zaddOutNan, none, zobj⟩
  else
    match zobj with
    | .listpack zl =>
      match zzlFind zl ele with
      | some (eptr, curscore) =>
        if flags.nx then ⟨1, zaddOutNop, none, zobj⟩
        else
          let score := if flags.incr then fadd score curscore else score
          if flags.incr && score.isNaN then ⟨0, zaddOutNan, none, zobj⟩
          else if (flags.lt && ble curscore score) || (flags.gt && ble score curscore) then
            ⟨1, zaddOutNop, none, zobj⟩
          else if !beq score curscore then
            ⟨1, zaddOutUpdated, some score, .listpack (zzlInsert (zzlDelete zl eptr) ele score)⟩
          else ⟨1, 0, some score, zobj⟩
      | none =>
        if !flags.xx then
          if zzlLength zl + 1 > config.zsetMaxListpackEntries || ele.length > config.zsetMaxListpackValue ||
              !config.lpSafeToAdd zl ele.length then
            zsetAddSkiplist fadd (zsetConvertToSkiplist zl) score ele flags
          else ⟨1, zaddOutAdded, some score, .listpack (zzlInsert zl ele score)⟩
        else ⟨1, zaddOutNop, none, zobj⟩
    | .skiplist zsl => zsetAddSkiplist fadd zsl score ele flags

end Add

/-- `zsetScore`. -/
def zsetScore : ZsetObj → List Char → Option Binary64
  | .listpack zl, member => (zzlFind zl member).map Prod.snd
  | .skiplist zsl, member => (hashtableFindRef zsl member).map fun found => found.2.score

/-- `zsetDel`: 1 and the set without the element, or 0 and the set as it was. -/
def zsetDel : ZsetObj → List Char → Nat × ZsetObj
  | .listpack zl, ele =>
    match zzlFind zl ele with
    | some (eptr, _) => (1, .listpack (zzlDelete zl eptr))
    | none => (0, .listpack zl)
  | .skiplist zsl, ele =>
    match hashtableFindRef zsl ele with
    | some (node, _) => (1, .skiplist (zslDelete zsl node))
    | none => (0, .skiplist zsl)

def zsetLength : ZsetObj → Nat
  | .listpack zl => zzlLength zl
  | .skiplist zsl => zsl.length

section Skiplist

variable {zsl : List ZslNode} {ele : List Char}

theorem hashtableFindRef_eq_none_iff : hashtableFindRef zsl ele = none ↔ ∀ x ∈ zsl, x.ele ≠ ele := by
  induction zsl with
  | nil => simp [hashtableFindRef]
  | cons x rest ih =>
    by_cases here : x.ele = ele <;> simp [hashtableFindRef, here, ih]

theorem hashtableFindRef_zslInsertNode_of_absent {node : ZslNode} (absent : hashtableFindRef zsl node.ele = none) :
    (hashtableFindRef (zslInsertNode zsl node) node.ele).map Prod.snd = some node := by
  induction zsl with
  | nil => simp [zslInsertNode, hashtableFindRef]
  | cons x rest ih =>
    have other : x.ele ≠ node.ele := hashtableFindRef_eq_none_iff.mp absent x List.mem_cons_self
    have restAbsent : hashtableFindRef rest node.ele = none := by simpa [hashtableFindRef, other] using absent
    simp only [zslInsertNode]
    split
    · simp only [hashtableFindRef, other, if_false, Option.map_map]
      exact ih restAbsent
    · simp [hashtableFindRef]

end Skiplist

section Absent

variable {fadd : Binary64 → Binary64 → Binary64} {config : ZsetConfig} {score : Binary64} {ele : List Char}
  {flags : ZaddFlags}

theorem zsetAdd_listpack_of_absent {zl : List ZzlEntry} (notNaN : score.isNaN = false) (notXX : flags.xx = false)
    (absent : zzlFind zl ele = none) (fits : zzlLength zl + 1 ≤ config.zsetMaxListpackEntries)
    (short : ele.length ≤ config.zsetMaxListpackValue) (safe : config.lpSafeToAdd zl ele.length = true) :
    zsetAdd fadd config (.listpack zl) score ele flags =
      ⟨1, zaddOutAdded, some score, .listpack (zzlInsert zl ele score)⟩ := by
  have inLimits : (decide (zzlLength zl + 1 > config.zsetMaxListpackEntries) ||
      decide (ele.length > config.zsetMaxListpackValue) || !config.lpSafeToAdd zl ele.length) = false := by
    simp only [safe, Bool.not_true, Bool.or_false, Bool.or_eq_false_iff, decide_eq_false_iff_not, not_lt]
    exact ⟨fits, short⟩
  simp only [zsetAdd, notNaN, absent, notXX, inLimits, Bool.false_eq_true, if_false, Bool.not_false, if_true]

theorem zsetAdd_skiplist_of_absent {zsl : List ZslNode} (notNaN : score.isNaN = false) (notXX : flags.xx = false)
    (absent : hashtableFindRef zsl ele = none) :
    zsetAdd fadd config (.skiplist zsl) score ele flags =
      ⟨1, zaddOutAdded, some score, .skiplist (zslInsert zsl score ele)⟩ := by
  simp only [zsetAdd, zsetAddSkiplist, notNaN, absent, notXX, Bool.false_eq_true, if_false, Bool.not_false, if_true]

/-- -0 added to a listpack is read back as 0, while a skiplist keeps it: the
two encodings return the same, and then answer ZSCORE differently. -/
theorem zsetAdd_negZero_score_differs {zl : List ZzlEntry} {zsl : List ZslNode} (notXX : flags.xx = false)
    (absentListpack : zzlFind zl ele = none) (absentSkiplist : hashtableFindRef zsl ele = none)
    (fits : zzlLength zl + 1 ≤ config.zsetMaxListpackEntries) (short : ele.length ≤ config.zsetMaxListpackValue)
    (safe : config.lpSafeToAdd zl ele.length = true) :
    (zsetAdd fadd config (.listpack zl) negZero ele flags).ret =
        (zsetAdd fadd config (.skiplist zsl) negZero ele flags).ret ∧
      (zsetAdd fadd config (.listpack zl) negZero ele flags).outFlags =
        (zsetAdd fadd config (.skiplist zsl) negZero ele flags).outFlags ∧
      zsetScore (zsetAdd fadd config (.listpack zl) negZero ele flags).zobj ele = some posZero ∧
      zsetScore (zsetAdd fadd config (.skiplist zsl) negZero ele flags).zobj ele = some negZero := by
  have notNaN : negZero.isNaN = false := by decide
  rw [zsetAdd_listpack_of_absent notNaN notXX absentListpack fits short safe,
    zsetAdd_skiplist_of_absent notNaN notXX absentSkiplist]
  refine ⟨rfl, rfl, ?_, ?_⟩
  · -- the listpack wrote the integer 0
    rw [zsetScore, zzlFind_zzlInsert_of_absent negZero absentListpack, zzlGetScore_zzlScoreEntry, if_pos rfl]
  · have found : (hashtableFindRef (zslInsertNode zsl ⟨ele, negZero⟩) ele).map Prod.snd = some ⟨ele, negZero⟩ :=
      hashtableFindRef_zslInsertNode_of_absent absentSkiplist
    rw [zsetScore, zslInsert]
    simpa [Option.map_map] using congrArg (Option.map ZslNode.score) found

theorem zsetAdd_negZero_score_differs_empty :
    zzlFind [] ['m'] = none ∧ hashtableFindRef [] ['m'] = none ∧ zzlLength [] + 1 ≤ 128 ∧ ['m'].length ≤ 64 ∧
      (zsetAdd (fun a _ => a) ⟨128, 64, fun _ _ => true⟩ (.listpack []) negZero ['m'] {}).ret =
          (zsetAdd (fun a _ => a) ⟨128, 64, fun _ _ => true⟩ (.skiplist []) negZero ['m'] {}).ret ∧
        (zsetAdd (fun a _ => a) ⟨128, 64, fun _ _ => true⟩ (.listpack []) negZero ['m'] {}).outFlags =
          (zsetAdd (fun a _ => a) ⟨128, 64, fun _ _ => true⟩ (.skiplist []) negZero ['m'] {}).outFlags ∧
        zsetScore (zsetAdd (fun a _ => a) ⟨128, 64, fun _ _ => true⟩ (.listpack []) negZero ['m'] {}).zobj ['m'] =
          some posZero ∧
        zsetScore (zsetAdd (fun a _ => a) ⟨128, 64, fun _ _ => true⟩ (.skiplist []) negZero ['m'] {}).zobj ['m'] =
          some negZero :=
  ⟨rfl, rfl, by decide, by decide,
    @zsetAdd_negZero_score_differs (fun a _ => a) ⟨128, 64, fun _ _ => true⟩ ['m'] {} [] [] rfl rfl rfl
      (by decide) (by decide) rfl⟩

end Absent

end Kv.Zset
