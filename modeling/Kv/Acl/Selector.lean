import Kv.Sds.SplitArgs
import Kv.Foundations.Run
import Mathlib.Data.Finset.Basic
import Mathlib.Data.List.Sort
import Mathlib.Data.List.TakeWhile

/-!
The permissions of an ACL selector in acl.c. What a selector may run is kept
twice: as the bitmap `allowed_commands` with the first-args allowed per
command, and as the ordered rule text `command_rules`, which
`ACLUpdateCommandRules` edits in place so that the description can replay it.
`ACLSetSelector` applies one rule to a selector: key patterns, channel
patterns, databases, categories, commands, subcommands and first-args.
-/

namespace Kv.Acl

open Foundations Kv.Sds

def userCommandBitsCount : Nat := 1024

def aclReadPermission : Nat := 1

def aclWritePermission : Nat := 2

def aclAllPermission : Nat := 3

def int32Max : Int := 2147483647

inductive AclError where
  | enoent
  | einval
  | eexist
  | eisdir
  | echild
  | erange
  deriving DecidableEq, Repr

structure SelectorFlags where
  root : Bool
  allKeys : Bool
  allCommands : Bool
  allChannels : Bool
  allDbs : Bool
  deriving DecidableEq, Repr

structure KeyPattern where
  pattern : List Char
  flags : Nat
  deriving DecidableEq, Repr

structure AclSelector where
  flags : SelectorFlags
  patterns : List KeyPattern
  channels : List (List Char)
  dbs : List Int
  allowedCommands : Finset Nat
  allowedFirstargs : Nat → List (List Char)
  commandRules : List Char

structure ServerCommand where
  id : Nat
  declaredName : List Char
  fullname : List Char
  hasParent : Bool
  aclCategories : Nat
  subcommands : Option (List ServerCommand)

structure AclServer where
  origCommands : List ServerCommand
  categories : List (List Char × Nat)
  pubsubAllChannels : Bool

section Text

def cString (s : List Char) : List Char :=
  s.takeWhile (· ≠ '\x00')

def strcasecmpEq (a b : List Char) : Bool :=
  (cString a).map Char.toLower == (cString b).map Char.toLower

def aclStringHasSpaces (s : List Char) : Bool :=
  s.any fun c => isspace c || c == '\x00'

def sdssplitlen (s : List Char) (sep : Char) : List (List Char) :=
  if s = [] then [] else s.splitOn sep

def splitAtLast (s : List Char) (c : Char) : List Char × List Char :=
  let after := (s.reverse.takeWhile (· ≠ c)).reverse
  (s.take (s.length - after.length - 1), after)

def strtoll (s : List Char) : Int × List Char :=
  let t := s.dropWhile isspace
  let (negative, u) : Bool × List Char :=
    match t with
    | '-' :: u => (true, u)
    | '+' :: u => (false, u)
    | _ => (false, t)
  let digits := u.takeWhile Char.isDigit
  if digits = [] then (0, s)
  else
    let n : Int := digits.foldl (fun acc d => acc * 10 + (d.toNat - '0'.toNat)) 0
    (if negative then -n else n, u.dropWhile Char.isDigit)

theorem cString_cons {c : Char} (s : List Char) (notEnd : c ≠ '\x00') : cString (c :: s) = c :: cString s := by
  simp [cString, notEnd]

theorem cString_eq_self {s : List Char} (noNul : '\x00' ∉ s) : cString s = s := by
  rw [cString, List.takeWhile_eq_self_iff]
  intro c mem
  have : c ≠ '\x00' := fun same => noNul (same ▸ mem)
  simpa using this

theorem strcasecmpEq_cons_cons {c d : Char} {s t : List Char} (cNotEnd : c ≠ '\x00') (dNotEnd : d ≠ '\x00') :
    strcasecmpEq (c :: s) (d :: t) = (c.toLower == d.toLower && strcasecmpEq s t) := by
  simp [strcasecmpEq, cString_cons _ cNotEnd, cString_cons _ dNotEnd]

theorem strcasecmpEq_eq_false_of_head {s t : List Char} {d : Char} (dNotEnd : d ≠ '\x00')
    (differs : ∀ c ∈ s.head?, c ≠ '\x00' → c.toLower ≠ d.toLower) : strcasecmpEq s (d :: t) = false := by
  cases s with
  | nil => simp [strcasecmpEq, cString, dNotEnd]
  | cons c s =>
    by_cases atEnd : c = '\x00'
    · subst atEnd
      simp [strcasecmpEq, cString, dNotEnd]
    · rw [strcasecmpEq_cons_cons atEnd dNotEnd]
      simp [differs c rfl atEnd]

theorem splitAtLast_append {a b : List Char} {c : Char} (notIn : c ∉ b) :
    splitAtLast (a ++ c :: b) c = (a, b) := by
  have after : ((a ++ c :: b).reverse.takeWhile (· ≠ c)).reverse = b := by
    have allNe : ∀ x ∈ b.reverse, decide (x ≠ c) = true := by
      intro x mem
      have : x ≠ c := fun same => notIn (same ▸ List.mem_reverse.mp mem)
      simpa using this
    rw [List.reverse_append, List.reverse_cons, List.append_assoc, List.takeWhile_append_of_pos allNe]
    simp
  simp only [splitAtLast, after, Prod.mk.injEq, and_true]
  exact List.take_left' (by simp only [List.length_append, List.length_cons]; omega)

theorem toLower_of_isUpper_eq_false {c : Char} (notUpper : c.isUpper = false) : c.toLower = c := by
  unfold Char.toLower
  rw [dif_neg]
  intro range
  rw [show c.isUpper = true from decide_eq_true range] at notUpper
  cases notUpper

theorem isLower_toLower_of_isUpper {c : Char} (upper : c.isUpper = true) : c.toLower.isLower = true := by
  have range : c.val ≥ 'A'.val ∧ c.val ≤ 'Z'.val := of_decide_eq_true upper
  unfold Char.toLower
  rw [dif_pos range]
  show (decide (c.val + ('a'.val - 'A'.val) ≥ 'a'.val) && decide (c.val + ('a'.val - 'A'.val) ≤ 'z'.val)) = true
  obtain ⟨low, high⟩ := range
  simp only [ge_iff_le, UInt32.le_iff_toNat_le, UInt32.toNat_add, Bool.and_eq_true, decide_eq_true_eq] at low high ⊢
  have shift : ('a'.val - 'A'.val).toNat = 32 := by decide
  have codes : 'a'.val.toNat = 97 ∧ 'z'.val.toNat = 122 ∧ 'A'.val.toNat = 65 ∧ 'Z'.val.toNat = 90 := by decide
  omega

theorem eq_of_toLower_eq {c d : Char} (lowered : c.toLower = d) (notLower : d.isLower = false) : c = d := by
  cases upper : c.isUpper with
  | false => rwa [toLower_of_isUpper_eq_false upper] at lowered
  | true =>
    have := isLower_toLower_of_isUpper upper
    rw [lowered, notLower] at this
    cases this

theorem plainChar_of_isLower {d : Char} (lower : d.isLower = true) : plainChar d = true := by
  have ne : ∀ x : Char, x.isLower = false → d ≠ x := by
    rintro x notLower rfl
    rw [notLower] at lower
    cases lower
  simp [plainChar, isspace, ne ' ' rfl, ne '\t' rfl, ne '\n' rfl, ne '\x0b' rfl, ne '\x0c' rfl, ne '\r' rfl,
    ne '"' rfl, ne singleQuote rfl, ne '\x00' rfl]

theorem PlainWord.map_toLower {w : List Char} (plain : PlainWord w) : PlainWord (w.map Char.toLower) := by
  obtain ⟨nonempty, chars⟩ := plain
  refine ⟨by simpa using nonempty, fun d mem => ?_⟩
  obtain ⟨c, cMem, rfl⟩ := List.mem_map.mp mem
  cases upper : c.isUpper with
  | false => rw [toLower_of_isUpper_eq_false upper]; exact chars c cMem
  | true => exact plainChar_of_isLower (isLower_toLower_of_isUpper upper)

end Text

section Commands

def findCommand (key : ServerCommand → List Char) (commands : List ServerCommand) (name : List Char) :
    Option ServerCommand :=
  commands.find? fun cmd => strcasecmpEq (key cmd) name

def lookupSubcommand (container : ServerCommand) (subName : List Char) : Option ServerCommand :=
  match container.subcommands with
  | some subs => findCommand ServerCommand.declaredName subs subName
  | none => none

def lookupCommandLogic (commands : List ServerCommand) (argv : List (List Char)) (strict : Bool) :
    Option ServerCommand :=
  let baseCmd := argv.head?.bind (findCommand ServerCommand.fullname commands)
  let hasSubcommands := (baseCmd.bind ServerCommand.subcommands).isSome
  if argv.length = 1 ∨ !hasSubcommands then
    if strict ∧ argv.length ≠ 1 then none else baseCmd
  else if strict ∧ argv.length ≠ 2 then none
  else
    match baseCmd, argv with
    | some base, _ :: sub :: _ => lookupSubcommand base sub
    | _, _ => none

def lookupCommandBySdsLogic (commands : List ServerCommand) (s : List Char) : Option ServerCommand :=
  let strings := sdssplitlen s '|'
  if strings.length < 1 ∨ strings.length > 2 then none
  else lookupCommandLogic commands strings true

/-- `ACLLookupCommand`: a command of the original table by its C-string name. -/
def aclLookupCommand (server : AclServer) (name : List Char) : Option ServerCommand :=
  lookupCommandBySdsLogic server.origCommands (cString name)

def aclGetCommandCategoryFlagByName (server : AclServer) (name : List Char) : Nat :=
  match server.categories.find? fun item => strcasecmpEq name item.1 with
  | some item => item.2
  | none => 0

end Commands

section Bits

def aclCreateSelector (server : AclServer) (root : Bool) : AclSelector where
  flags := ⟨root, false, false, server.pubsubAllChannels, true⟩
  patterns := []
  channels := []
  dbs := []
  allowedCommands := ∅
  allowedFirstargs := fun _ => []
  commandRules := []

def aclGetSelectorCommandBit (selector : AclSelector) (id : Nat) : Bool :=
  decide (id < userCommandBitsCount) && decide (id ∈ selector.allowedCommands)

def aclSelectorCanExecuteFutureCommands (selector : AclSelector) : Bool :=
  aclGetSelectorCommandBit selector (userCommandBitsCount - 1)

def aclSetSelectorCommandBit (selector : AclSelector) (id : Nat) (value : Bool) : AclSelector :=
  if userCommandBitsCount ≤ id then selector
  else if value then { selector with allowedCommands := insert id selector.allowedCommands }
  else
    { selector with
      allowedCommands := selector.allowedCommands.erase id
      flags := { selector.flags with allCommands := false } }

def aclResetFirstArgsForCommand (selector : AclSelector) (id : Nat) : AclSelector :=
  { selector with allowedFirstargs := Function.update selector.allowedFirstargs id [] }

def aclResetFirstArgs (selector : AclSelector) : AclSelector :=
  { selector with allowedFirstargs := fun _ => [] }

/-- `ACLAddAllowedFirstArg`: a first-arg already there, in any case, is not
added again. -/
def aclAddAllowedFirstArg (selector : AclSelector) (id : Nat) (sub : List Char) : AclSelector :=
  if (selector.allowedFirstargs id).any (strcasecmpEq · sub) then selector
  else
    { selector with
      allowedFirstargs :=
        Function.update selector.allowedFirstargs id (selector.allowedFirstargs id ++ [cString sub]) }

/-- `ACLChangeSelectorPerm`: a container command takes its subcommands along. -/
def aclChangeSelectorPerm (selector : AclSelector) (cmd : ServerCommand) (allow : Bool) : AclSelector :=
  let selector := aclResetFirstArgsForCommand (aclSetSelectorCommandBit selector cmd.id allow) cmd.id
  match cmd.subcommands with
  | some subs => subs.foldl (fun selector sub => aclSetSelectorCommandBit selector sub.id allow) selector
  | none => selector

/-- `ACLSetSelectorCommandBitsForCategory`: every command of the category, and
of each container, its subcommands of the category. -/
def aclSetSelectorCommandBitsForCategory (cflag : Nat) (value : Bool) :
    List ServerCommand → AclSelector → AclSelector
  | [], selector => selector
  | ⟨id, declaredName, fullname, hasParent, aclCategories, subcommands⟩ :: rest, selector =>
    let cmd : ServerCommand := ⟨id, declaredName, fullname, hasParent, aclCategories, subcommands⟩
    let selector := if aclCategories &&& cflag ≠ 0 then aclChangeSelectorPerm selector cmd value else selector
    let selector :=
      match subcommands with
      | some subs => aclSetSelectorCommandBitsForCategory cflag value subs selector
      | none => selector
    aclSetSelectorCommandBitsForCategory cflag value rest selector

end Bits

section Rules

def ruleMatches (existing newRule : List Char) : Bool :=
  let n := min existing.length newRule.length
  existing.take n == newRule.take n &&
    (existing.length == newRule.length ||
      (newRule.length < existing.length && existing[newRule.length]? == some '|'))

def aclSelectorRemoveCommandRuleLoop (newRule kept : List Char) : List Char → List Char
  | [] => kept
  | sign :: afterSign =>
    let existing := afterSign.takeWhile (· ≠ ' ')
    let last := decide (existing.length = afterSign.length)
    let later := afterSign.drop (existing.length + 1)
    if ruleMatches existing newRule then
      -- the `memmove` over the rule; after the last rule the cursor is at the end
      if last then kept.dropLast else aclSelectorRemoveCommandRuleLoop newRule kept later
    else aclSelectorRemoveCommandRuleLoop newRule (kept ++ sign :: existing ++ (if last then [] else [' '])) later
termination_by rules => rules.length
decreasing_by all_goals simp only [List.length_drop, List.length_cons]; omega

theorem aclSelectorRemoveCommandRuleLoop_nil (newRule kept : List Char) :
    aclSelectorRemoveCommandRuleLoop newRule kept [] = kept := by
  rw [aclSelectorRemoveCommandRuleLoop]

/-- `ACLSelectorRemoveCommandRule`. -/
def aclSelectorRemoveCommandRule (selector : AclSelector) (newRule : List Char) : AclSelector :=
  { selector with commandRules := aclSelectorRemoveCommandRuleLoop newRule [] selector.commandRules }

/-- `ACLUpdateCommandRules`: the rule, lowercased, moves to the end. -/
def aclUpdateCommandRules (selector : AclSelector) (rule : List Char) (allow : Bool) : AclSelector :=
  let newRule := (cString rule).map Char.toLower
  let selector := aclSelectorRemoveCommandRule selector newRule
  let rules := if selector.commandRules ≠ [] then selector.commandRules ++ [' '] else selector.commandRules
  { selector with commandRules := rules ++ (if allow then '+' else '-') :: newRule }

def aclSetSelectorCategory (server : AclServer) (selector : AclSelector) (category : List Char)
    (allow : Bool) : Option AclSelector :=
  let cflag := aclGetCommandCategoryFlagByName server (category.drop 1)
  if cflag = 0 then none
  else
    some (aclSetSelectorCommandBitsForCategory cflag allow server.origCommands
      (aclUpdateCommandRules selector category allow))

end Rules

section SetSelector

def aclReadKeyPermissions (flags : Nat) : List Char → Option (Nat × List Char)
  | [] => some (flags, [])
  | c :: rest =>
    if c.toUpper = 'R' ∧ flags &&& aclReadPermission = 0 then
      aclReadKeyPermissions (flags ||| aclReadPermission) rest
    else if c.toUpper = 'W' ∧ flags &&& aclWritePermission = 0 then
      aclReadKeyPermissions (flags ||| aclWritePermission) rest
    else if c = '~' then some (flags, rest)
    else none

def addKeyPattern : List KeyPattern → KeyPattern → List KeyPattern
  | [], newpat => [newpat]
  | pat :: rest, newpat =>
    if pat.pattern = newpat.pattern then { pat with flags := pat.flags ||| newpat.flags } :: rest
    else pat :: addKeyPattern rest newpat

def aclSetSelectorKeyPattern (selector : AclSelector) (op : List Char) : Except AclError AclSelector :=
  if selector.flags.allKeys then .error .eexist
  else
    let read : Option (Nat × List Char) :=
      match op with
      | '%' :: perms => aclReadKeyPermissions 0 perms
      | _ => some (aclAllPermission, op.drop 1)
    match read with
    | none => .error .einval
    | some (flags, pattern) =>
      if flags = 0 then .error .einval
      else if aclStringHasSpaces pattern then .error .einval
      else
        .ok { selector with
              patterns := addKeyPattern selector.patterns ⟨pattern, flags⟩
              flags := { selector.flags with allKeys := false } }

def aclSetSelectorChannel (selector : AclSelector) (pattern : List Char) : Except AclError AclSelector :=
  if selector.flags.allChannels then .error .eisdir
  else if aclStringHasSpaces pattern then .error .einval
  else
    .ok { selector with
          channels := if pattern ∈ selector.channels then selector.channels else selector.channels ++ [pattern]
          flags := { selector.flags with allChannels := false } }

/-- `intsetAdd` on the sorted set of database ids. -/
def intsetAdd (set : List Int) (value : Int) : List Int :=
  if value ∈ set then set else set.orderedInsert (· ≤ ·) value

/-- `ACLSetSelectorDatabasePermissions`: a comma-separated list of ids from 0
to `INT32_MAX` replaces the databases, and `ALLDBS` is cleared. -/
def aclSetSelectorDatabasePermissions (selector : AclSelector) (dbsStr : List Char) :
    Except AclError AclSelector :=
  let dblist := cString dbsStr
  if dblist = [] ∨ dblist.head? = some ',' ∨ dblist.getLast? = some ',' then .error .einval
  else
    let addToken (newDbs : List Int) (token : List Char) : Except AclError (List Int) :=
      if token = [] then .error .einval
      else
        let (dbid, endptr) := strtoll token
        if endptr ≠ [] then .error .einval
        else if dbid < 0 ∨ int32Max < dbid then .error .erange
        else .ok (intsetAdd newDbs dbid)
    let added := (sdssplitlen dblist ',').foldlM addToken []
    added.map fun newDbs => { selector with dbs := newDbs, flags := { selector.flags with allDbs := false } }

def aclSetSelectorAllowCommand (server : AclServer) (selector : AclSelector) (rule : List Char) :
    Except AclError AclSelector :=
  let name := cString rule
  if '|' ∉ name then
    match aclLookupCommand server name with
    | none => .error .enoent
    | some cmd => .ok (aclUpdateCommandRules (aclChangeSelectorPerm selector cmd true) cmd.fullname true)
  else
    let (copy, sub) := splitAtLast name '|'
    match aclLookupCommand server copy with
    | none => .error .enoent
    | some cmd =>
      if cmd.hasParent then .error .echild
      else if sub = [] then .error .einval
      else if cmd.subcommands.isSome then
        match aclLookupCommand server name with
        | none => .error .enoent
        | some subcommand => .ok (aclUpdateCommandRules (aclChangeSelectorPerm selector subcommand true) name true)
      else
        -- the first-arg is stored as written: nothing checks it for blanks or quotes
        .ok (aclUpdateCommandRules (aclAddAllowedFirstArg selector cmd.id sub) name true)

def aclSetSelectorBlockCommand (server : AclServer) (selector : AclSelector) (rule : List Char) :
    Except AclError AclSelector :=
  match aclLookupCommand server rule with
  | none => .error .enoent
  | some cmd => .ok (aclUpdateCommandRules (aclChangeSelectorPerm selector cmd false) cmd.fullname false)

/-- `ACLSetSelector`: one rule applied to a selector. -/
def aclSetSelector (server : AclServer) (selector : AclSelector) (op : List Char) : Except AclError AclSelector :=
  if strcasecmpEq op "allkeys".toList || strcasecmpEq op "~*".toList then
    .ok { selector with flags := { selector.flags with allKeys := true }, patterns := [] }
  else if strcasecmpEq op "resetkeys".toList then
    .ok { selector with flags := { selector.flags with allKeys := false }, patterns := [] }
  else if strcasecmpEq op "allchannels".toList || strcasecmpEq op "&*".toList then
    .ok { selector with flags := { selector.flags with allChannels := true }, channels := [] }
  else if strcasecmpEq op "resetchannels".toList then
    .ok { selector with flags := { selector.flags with allChannels := false }, channels := [] }
  else if strcasecmpEq op "alldbs".toList then
    .ok { selector with flags := { selector.flags with allDbs := true }, dbs := [] }
  else if strcasecmpEq op "resetdbs".toList then
    .ok { selector with flags := { selector.flags with allDbs := false }, dbs := [] }
  else if ((cString op).take 3).map Char.toLower = "db=".toList then
    aclSetSelectorDatabasePermissions selector (op.drop 3)
  else if strcasecmpEq op "allcommands".toList || strcasecmpEq op "+@all".toList then
    .ok (aclResetFirstArgs { selector with
      allowedCommands := Finset.range userCommandBitsCount
      flags := { selector.flags with allCommands := true }
      commandRules := [] })
  else if strcasecmpEq op "nocommands".toList || strcasecmpEq op "-@all".toList then
    .ok (aclResetFirstArgs { selector with
      allowedCommands := ∅
      flags := { selector.flags with allCommands := false }
      commandRules := [] })
  else
    match op with
    | '~' :: _ => aclSetSelectorKeyPattern selector op
    | '%' :: _ => aclSetSelectorKeyPattern selector op
    | '&' :: pattern => aclSetSelectorChannel selector pattern
    | '+' :: rule =>
      if rule.head? = some '@' then
        match aclSetSelectorCategory server selector rule true with
        | some selector => .ok selector
        | none => .error .enoent
      else aclSetSelectorAllowCommand server selector rule
    | '-' :: rule =>
      if rule.head? = some '@' then
        match aclSetSelectorCategory server selector rule false with
        | some selector => .ok selector
        | none => .error .enoent
      else aclSetSelectorBlockCommand server selector rule
    | _ => .error .einval

end SetSelector

section Describe

def withTerminator (arg : List Char) : List Char :=
  arg ++ ['\x00']

/-- `ACLDescribeSelectorCommandRules`: the rules that rebuild the selector's
command bitmap, or none where the server aborts: the split of the rule text
fails (`serverAssert(argv != NULL)`), a replayed rule fails
(`serverAssert(res == C_OK)`), or the replayed bitmap differs
(`serverPanic`). -/
def aclDescribeSelectorCommandRules (server : AclServer) (selector : AclSelector) : Option (List Char) := do
  let future := aclSelectorCanExecuteFutureCommands selector
  let start := if future then "+@all".toList else "-@all".toList
  -- the first rule's result is not checked; it is accepted on every selector
  let fake := ((aclSetSelector server (aclCreateSelector server false) start).toOption).getD
    (aclCreateSelector server false)
  let argv ← sdssplitargs selector.commandRules
  let fake ← runSteps (fun fake arg => (aclSetSelector server fake (withTerminator arg)).toOption) fake argv
  let rules := start ++ [' '] ++ (if selector.commandRules ≠ [] then selector.commandRules ++ [' '] else [])
  if fake.allowedCommands = selector.allowedCommands then some rules.dropLast else none

end Describe

end Kv.Acl
