import Kv.Acl.Selector

/-!
What the description of a selector's command rules can replay. The rule text
is split again with `sdssplitargs` and each part applied to a fresh selector;
a part that no selector accepts makes the assertion fail.
-/

namespace Kv.Acl

open Foundations Kv.Sds

variable {server : AclServer} {selector : AclSelector}

section Dispatch

theorem aclSetSelector_allowCommand {rule : List Char} (notCategory : rule.head? ≠ some '@') :
    aclSetSelector server selector ('+' :: rule) = aclSetSelectorAllowCommand server selector rule := by
  have notAll : strcasecmpEq rule ['@', 'a', 'l', 'l'] = false := by
    apply strcasecmpEq_eq_false_of_head (by decide)
    intro c head _ lowered
    exact notCategory (by rw [head, eq_of_toLower_eq lowered (by decide)]; rfl)
  have plus : strcasecmpEq ('+' :: rule) ['+', '@', 'a', 'l', 'l'] = false := by
    rw [strcasecmpEq_cons_cons (by decide) (by decide), notAll, Bool.and_false]
  rw [aclSetSelector]
  -- every keyword starts with another character than `+`, and `+@all` is a category
  simp (disch := decide) only [String.reduceToList, strcasecmpEq_cons_cons, Char.reduceToLower, Char.reduceBEq,
    Bool.false_and, Bool.or_false, Bool.false_eq_true, cString_cons, List.take_succ_cons, List.map_cons, plus,
    if_false]
  rw [if_neg (by simp), if_neg notCategory]

theorem aclSetSelector_unknown {c : Char} {rest : List Char} (notAlpha : c.isAlpha = false)
    (notSign : c ∉ ['~', '%', '&', '+', '-']) (notEnd : c ≠ '\x00') :
    aclSetSelector server selector (c :: rest) = .error .einval := by
  have lower : c.toLower = c := toLower_of_isUpper_eq_false (Bool.or_eq_false_iff.mp notAlpha).1
  have letters : c ≠ 'a' ∧ c ≠ 'r' ∧ c ≠ 'd' ∧ c ≠ 'n' := by
    refine ⟨?_, ?_, ?_, ?_⟩ <;> (rintro rfl; exact absurd notAlpha (by decide))
  simp only [List.mem_cons, List.not_mem_nil, or_false, not_or] at notSign
  -- the first characters of the keywords
  have heads : (c == 'a') = false ∧ (c == 'r') = false ∧ (c == 'd') = false ∧ (c == 'n') = false ∧
      (c == '~') = false ∧ (c == '&') = false ∧ (c == '+') = false ∧ (c == '-') = false := by
    simp [letters, notSign]
  rw [aclSetSelector]
  simp (disch := decide) only [strcasecmpEq_cons_cons notEnd, String.reduceToList, Char.reduceToLower, lower, heads,
    Bool.false_and, Bool.or_false, Bool.false_eq_true, if_false, cString_cons _ notEnd, List.take_succ_cons,
    List.map_cons, List.cons.injEq, letters, false_and]
  -- nor does it start with a character the last branches look for
  all_goals simp [notSign]

theorem aclAddAllowedFirstArg_commandRules (id : Nat) (sub : List Char) :
    (aclAddAllowedFirstArg selector id sub).commandRules = selector.commandRules := by
  unfold aclAddAllowedFirstArg
  split <;> rfl

theorem aclSetSelectorAllowCommand_firstArg {name sub : List Char} {cmd : ServerCommand}
    (found : aclLookupCommand server name = some cmd) (noParent : cmd.hasParent = false)
    (noSubcommands : cmd.subcommands = none) (noNul : '\x00' ∉ name ++ '|' :: sub) (subBars : '|' ∉ sub)
    (subNonempty : sub ≠ []) :
    aclSetSelectorAllowCommand server selector (name ++ '|' :: sub) =
      .ok (aclUpdateCommandRules (aclAddAllowedFirstArg selector cmd.id sub) (name ++ '|' :: sub) true) := by
  have bar : '|' ∈ name ++ '|' :: sub := by simp
  simp only [aclSetSelectorAllowCommand, cString_eq_self noNul, bar, not_true_eq_false, if_false,
    splitAtLast_append subBars, found, noParent, Bool.false_eq_true, subNonempty, noSubcommands,
    Option.isSome_none]

theorem aclUpdateCommandRules_commandRules_of_nil (noRules : selector.commandRules = []) (rule : List Char)
    (allow : Bool) :
    (aclUpdateCommandRules selector rule allow).commandRules =
      (if allow then '+' else '-') :: (cString rule).map Char.toLower := by
  simp [aclUpdateCommandRules, aclSelectorRemoveCommandRule, noRules, aclSelectorRemoveCommandRuleLoop_nil]

end Dispatch

section Describe

theorem aclDescribeSelectorCommandRules_eq_none_of_rejected {argv : List (List Char)} {arg : List Char}
    (split : sdssplitargs selector.commandRules = some argv) (mem : arg ∈ argv)
    (rejected : ∀ fake, ∃ e, aclSetSelector server fake (withTerminator arg) = .error e) :
    aclDescribeSelectorCommandRules server selector = none := by
  have fails : ∀ fake,
      runSteps (fun fake arg => (aclSetSelector server fake (withTerminator arg)).toOption) fake argv = none :=
    runSteps_eq_none_of_mem mem fun fake => by
      obtain ⟨e, error⟩ := rejected fake
      simp [error, Except.toOption]
  simp [aclDescribeSelectorCommandRules, split, fails]

theorem aclDescribeSelectorCommandRules_eq_none_of_unbalanced
    (unbalanced : sdssplitargs selector.commandRules = none) :
    aclDescribeSelectorCommandRules server selector = none := by
  simp [aclDescribeSelectorCommandRules, unbalanced]

/-- A first-arg with a space in it is accepted, and the description of the
selector then aborts: the split cuts the rule at the space, and what follows
the space is not a rule. -/
theorem aclDescribeSelectorCommandRules_firstArg_space {name a b : List Char} {cmd : ServerCommand}
    (found : aclLookupCommand server name = some cmd) (noParent : cmd.hasParent = false)
    (noSubcommands : cmd.subcommands = none) (nameWord : PlainWord name) (notCategory : name.head? ≠ some '@')
    (aWord : PlainWord a) (bWord : PlainWord b) (bars : '|' ∉ a ∧ '|' ∉ b)
    (notRule : ∀ c ∈ b.head?, c.isAlpha = false ∧ c ∉ ['~', '%', '&', '+', '-'])
    (noRules : selector.commandRules = []) :
    ∃ selector', aclSetSelector server selector ('+' :: (name ++ '|' :: (a ++ ' ' :: b))) = .ok selector' ∧
      aclDescribeSelectorCommandRules server selector' = none := by
  have noNul : ∀ w, PlainWord w → '\x00' ∉ w := fun w plain inside => by
    have := plain.2 _ inside
    simp [plainChar] at this
  have ruleNoNul : '\x00' ∉ name ++ '|' :: (a ++ ' ' :: b) := by
    simp [noNul name nameWord, noNul a aWord, noNul b bWord]
  have subBars : '|' ∉ a ++ ' ' :: b := by simp [bars.1, bars.2]
  have headName : (name ++ '|' :: (a ++ ' ' :: b)).head? ≠ some '@' := by
    obtain ⟨c, rest, rfl⟩ := List.exists_cons_of_ne_nil nameWord.1
    simpa using notCategory
  -- the rule is accepted, and stored lowercased as the whole rule text
  refine ⟨_, by rw [aclSetSelector_allowCommand headName,
    aclSetSelectorAllowCommand_firstArg found noParent noSubcommands ruleNoNul subBars (by simp)], ?_⟩
  have first : PlainWord ('+' :: (name.map Char.toLower ++ '|' :: a.map Char.toLower)) := by
    refine ⟨by simp, fun c mem => ?_⟩
    simp only [List.mem_cons, List.mem_append] at mem
    rcases mem with rfl | inName | rfl | inA
    · decide
    · exact (PlainWord.map_toLower nameWord).2 c inName
    · decide
    · exact (PlainWord.map_toLower aWord).2 c inA
  have text : (aclUpdateCommandRules (aclAddAllowedFirstArg selector cmd.id (a ++ ' ' :: b))
      (name ++ '|' :: (a ++ ' ' :: b)) true).commandRules =
        [' '].intercalate [('+' :: (name.map Char.toLower ++ '|' :: a.map Char.toLower)), b.map Char.toLower] := by
    rw [aclUpdateCommandRules_commandRules_of_nil (by rw [aclAddAllowedFirstArg_commandRules, noRules]),
      cString_eq_self ruleNoNul]
    simp
  -- the split cuts it at the space
  have split : sdssplitargs ([' '].intercalate [('+' :: (name.map Char.toLower ++ '|' :: a.map Char.toLower)),
      b.map Char.toLower]) = some [('+' :: (name.map Char.toLower ++ '|' :: a.map Char.toLower)), b.map Char.toLower] :=
    sdssplitargs_intercalate (by simp [first, PlainWord.map_toLower bWord])
  -- and what follows the space starts with a character no rule starts with
  obtain ⟨c, rest, rfl⟩ := List.exists_cons_of_ne_nil bWord.1
  obtain ⟨notAlpha, notSign⟩ := notRule c rfl
  have notEnd : c ≠ '\x00' := fun atEnd => noNul _ bWord (atEnd ▸ List.mem_cons_self)
  have lower : c.toLower = c := toLower_of_isUpper_eq_false (Bool.or_eq_false_iff.mp notAlpha).1
  rw [← text] at split
  refine aclDescribeSelectorCommandRules_eq_none_of_rejected split
    (List.mem_cons_of_mem _ (List.mem_singleton_self _)) fun fake => ⟨.einval, ?_⟩
  rw [List.map_cons, lower, withTerminator, List.cons_append]
  exact aclSetSelector_unknown notAlpha notSign notEnd

theorem aclDescribeSelectorCommandRules_select_zero_one :
    ∃ selector', aclSetSelector ⟨[⟨0, "select".toList, "select".toList, false, 0, none⟩], [], false⟩
        (aclCreateSelector ⟨[⟨0, "select".toList, "select".toList, false, 0, none⟩], [], false⟩ true)
        "+select|0 1".toList = .ok selector' ∧
      aclDescribeSelectorCommandRules ⟨[⟨0, "select".toList, "select".toList, false, 0, none⟩], [], false⟩
        selector' = none :=
  @aclDescribeSelectorCommandRules_firstArg_space
    ⟨[⟨0, "select".toList, "select".toList, false, 0, none⟩], [], false⟩
    (aclCreateSelector ⟨[⟨0, "select".toList, "select".toList, false, 0, none⟩], [], false⟩ true)
    "select".toList "0".toList "1".toList ⟨0, "select".toList, "select".toList, false, 0, none⟩
    rfl rfl rfl ⟨by simp, by simp [plainChar, isspace, singleQuote]⟩ (by simp)
    ⟨by simp, by simp [plainChar, isspace, singleQuote]⟩ ⟨by simp, by simp [plainChar, isspace, singleQuote]⟩
    (by simp) (by simp only [String.reduceToList, List.head?_cons, Option.mem_def, Option.some.injEq, forall_eq']
                  exact ⟨rfl, by simp⟩) rfl

end Describe

end Kv.Acl
