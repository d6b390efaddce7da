import Grammatic.Grammar.Store

/-!
# Errors in definitions

What can be wrong with a rule, a table or a grammar. An error names rules by number; its message is
worded with the store it arose in.
-/

namespace Grammatic

/-- A value given where a rule or a table is expected: the number of one, or other data. -/
inductive Argument where
  | item (id : Nat)
  | other (value : Datum)

/-- Why a definition is refused. -/
inductive DefinitionError where
  | badKind (kind : Datum)
  | badTag (tag : Datum)
  | notRule (value : Datum)
  | notOperators (value : Datum)
  /-- No rule, table, set of words or grammar has the number. -/
  | unknownItem (id : Nat)
  | noDelimiters
  | noAlternatives
  | operator (error : OperatorError)
  /-- A rule that is frozen cannot be extended. -/
  | frozenRule (rule : RuleId)
  /-- A rule that is no sequence cannot be extended. -/
  | notSequence (rule : RuleId)
  | capturesMany (rule : RuleId)
  | endKindUnknown (kind : TokenKind)
  | placeholder (rule : RuleId)
  | matchesNothing (rule : RuleId)
  | withoutAlternatives (rule : RuleId)
  | incompleteExpression (rule : RuleId)
  | emptyTable (rule : RuleId)
  | notOneSubRule (rule : RuleId)
  | unknownKind (rule : RuleId) (kind : TokenKind)

/-- The text of the rule with a number. -/
def Store.shownRuleAt (store : Store) (id : RuleId) : String :=
  (store.rules[id]?.map store.shownRule).getD ("rule " ++ toString id)

/-- The wording of a refusal. -/
def DefinitionError.message (store : Store) : DefinitionError → String
  | .badKind kind => "invalid token kind: " ++ kind.shown
  | .badTag tag => "invalid node tag: " ++ tag.shown
  | .notRule value => "expected a Rule; received " ++ value.shown
  | .notOperators value => "expected Operators; received " ++ value.shown
  | .unknownItem id => "nothing has the number " ++ toString id
  | .noDelimiters => "`sep` requires at least one token kind."
  | .noAlternatives => "`or_` requires at least one alternative."
  | .operator error => error.message
  | .frozenRule rule =>
    store.shownRuleAt rule ++ " is frozen; rules cannot be extended after a Parser compiles them."
  | .notSequence rule =>
    "builder methods require a sequence rule; received " ++ store.shownRuleAt rule ++ "."
  | .capturesMany rule =>
    store.shownRuleAt rule ++ " captures multiple values but has no node tag."
  | .endKindUnknown kind => "end of text kind is not a token kind: " ++ Text.quoted kind
  | .placeholder rule => "placeholder rule was never defined: " ++ store.shownRuleAt rule
  | .matchesNothing rule => store.shownRuleAt rule ++ " matches no token kinds."
  | .withoutAlternatives rule => store.shownRuleAt rule ++ " has no alternatives."
  | .incompleteExpression rule =>
    store.shownRuleAt rule ++ " requires a tag, one operand rule, and an operator table."
  | .emptyTable rule => store.shownRuleAt rule ++ " has an empty operator table."
  | .notOneSubRule rule => store.shownRuleAt rule ++ " requires exactly one sub-rule."
  | .unknownKind rule kind =>
    store.shownRuleAt rule ++ " refers to nonexistent token kind: " ++ Text.quoted kind

/-- A token kind, as data. -/
def validKind (kind : Datum) : Except DefinitionError TokenKind :=
  match kind.name? with
  | some name => .ok name
  | none => .error (.badKind kind)

/-- A node tag, as data. -/
def validTag (tag : Datum) : Except DefinitionError NodeTag :=
  match tag.name? with
  | some name => .ok name
  | none => .error (.badTag tag)

end Grammatic
