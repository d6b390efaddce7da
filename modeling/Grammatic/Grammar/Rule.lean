import Grammatic.Literal
import Grammatic.StringSet

/-!
# Rules

A grammar is a graph of rules. Rules refer to each other by number, so a rule can be referred to
before its body is declared, and the graph may have cycles. The kind of a rule selects how it is
evaluated:

* a *terminal* takes one token of a set of kinds, and may read it as a literal;
* a *sequence* takes its components in order, and gives a tagged node, or else its first value;
* an *alternation* takes the first of its alternatives that matches;
* an *optional* takes its sub-rule, or nothing;
* a *repetition* takes its sub-rule as often as it matches;
* a *capture* takes its sub-rule, so that a sequence captures the value;
* an *expression* takes a chain of binary operators over an operand.
-/

namespace Grammatic

/-- The number of a rule. -/
abbrev RuleId := Nat

/-- The number of an operator table. -/
abbrev TableId := Nat

/-- The number of a set of words that can still grow. -/
abbrev WordsId := Nat

/-- The number of a grammar. -/
abbrev GrammarId := Nat

/-- The tag of the nodes that a rule makes. -/
abbrev NodeTag := String

/-- The ways to evaluate a rule. -/
inductive RuleKind where
  | terminal
  | sequence
  | alternation
  | optional
  | repetition
  | capture
  | expression
  deriving DecidableEq, Repr, Inhabited

/-- The name of a kind of rules. -/
def RuleKind.name : RuleKind → String
  | .terminal => "terminal"
  | .sequence => "sequence"
  | .alternation => "alternation"
  | .optional => "optional"
  | .repetition => "repetition"
  | .capture => "capture"
  | .expression => "expression"

/-- A collection of words. -/
inductive Words where
  /-- A set that others may still add to. -/
  | shared (id : WordsId)
  | fixed (set : StringSet)
  /-- The words that occur in a text. -/
  | within (text : String)
  deriving DecidableEq, Repr, Inhabited

/-- The words that an identifier must not be. -/
inductive Reserved where
  | none
  /-- The words of the grammar that the rule is evaluated with. -/
  | ofGrammar
  | words (words : Words)
  deriving DecidableEq, Repr, Inhabited

/-- A node of a grammar graph. -/
structure Rule where
  kind : RuleKind
  tag : Option NodeTag := none
  children : List RuleId := []
  /-- The kinds of token that a terminal takes. -/
  kinds : StringSet := .empty
  /-- How a terminal reads its token; a mere delimiter does not. -/
  literal : Option Literal := none
  reserved : Reserved := .none
  /-- The operators of an expression. -/
  table : Option TableId := none
  /-- Whether the rule can no longer be extended. -/
  frozen : Bool := false
  deriving DecidableEq, Repr, Inhabited

namespace Rule

/-- Whether a sequence captures the value of this component. -/
def captures (rule : Rule) : Bool :=
  rule.kind != .terminal || rule.literal.isSome

/-- Whether all that a rule refers to is numbered below the given bounds. -/
def within (rule : Rule) (rules tables : Nat) : Bool :=
  rule.children.all (· < rules) && rule.table.all (· < tables)

theorem within_mono {rule : Rule} {rules rules' tables tables' : Nat}
    (h : rule.within rules tables) (hr : rules ≤ rules') (ht : tables ≤ tables') :
    rule.within rules' tables' := by
  simp only [within, Bool.and_eq_true, List.all_eq_true, decide_eq_true_eq] at h ⊢
  refine ⟨fun c hc => Nat.lt_of_lt_of_le (h.1 c hc) hr, ?_⟩
  cases htable : rule.table with
  | none => rfl
  | some t =>
    have := h.2
    simp only [htable, Option.all_some, decide_eq_true_eq] at this ⊢
    omega

end Rule

end Grammatic
