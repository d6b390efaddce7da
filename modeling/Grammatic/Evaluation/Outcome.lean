import Grammatic.Literal
import Grammatic.StringSet

/-!
# Outcomes of evaluation

Evaluating a rule at a position matches, with a value and the position behind it, or fails. A
failure is an ordinary outcome, which names the token that did not fit and the kinds that would
have; the position that goes with it is where the evaluation leaves the tokens. A fault stops the
whole evaluation: a numeral that cannot be read, a node that cannot be made, or a rule that lacks a
part. Evaluation is given a budget of nested steps; an evaluation that never ends exhausts any.

A `Factory` says what the values are, so that evaluation itself never looks inside them.
-/

namespace Grammatic

/-- A failed match: the position where it failed, the token there, and the kinds expected. -/
structure Failure where
  position : Nat
  token : Token
  expected : StringSet
  deriving DecidableEq, Repr

/-- The message of a failure. -/
def Failure.message (failure : Failure) : String :=
  let kinds := failure.expected.toList
  let expected := (if 1 < kinds.length then "one of: " else "") ++ ", ".intercalate kinds
  let token := failure.token
  let received :=
    if token.text = "" ∨ token.text = token.kind then token.kind
    else token.kind ++ " " ++ Text.quoted token.text
  "expected " ++ expected ++ "; received " ++ received ++ "."

/-- How values are made: from the scalar that a token is read as, from a list of values, and from
the values that a rule captured under its tag. Only the last can be refused. -/
structure Factory (α ε : Type) where
  scalar : Scalar → α
  list : List α → α
  node : Option String → List α → Except ε α

/-- The value of something that is not there. -/
def Factory.absent {α ε : Type} (factory : Factory α ε) : α := factory.scalar .absent

/-- What stops an evaluation. -/
inductive Fault (ε : Type) where
  /-- No rule has the number. -/
  | unknownRule
  /-- A rule that needs a sub-rule has none. -/
  | noSubRule
  /-- An alternation has no alternatives. -/
  | noAlternatives
  /-- An expression has no operators. -/
  | noTable
  /-- The text of a token denotes no number. -/
  | literal (error : NumeralError)
  /-- A node cannot be made. -/
  | construction (error : ε)
  deriving DecidableEq, Repr

/-- The result of evaluating a rule. -/
inductive Outcome (α ε : Type) where
  | matched (value : α) (position : Nat)
  | failed (failure : Failure) (position : Nat)
  | fault (fault : Fault ε) (position : Nat)
  /-- The budget of nested steps ran out. -/
  | exhausted
  deriving DecidableEq, Repr

end Grammatic
