import Grammatic.Datum
import Grammatic.Token.Basic

/-!
# Operator tables

An operator table gives operator kinds their precedence and associativity. Lower numbers bind
tighter. A table keeps the order in which its operators were added, and holds each kind once.
-/

namespace Grammatic

/-- The side that operators of one precedence group to. -/
inductive Assoc where
  | left
  | right
  deriving DecidableEq, Repr, Inhabited

/-- The binding of an operator. -/
structure Operator where
  precedence : Int
  assoc : Assoc
  deriving DecidableEq, Repr, Inhabited

/-- The loosest precedence that the right operand of an operator may hold. -/
def Operator.rightLimit (operator : Operator) : Int :=
  match operator.assoc with
  | .left => operator.precedence - 1
  | .right => operator.precedence

/-- Operators by kind, in the order in which they were added. -/
structure OperatorTable where
  entries : List (TokenKind × Operator) := []
  /-- Whether no more operators can be added. -/
  frozen : Bool := false
  deriving DecidableEq, Repr, Inhabited

/-- A value given where an associativity is expected. -/
inductive AssocArgument where
  | assoc (assoc : Assoc)
  | other (value : Datum)

/-- Why an operator cannot be added. -/
inductive OperatorError where
  | frozen (kind : Datum)
  | badKind (kind : Datum)
  | precedenceNotInt (kind : String) (precedence : Datum)
  | badAssoc (value : Datum)
  | duplicate (kind : String)

/-- The wording of a refusal. -/
def OperatorError.message : OperatorError → String
  | .frozen kind => "operator table is frozen; cannot add operator: " ++ kind.shown
  | .badKind kind => "invalid token kind: " ++ kind.shown
  | .precedenceNotInt kind precedence =>
    "operator precedence must be an int: " ++ Text.quoted kind ++ ": " ++ precedence.shown
  | .badAssoc value => "operator associativity must be LEFT or RIGHT: " ++ value.shown
  | .duplicate kind => "duplicate operator: " ++ Text.quoted kind

/-- The name in a piece of data, if it is a text of the form of a name. -/
def Datum.name? (datum : Datum) : Option String :=
  datum.text?.filter Text.isName

namespace OperatorTable

/-- The kinds of the operators, in the order in which they were added. -/
def kinds (table : OperatorTable) : List TokenKind :=
  table.entries.map (·.1)

/-- The operator of a kind. -/
def find? (table : OperatorTable) (kind : TokenKind) : Option Operator :=
  table.entries.lookup kind

/-- A table with one more operator. -/
def add (table : OperatorTable) (kind precedence : Datum) (assoc : AssocArgument := .assoc .left) :
    Except OperatorError OperatorTable :=
  if table.frozen then .error (.frozen kind)
  else
    match kind.name?, precedence.int?, assoc with
    | none, _, _ => .error (.badKind kind)
    | some name, none, _ => .error (.precedenceNotInt name precedence)
    | some _, some _, .other value => .error (.badAssoc value)
    | some name, some precedence, .assoc assoc =>
      if name ∈ table.kinds then .error (.duplicate name)
      else .ok { table with entries := table.entries ++ [(name, ⟨precedence, assoc⟩)] }

/-- The table of a list of operators. -/
def ofList (entries : List (Datum × Datum × AssocArgument)) : Except OperatorError OperatorTable :=
  entries.foldlM (fun table (kind, precedence, assoc) => table.add kind precedence assoc) {}

/-- The text of one operator. -/
def shownEntry (entry : TokenKind × Operator) : String :=
  entry.1 ++ ":" ++ toString entry.2.precedence ++
    match entry.2.assoc with
    | .left => "L"
    | .right => "R"

/-- The text of a table. -/
def shown (table : OperatorTable) : String :=
  "Operators(" ++ ", ".intercalate (table.entries.map shownEntry) ++ ")"

end OperatorTable

end Grammatic
