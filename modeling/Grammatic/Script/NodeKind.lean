/-!
# Kinds of script nodes

The nodes of syntax trees of the scripting language are told apart by kind. A kind is named by the
tag of the grammar rule that makes its nodes. The nodes of some kinds are leaves, which hold a
single literal value.
-/

namespace Grammatic.Script

/-- The kind of a node. -/
inductive NodeKind where
  | numberLiteral
  | name
  | stringLiteral
  | boolLiteral
  | nullLiteral
  | primaryExpr
  | negativeExpr
  | notExpr
  | binaryExpr
  | block
  | ifStatement
  | whileStatement
  /-- A list of expressions, as in the first and the last clause of a for statement. -/
  | clause
  /-- The empty statement. -/
  | nullStatement
  | forStatement
  | breakStatement
  | importStatement
  deriving DecidableEq, Repr, Inhabited

namespace NodeKind

/-- All kinds. -/
def all : List NodeKind := [
  .numberLiteral, .name, .stringLiteral, .boolLiteral, .nullLiteral, .primaryExpr, .negativeExpr,
  .notExpr, .binaryExpr, .block, .ifStatement, .whileStatement, .clause, .nullStatement,
  .forStatement, .breakStatement, .importStatement]

/-- The tag of the rule that makes nodes of a kind. -/
def tag : NodeKind → String
  | .numberLiteral => "NumberLiteral"
  | .name => "Name"
  | .stringLiteral => "StringLiteral"
  | .boolLiteral => "BoolLiteral"
  | .nullLiteral => "NullLiteral"
  | .primaryExpr => "PrimaryExpr"
  | .negativeExpr => "NegativeExpr"
  | .notExpr => "NotExpr"
  | .binaryExpr => "BinaryExpr"
  | .block => "BlockStmnt"
  | .ifStatement => "IfStmnt"
  | .whileStatement => "WhileStmt"
  | .clause => "OptionStmt"
  | .nullStatement => "NullStmt"
  | .forStatement => "ForStmt"
  | .breakStatement => "BreakStmt"
  | .importStatement => "Import"

/-- The kind that a tag names. -/
def ofTag? (tag : String) : Option NodeKind :=
  all.find? (·.tag = tag)

/-- Whether nodes of a kind hold a single literal value. -/
def isLeaf : NodeKind → Bool
  | .numberLiteral | .name | .stringLiteral | .boolLiteral | .nullLiteral => true
  | _ => false

end NodeKind

end Grammatic.Script
