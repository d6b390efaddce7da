import Grammatic.Grammar.Parser

/-!
# The grammar of the scripting language

A small language with expressions, blocks, conditionals, loops and imports. One program unit is a
statement, or an empty statement for a lone separator. Statements within a block are separated by
semicolons and newlines; empty statements between separators leave no trace.
-/

namespace Grammatic.Script

/-- The operators of the language; lower numbers bind tighter. -/
def operators : List (TokenKind × Int × Assoc) := [
  ("star", 3, .left),
  ("slash", 3, .left),
  ("percent", 3, .left),
  ("plus", 4, .left),
  ("dash", 4, .left),
  ("lt", 6, .left),
  ("gt", 6, .left),
  ("le", 6, .left),
  ("ge", 6, .left),
  ("eq2", 7, .left),
  ("exclaim_eq", 7, .left),
  ("amp2", 11, .left),
  ("pipe2", 12, .left),
  ("eq", 14, .right)]

/-- The rules of the language that parsing can start from. -/
structure Entries where
  expression : RuleId
  block : RuleId
  statement : RuleId
  program : RuleId
  deriving DecidableEq, Repr

/-- A new sequence with the components that `body` appends to it. -/
def rule (tag : Datum) (body : RuleId → Building Unit) : Building RuleId := do
  let id ← Building.newRule tag
  body id
  return id

/-- The missing tag. -/
def untagged : Datum := .scalar .absent

/-- Requires a sub-rule, and captures its value. -/
def take (parent sub : RuleId) : Building Unit := Building.capture parent (.item sub)

/-- Requires a token of a kind. -/
def expect (parent : RuleId) (kind : TokenKind) : Building Unit := Building.delimiter parent [kind]

/-- Requires a token that separates statements. -/
def separator (parent : RuleId) : Building Unit := Building.delimiter parent ["semi", "newline"]

/-- Captures a sub-rule if it matches. -/
def optional (parent sub : RuleId) : Building Unit := Building.optional parent (.item sub)

/-- Captures a sub-rule as often as it matches. -/
def repetition (parent sub : RuleId) : Building Unit := Building.repetition parent (.item sub)

/-- Captures the first sub-rule that matches. -/
def choice (parent : RuleId) (alternatives : List RuleId) : Building Unit :=
  Building.choice parent (alternatives.map .item)

/-- Literals, names, and expressions in parentheses. -/
def primary (expression string : RuleId) : Building RuleId := do
  let number ← rule untagged (Building.number · "NumberLiteral")
  let name ← rule untagged (Building.identifier · "Name")
  let truth ← rule untagged (Building.truth · "BoolLiteral")
  let null ← rule untagged (Building.null · "NullLiteral")
  let nested ← rule untagged fun r => do expect r "paren_o"; take r expression; expect r "paren_c"
  rule "PrimaryExpr" (choice · [nested, number, name, string, truth, null])

/-- Primary expressions, negated once or not at all. -/
def factor (primary : RuleId) : Building RuleId := do
  let negative ← rule "NegativeExpr" fun r => do expect r "dash"; take r primary
  let not ← rule "NotExpr" fun r => do expect r "exclaim"; take r primary
  rule untagged (choice · [negative, not, primary])

/-- Statements in braces. -/
def block (statement : RuleId) : Building RuleId := do
  let next ← rule untagged fun r => do separator r; optional r statement
  rule "BlockStmnt" fun r => do
    expect r "brace_o"
    optional r statement
    repetition r next
    expect r "brace_c"

/-- A conditional statement. -/
def ifStatement (expression block : RuleId) : Building RuleId := do
  let otherwise ← rule untagged fun r => do expect r "kw_else"; take r block
  rule "IfStmnt" fun r => do
    expect r "kw_if"
    expect r "paren_o"
    take r expression
    expect r "paren_c"
    take r block
    optional r otherwise

/-- A loop with a condition. -/
def whileStatement (expression block : RuleId) : Building RuleId :=
  rule "WhileStmt" fun r => do
    expect r "kw_while"
    expect r "paren_o"
    take r expression
    expect r "paren_c"
    take r block

/-- A loop with three clauses. -/
def forStatement (expression block : RuleId) : Building RuleId := do
  let next ← rule untagged fun r => do expect r "comma"; optional r expression
  let clause ← rule "OptionStmt" fun r => do optional r expression; repetition r next
  let noFirst ← rule "NullStmt" fun _ => pure ()
  let noCondition ← rule "NullStmt" fun _ => pure ()
  let noLast ← rule "NullStmt" fun _ => pure ()
  rule "ForStmt" fun r => do
    expect r "kw_for"
    expect r "paren_o"
    choice r [clause, noFirst]
    expect r "semi"
    choice r [expression, noCondition]
    expect r "semi"
    choice r [clause, noLast]
    expect r "paren_c"
    take r block

/-- Declares all rules of the language, with the operators of a table. -/
def declare (table : TableId) : Building Entries := do
  let expression ← Building.newRule
  let statement ← Building.newRule
  let string ← rule untagged (Building.string · "StringLiteral")
  let factor ← factor (← primary expression string)
  Building.expression expression "BinaryExpr" (.item factor) (.item table)
  let importStatement ← rule "Import" fun r => do expect r "kw_import"; take r string
  let simple ← rule untagged (choice · [expression, importStatement])
  let block ← block statement
  let conditional ← ifStatement expression block
  let loop ← whileStatement expression block
  let counted ← forStatement expression block
  let exit ← rule "BreakStmt" (expect · "kw_break")
  choice statement [conditional, loop, counted, exit, simple]
  let empty ← rule "NullStmt" separator
  let program ← rule untagged (choice · [statement, empty])
  return { expression, block, statement, program }

/-- Declares and compiles the grammar of the language for a lexer, whose keywords are reserved. -/
def define (lexer : Lexer) : Building (Entries × Grammatic.Parser) := do
  let words ← Building.newWords (lexer.keywords.map (·.1))
  let table ← Building.newTable (operators.map fun (kind, precedence, assoc) =>
    (kind, .scalar (.int precedence), .assoc assoc))
  let grammar ← Building.newGrammar { words := .shared words, table }
  let entries ← declare table
  return (entries, ← Building.compile grammar (.item entries.program) (some lexer))

end Grammatic.Script
