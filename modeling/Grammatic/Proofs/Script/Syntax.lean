import Grammatic.Proofs.Language.Form
import Grammatic.Script.Grammar
import Grammatic.Script.Vocabulary

/-!
# The syntax of scripts

The rules of the scripting language as a context-free grammar, one form for each rule. Its nonterminals
are the rules that parsing can start from, which are those that refer to each other. Names are the
tokens of the name kind that are no keyword of the vocabulary.

One token ahead decides wherever the grammar leaves a choice, except for one place: a dash behind an
expression goes on with it, and also starts an expression.
-/

namespace Grammatic.Script

/-- The nonterminals of the language. -/
inductive Nonterminal where
  | expression
  | block
  | statement
  | program
  deriving DecidableEq, Repr

/-- The rule of a nonterminal. -/
def Entries.rule (entries : Entries) : Nonterminal → RuleId
  | .expression => entries.expression
  | .block => entries.block
  | .statement => entries.statement
  | .program => entries.program

namespace Syntax

open Form (all any)

/-- A token of a kind. -/
def delimiter (kind : TokenKind) : Form Nonterminal := .token [kind]

/-- What separates statements. -/
def separator : Form Nonterminal := .token ["semi", "newline"]

def string : Form Nonterminal := .token ["string"]

def nested : Form Nonterminal :=
  all [delimiter "paren_o", .symbol .expression, delimiter "paren_c"]

def primary : Form Nonterminal :=
  any nested [.token ["number"], .unreserved ["name"], string, .token ["true", "false"],
    .token ["null"]]

def factor : Form Nonterminal :=
  any (all [delimiter "dash", primary]) [all [delimiter "exclaim", primary], primary]

def expression : Form Nonterminal := .chain factor (operators.map (·.1))

def importStatement : Form Nonterminal := all [delimiter "kw_import", string]

def simple : Form Nonterminal := any (.symbol .expression) [importStatement]

def block : Form Nonterminal :=
  all [delimiter "brace_o", .optional (.symbol .statement),
    .repetition (all [separator, .optional (.symbol .statement)]), delimiter "brace_c"]

/-- A keyword with an expression in parentheses and a block. -/
def guarded (keyword : TokenKind) : List (Form Nonterminal) :=
  [delimiter keyword, delimiter "paren_o", .symbol .expression, delimiter "paren_c", .symbol .block]

def ifStatement : Form Nonterminal :=
  all (guarded "kw_if" ++ [.optional (all [delimiter "kw_else", .symbol .block])])

def whileStatement : Form Nonterminal := all (guarded "kw_while")

def clause : Form Nonterminal :=
  all [.optional (.symbol .expression),
    .repetition (all [delimiter "comma", .optional (.symbol .expression)])]

def forStatement : Form Nonterminal :=
  all [delimiter "kw_for", delimiter "paren_o",
    any clause [.empty], delimiter "semi",
    any (.symbol .expression) [.empty], delimiter "semi",
    any clause [.empty], delimiter "paren_c", .symbol .block]

def breakStatement : Form Nonterminal := delimiter "kw_break"

def statement : Form Nonterminal :=
  any ifStatement [whileStatement, forStatement, breakStatement, simple]

def program : Form Nonterminal := any (.symbol .statement) [separator]

/-- The form of a nonterminal. -/
def rules : Nonterminal → Form Nonterminal
  | .expression => expression
  | .block => block
  | .statement => statement
  | .program => program

/-! ## What one token ahead sees -/

def expressionKinds : List TokenKind :=
  ["dash", "exclaim", "paren_o", "number", "name", "string", "true", "false", "null"]

def statementKinds : List TokenKind :=
  ["kw_if", "kw_while", "kw_for", "kw_break", "kw_import"] ++ expressionKinds

/-- The kinds that a nonterminal can start with. -/
def lead : Nonterminal → List TokenKind
  | .expression => expressionKinds
  | .block => ["brace_o"]
  | .statement => statementKinds
  | .program => ["semi", "newline"] ++ statementKinds

/-- The kinds that a nonterminal can go on with. -/
def tail : Nonterminal → List TokenKind
  | .expression => operators.map (·.1)
  | .block => []
  | .statement | .program => "kw_else" :: operators.map (·.1)

end Syntax

/-- The grammar of the language, with the keywords of a vocabulary. -/
def grammar (vocabulary : Vocabulary) : Language Nonterminal where
  rules := Syntax.rules
  reserved word := (vocabulary.keywords.map (·.1)).contains word

/-- One token ahead decides in every rule of the language. -/
theorem clear_grammar (vocabulary : Vocabulary) :
    (grammar vocabulary).Clear Syntax.lead Syntax.tail := by
  have solid (name) : (Syntax.rules name).nullable = false := by cases name <;> decide +kernel
  have leads (name) : (Syntax.rules name).first Syntax.lead ⊆ Syntax.lead name := by
    cases name <;> decide +kernel
  have tails (name) : (Syntax.rules name).carries Syntax.lead Syntax.tail ⊆ Syntax.tail name := by
    cases name <;> decide +kernel
  have clear (name) : (Syntax.rules name).clear Syntax.lead Syntax.tail = true := by
    cases name <;> decide +kernel
  exact ⟨solid, leads, tails, clear⟩

end Grammatic.Script
