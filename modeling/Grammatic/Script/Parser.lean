import Grammatic.Evaluation.Units
import Grammatic.Script.Grammar
import Grammatic.Script.Tree
import Grammatic.Script.Vocabulary

/-!
# Parsing scripts

A script parser is the compiled grammar of the scripting language with the lexer of a vocabulary.
It reads a source as a series of program units, of which the empty statements can be left out.
-/

namespace Grammatic.Script

/-- The compiled grammar of the language for a vocabulary. -/
structure ScriptParser where
  store : Store
  grammar : Grammar
  entries : Entries
  parser : Grammatic.Parser

/-- Why there is no parser for a vocabulary. -/
inductive SetupError where
  | lexer (error : LexerError)
  /-- With the store in which the definition was refused. -/
  | grammar (store : Store) (error : DefinitionError)

/-- The wording of a refusal. -/
def SetupError.message : SetupError → String
  | .lexer error => error.message
  | .grammar store error => error.message store

/-- The lexer of a vocabulary. -/
def Vocabulary.lexer (vocabulary : Vocabulary) : Except LexerError Lexer :=
  Lexer.define vocabulary.lexerSpec

namespace ScriptParser

/-- The parser that a definition leaves behind. -/
def ofResult :
    EStateM.Result DefinitionError Store (Entries × Grammatic.Parser) → Except SetupError ScriptParser
  | .ok (entries, parser) store =>
    match store.grammars[parser.grammar]? with
    | some grammar => .ok { store, grammar, entries, parser }
    | none => .error (.grammar store (.unknownItem parser.grammar))
  | .error e store => .error (.grammar store e)

/-- The parser for a lexer. -/
def ofLexer (lexer : Lexer) : Except SetupError ScriptParser :=
  ofResult ((define lexer).run {})

/-- The parser for a vocabulary. -/
def ofVocabulary (vocabulary : Vocabulary) : Except SetupError ScriptParser :=
  match vocabulary.lexer with
  | .ok lexer => ofLexer lexer
  | .error e => .error (.lexer e)

/-- The tokens of a source. -/
def tokens (script : ScriptParser) (source : Source) : Except TokensError TokenBuffer :=
  script.parser.tokens script.store source

/-- The setting in which script trees are made of tokens. -/
def setting (script : ScriptParser) (buffer : TokenBuffer) : Setting Value BuildError :=
  { store := script.store, grammar := script.grammar, factory := trees, buffer }

/-- One program unit at a position. -/
def unit (script : ScriptParser) (buffer : TokenBuffer) (position : Nat) :
    Units Value BuildError :=
  (script.setting buffer).unit script.parser.root position

/-- All program units of the tokens, with the empty statements that separators make. -/
def units (script : ScriptParser) (buffer : TokenBuffer) : Units Value BuildError :=
  (script.setting buffer).units script.parser.root 0

/-- All program units but the empty statements. -/
def statements (script : ScriptParser) (buffer : TokenBuffer) : Units Value BuildError :=
  let units := script.units buffer
  { units with values := units.values.filter fun unit => !isNullStatement unit.1 }

end ScriptParser

end Grammatic.Script
