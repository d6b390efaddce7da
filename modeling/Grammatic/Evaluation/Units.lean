import Grammatic.Evaluation.Basic
import Grammatic.Grammar.Parser

/-!
# Parsing units

A text is parsed as a series of units of the root rule of a parser. Each unit starts where the one
before it ended, until the end token is reached, a unit fails, or a unit consumes nothing. A failure
that leaves the root rule is a parse error, which can be shown in the source of the tokens.
-/

namespace Grammatic

/-- An error in a text: the stretch of the token that did not fit, and a message. -/
structure ParseError where
  source? : Option Source
  span : Span
  message : String
  /-- The failure of the root rule, unless it matched without consuming anything. -/
  failure? : Option Failure

namespace ParseError

/-- The stretch of a token. -/
def spanOf (token : Token) : Span := ⟨token.start, token.stop⟩

/-- The error of a failure. -/
def ofFailure (buffer : TokenBuffer) (failure : Failure) : ParseError :=
  ⟨buffer.source?, spanOf failure.token, failure.message, some failure⟩

/-- The error of a unit that consumes nothing. -/
def noProgress (buffer : TokenBuffer) (position : Nat) : ParseError :=
  ⟨buffer.source?, spanOf (buffer.peek position),
    "root rule matched without consuming any tokens.", none⟩

/-- The text that shows an error, in its source if it has one. -/
def diagnostic (error : ParseError) : Except SourceError String :=
  let message := "parse error: " ++ error.message
  match error.source? with
  | none => .ok message
  | some source =>
    match (Source.diagnostic [some (error.span, message)]).run source with
    | .ok text _ => .ok text
    | .error e _ => .error e

end ParseError

/-- How a series of units ends. -/
inductive Stop (ε : Type) where
  /-- At the end token. -/
  | done
  | error (error : ParseError)
  | fault (fault : Fault ε)
  | exhausted

/-- A series of units, each with the position behind it, and how and where it ends. -/
structure Units (α ε : Type) where
  values : List (α × Nat)
  stop : Stop ε
  position : Nat

namespace Units

variable {α ε : Type}

/-- A series that has ended. -/
def ended (stop : Stop ε) (position : Nat) : Units α ε := ⟨[], stop, position⟩

/-- A series with one more unit at its start. -/
def cons (value : α) (position : Nat) (units : Units α ε) : Units α ε :=
  { units with values := (value, position) :: units.values }

end Units

namespace Setting

variable {α ε : Type}

/-- One unit of a rule at a position, which need not consume anything. -/
def unit (setting : Setting α ε) (root : RuleId) (position : Nat) : Units α ε :=
  match setting.evaluate root position with
  | .matched value next => .cons value next (.ended .done next)
  | .failed failure next => .ended (.error (.ofFailure setting.buffer failure)) next
  | .fault cause next => .ended (.fault cause) next
  | .exhausted => .ended .exhausted position

/-- The units of a rule from a position on. Each consumes a token, so the budget of rounds runs out
only when the tokens do. -/
def unitsWithin (setting : Setting α ε) (root : RuleId) : Nat → Nat → Units α ε
  | 0, position => .ended .exhausted position
  | budget + 1, position =>
    if setting.buffer.atEnd position then .ended .done position
    else
      match setting.evaluate root position with
      | .matched value next =>
        if next = position then
          .ended (.error (.noProgress setting.buffer position)) position
        else .cons value next (unitsWithin setting root budget next)
      | .failed failure next => .ended (.error (.ofFailure setting.buffer failure)) next
      | .fault cause next => .ended (.fault cause) next
      | .exhausted => .ended .exhausted position

/-- The units of a rule from a position to the end of the tokens. -/
def units (setting : Setting α ε) (root : RuleId) (position : Nat) : Units α ε :=
  setting.unitsWithin root (setting.buffer.size + 1) position

end Setting

/-- Why a parser makes no tokens of a text. -/
inductive TokensError where
  | noLexer
  | lexing (cause : LexFault)
  deriving DecidableEq, Repr

/-- The wording of a refusal. -/
def TokensError.message : TokensError → String
  | .noLexer => "Parser was constructed without a lexer."
  | .lexing cause => cause.message

namespace Parser

/-- The kind of the token that ends a text for a parser. -/
def endKind (parser : Parser) (store : Store) : TokenKind :=
  (store.grammars[parser.grammar]?.map (·.endKind)).getD Token.endOfText

/-- The tokens of a source, with the end token of the lexer and that of the grammar. -/
def tokens (parser : Parser) (store : Store) (source : Source) :
    Except TokensError TokenBuffer :=
  match parser.lexer with
  | none => .error .noLexer
  | some lexer =>
    let lexed := lexer.lex source.text lexer.drop.contains true
    match lexed.fault with
    | some cause => .error (.lexing cause)
    | none => .ok (.ofTokens lexed.tokens (some source) (parser.endKind store))

end Parser

end Grammatic
