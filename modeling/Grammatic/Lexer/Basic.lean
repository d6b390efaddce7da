import Grammatic.Datum
import Grammatic.StringSet
import Grammatic.Token.Basic
import Grammatic.Pattern.Match
import Grammatic.Pattern.Reader

/-!
# Lexers

A lexer splits a text by an ordered table of named patterns. The texts of the patterns, each as a
group with its name, are joined to one text of alternatives. At each place the leftmost match of the
joined pattern is taken, and of several at one place that of the alternative that stands first; the
name of the group that closed last is the kind of the token. Text that nothing matches becomes an
invalid token. A keyword table gives tokens of one kind a kind of their own by their text.

`Lexer.define` checks a definition, each pattern by itself first and then the joined text, because
what a pattern is by itself need not be its part in the joined text: a comment that ends a pattern
goes on up to the next newline. `Lexer.lex` splits a text. A match without characters stops the
splitting, because it would never get further.
-/

namespace Grammatic

/-- A named pattern of a lexer. -/
structure LexPattern where
  kind : TokenKind
  /-- The text of the pattern, as the group that carries its name. -/
  text : String
  /-- What the text is by itself. -/
  pattern : Pattern
  deriving DecidableEq, Repr

/-- What a lexer is defined by. -/
structure LexerSpec where
  flags : String := ""
  patterns : List (String × Datum)
  keywords : List (String × Datum) := []
  keywordKind : TokenKind := "name"
  drop : List String := []

/-- A lexer whose definition has been checked. -/
structure Lexer where
  flags : Flags
  patterns : List LexPattern
  /-- What the joined texts of the patterns are. -/
  pattern : Pattern
  keywords : List (String × TokenKind)
  keywordKind : TokenKind
  drop : StringSet
  deriving DecidableEq, Repr

/-- Why a definition is no lexer. -/
inductive LexerError where
  | unknownFlag (letter : Char)
  | noPatterns
  | badName (name : Datum)
  | reservedName (name : String)
  | invalidTaken (name : String)
  | patternNotText (name : String) (value : Datum)
  | badPattern (name text : String)
  | repeatTooLarge
  /-- A text of patterns goes beyond the language of patterns. -/
  | unsupported (text : String)
  | conflictingGroup (name group : String)
  /-- The joined texts of the patterns are no pattern, as when two have a group of one name. -/
  | badJoin
  | unknownKeywordKind (kind : String)
  | emptyKeyword (kind : String)
  | unknownDrop (kind : String)

namespace LexerError

/-- The wording of a refusal; that of the joined texts has none of its own. -/
def message : LexerError → String
  | .unknownFlag letter => "invalid global regex flag: " ++ letter.toString
  | .noPatterns => "Lexer instance must define at least one pattern"
  | .badName name => "invalid name: " ++ name.shown
  | .reservedName name => "name is reserved: " ++ Text.quoted name
  | .invalidTaken name =>
    Text.quoted name ++ " pattern name collides with the invalid token name"
  | .patternNotText name value =>
    Text.quoted name ++ " pattern value must be a string; found " ++ value.shown
  | .badPattern name text => Text.quoted name ++ " pattern is invalid: " ++ text
  | .repeatTooLarge => "the repetition number is too large"
  | .unsupported text => "pattern goes beyond the language of patterns: " ++ text
  | .conflictingGroup name group =>
    Text.quoted name ++ " pattern contains a conflicting capture group name: " ++ Text.quoted group
  | .badJoin => ""
  | .unknownKeywordKind kind => "keyword kind is not a pattern name: " ++ Text.quoted kind
  | .emptyKeyword kind => "empty keyword for kind: " ++ Text.quoted kind
  | .unknownDrop kind => "drop kind is not a pattern name: " ++ Text.quoted kind

end LexerError

/-- Why the splitting of a text stops. -/
inductive LexFault where
  /-- A match at a position has no characters. -/
  | emptyMatch (kind : Option TokenKind) (position : Nat)
  /-- The group that closed last has no name. -/
  | unnamedMatch
  deriving DecidableEq, Repr

/-- The wording of a fault. -/
def LexFault.message : LexFault → String
  | .emptyMatch kind position =>
    "Zero-length patterns are disallowed.\n  kind: " ++ kind.getD "None" ++
      "; match: <re.Match object; span=(" ++ toString position ++ ", " ++ toString position ++
      "), match=''>"
  | .unnamedMatch => ""

namespace Lexer

/-- The name in a piece of data: a text of the form of a name, and not that of the end token. -/
def validName (name : Datum) : Except LexerError String :=
  match name.text? with
  | none => .error (.badName name)
  | some text =>
    if Text.isName text = false then .error (.badName name)
    else if text = Token.endOfText then .error (.reservedName text)
    else .ok text

/-- The flags of a text of flag letters. -/
def readFlags (letters : String) : Except LexerError Flags :=
  letters.toList.foldlM (fun flags letter =>
    match flags.switchOn letter with
    | some flags => .ok flags
    | none => .error (.unknownFlag letter)) {}

/-- The text of a pattern as the group that carries its name. -/
def groupText (name text : String) : String :=
  "(?P<" ++ name ++ ">" ++ text ++ ")"

/-- Why a text that cannot be read is refused; `bad` is said of one that is no pattern. -/
def refusalOf (text : String) (bad : LexerError) : PatternError → LexerError
  | .repeatTooLarge => .repeatTooLarge
  | .unsupported => .unsupported text
  | _ => bad

/-- Checks one pattern of a table with the given names. -/
def checkPattern (flags : Flags) (names : List String) (name : String) (value : Datum) :
    Except LexerError LexPattern := do
  let name ← validName name
  if name = Token.invalid then throw (.invalidTaken name)
  match value.text? with
  | none => throw (.patternNotText name value)
  | some text =>
    let text := groupText name text
    if flags.conflict then throw (.badPattern name text)
    match Pattern.read flags text with
    | .error e => throw (refusalOf text (.badPattern name text) e)
    | .ok (pattern, groups) =>
      match groups.find? fun group => group ∈ names ∧ group ≠ name with
      | some group => throw (.conflictingGroup name group)
      | none => return ⟨name, text, pattern⟩

/-- The texts of patterns as alternatives, in their order. -/
def joinedText (patterns : List LexPattern) : String :=
  "|".intercalate (patterns.map (·.text))

/-- The pattern that the joined texts of patterns are. -/
def join (flags : Flags) (patterns : List LexPattern) : Except LexerError Pattern :=
  match Pattern.read flags (joinedText patterns) with
  | .ok (pattern, _) => .ok pattern
  | .error e => .error (refusalOf (joinedText patterns) .badJoin e)

/-- Checks one entry of a keyword table. -/
def checkKeyword (entry : String × Datum) : Except LexerError (String × TokenKind) := do
  let kind ← validName entry.2
  if entry.1 = "" then throw (.emptyKeyword kind)
  return (entry.1, kind)

/-- Checks the keyword table, if there is one. -/
def checkKeywords (names : List String) (keywordKind : String) (entries : List (String × Datum)) :
    Except LexerError (List (String × TokenKind)) := do
  if entries ≠ [] ∧ keywordKind ∉ names then throw (.unknownKeywordKind keywordKind)
  entries.mapM checkKeyword

/-- Checks the kinds to drop. -/
def checkDrop (names : List String) (drop : List String) : Except LexerError StringSet :=
  let drop := StringSet.ofList drop
  match drop.toList.find? (· ∉ names) with
  | some kind => .error (.unknownDrop kind)
  | none => .ok drop

/-- The lexer of a definition. -/
def define (spec : LexerSpec) : Except LexerError Lexer := do
  let flags ← readFlags spec.flags
  if spec.patterns = [] then throw .noPatterns
  let names := spec.patterns.map (·.1)
  let patterns ← spec.patterns.mapM fun (name, value) => checkPattern flags names name value
  let pattern ← join flags patterns
  let keywords ← checkKeywords names spec.keywordKind spec.keywords
  let drop ← checkDrop names spec.drop
  return { flags, patterns, pattern, keywords, keywordKind := spec.keywordKind, drop }

/-- The kinds that a lexer knows: those of its patterns and its keywords, the invalid kind, and that
of the end token. -/
def kinds (lexer : Lexer) : StringSet :=
  StringSet.ofList
    (lexer.patterns.map (·.kind) ++ lexer.keywords.map (·.2) ++ [Token.invalid, Token.endOfText])

/-- The kind of a match with a text: that of the keyword, if the match is one. -/
def kindOf (lexer : Lexer) (kind : TokenKind) (text : String) : TokenKind :=
  if kind = lexer.keywordKind then (lexer.keywords.lookup text).getD kind else kind

/-- The token of the next characters at a place, and the place behind it. -/
def tokenOf (kind : String → TokenKind) (cursor : Cursor) (count : Nat) : Token × Cursor :=
  let text := cursor.rest.take count
  let token := Token.ofText (kind (String.ofList text)) (String.ofList text) cursor.position
  (token, ⟨text.reverse ++ cursor.before, cursor.rest.drop count, cursor.position + count⟩)

/-- The next token at a place before the end of a text, and the place behind it. -/
def step (lexer : Lexer) (cursor : Cursor) : Except LexFault (Token × Cursor) :=
  match lexer.pattern.search lexer.flags cursor with
  | none => .ok (tokenOf (fun _ => Token.invalid) cursor cursor.rest.length)
  | some (0, found) =>
    if found.cursor.position = cursor.position then
      .error (.emptyMatch found.lastGroup cursor.position)
    else
      match found.lastGroup with
      | none => .error .unnamedMatch
      | some kind =>
        .ok (tokenOf (lexer.kindOf kind) cursor (found.cursor.position - cursor.position))
  | some (skipped, _) => .ok (tokenOf (fun _ => Token.invalid) cursor skipped)

/-- The tokens of a text up to its end, or up to a fault. -/
structure Lexed where
  tokens : List Token
  fault : Option LexFault
  deriving DecidableEq, Repr

/-- All tokens from a place on. Every token consumes a character, so `budget` runs out only when the
text does. -/
def scan (lexer : Lexer) : Nat → Cursor → Lexed
  | 0, _ => ⟨[], none⟩
  | budget + 1, cursor =>
    if cursor.rest = [] then ⟨[], none⟩
    else
      match lexer.step cursor with
      | .error fault => ⟨[], some fault⟩
      | .ok (token, cursor) =>
        let more := lexer.scan budget cursor
        ⟨token :: more.tokens, more.fault⟩

/-- All tokens of a text. -/
def tile (lexer : Lexer) (text : String) : Lexed :=
  lexer.scan text.toList.length (Cursor.start text.toList)

/-- The tokens of a text that are of no dropped kind, with an end token behind them on request. -/
def lex (lexer : Lexer) (text : String) (dropped : TokenKind → Bool := lexer.drop.contains)
    (endToken : Bool := false) : Lexed :=
  let tiled := lexer.tile text
  let kept := tiled.tokens.filter fun token => !dropped token.kind
  if endToken && tiled.fault.isNone then
    ⟨kept ++ [.mark Token.endOfText text.toList.length], none⟩
  else ⟨kept, tiled.fault⟩

/-- The kinds of the tokens of a text, for a lexer with verbose patterns. -/
private def verboseKinds (patterns : List (String × Datum)) (text : String) : List TokenKind :=
  match define { flags := "x", patterns } with
  | .error _ => []
  | .ok lexer => (lexer.lex text).tokens.map (·.kind)

/-- A comment that ends a pattern takes the patterns behind it along, up to the next newline. -/
example : verboseKinds [("x", "a"), ("y", "b")] "ab" = ["x", "y"] ∧
    verboseKinds [("x", "a) # "), ("y", "b")] "ab" = ["x", Token.invalid] := by decide +kernel

end Lexer

end Grammatic
