import Grammatic.Text.Quoted

/-!
# Tokens

A token is a stretch of source text with its kind. The text stands on the token itself, so that a
stream of tokens can be built without any source.
-/

namespace Grammatic

/-- The name of a class of tokens. -/
abbrev TokenKind := String

/-- A token: its kind, its text, and the positions where it starts and stops. -/
structure Token where
  kind : TokenKind
  text : String
  start : Int
  stop : Int
  deriving DecidableEq, Repr, Inhabited

namespace Token

/-- The kind of the token that ends a text, unless a grammar names another. -/
def endOfText : TokenKind := "end_of_text"

/-- The kind of the text that no pattern of a lexer matches. -/
def invalid : TokenKind := "invalid"

/-- A token that starts at a position and is as long as its text. -/
def ofText (kind : TokenKind) (text : String) (start : Int) : Token :=
  ⟨kind, text, start, start + text.length⟩

/-- A token without text. -/
def mark (kind : TokenKind) (position : Int) : Token :=
  ⟨kind, "", position, position⟩

/-- A token without text behind another. -/
def endToken (token : Token) (kind : TokenKind) : Token :=
  mark kind token.stop

/-- The positions and the kind of a token. -/
def label (token : Token) : String :=
  toString token.start ++ "-" ++ toString token.stop ++ ":" ++ token.kind

/-- The text of a token that shows all its parts. -/
def shown (token : Token) : String :=
  "Token(" ++ Text.quoted token.kind ++ ", " ++ Text.quoted token.text ++ ", pos=" ++
    toString token.start ++ ", end=" ++ toString token.stop ++ ")"

end Token

end Grammatic
