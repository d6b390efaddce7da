import Grammatic.Lexer.Basic

/-!
# Spelled keywords

For a vocabulary whose words are written without spaces between them, every spelling gets a place in
the pattern table: spellings of a new kind become a pattern before the one of names, spellings of a
kind that has a pattern join it, and a name ends where a spelling starts. Longer spellings come
before shorter ones.
-/

namespace Grammatic.Spelling

/-- Characters that a pattern shows behind a backslash. -/
def escapedInPatterns : List Char :=
  "\t\n\x0b\x0c\r #$&()*+-.?[\\]^\x7b|\x7d~".toList

/-- The text of the pattern that matches just the given text. -/
def patternText (text : String) : String :=
  String.ofList (text.toList.flatMap fun c => if c ∈ escapedInPatterns then ['\\', c] else [c])

/-- Puts a spelling before the first one that is not longer. -/
def placeByLength (spelling : String × TokenKind) :
    List (String × TokenKind) → List (String × TokenKind)
  | [] => [spelling]
  | other :: rest =>
    if other.1.length ≤ spelling.1.length then spelling :: other :: rest
    else other :: placeByLength spelling rest

/-- The spellings of a keyword table, the longest first; those of one length keep their order. -/
def longestFirst (keywords : List (String × TokenKind)) : List (String × TokenKind) :=
  keywords.foldr placeByLength []

/-- Alternatives of patterns, as the text of one. -/
def alternatives (texts : List String) : String :=
  "|".intercalate texts

/-- The kinds of a list of spellings, each once, in the order in which they first occur. -/
def kindsOf (spellings : List (String × TokenKind)) : List TokenKind :=
  (spellings.map (·.2)).eraseDups

/-- The patterns of the spellings of a kind. -/
def patternsOfKind (spellings : List (String × TokenKind)) (kind : TokenKind) : List String :=
  (spellings.filter (·.2 = kind)).map fun s => patternText s.1

/-- The pattern of names that stop before any spelling. -/
def namePattern (spellings : List (String × TokenKind)) : String :=
  let anySpelling := alternatives (spellings.map fun s => patternText s.1)
  "(?:(?!" ++ anySpelling ++ ")[^\\W\\d])(?:(?!" ++ anySpelling ++ ")\\w)*"

/-- A pattern table in which the spellings of a keyword table have their places. -/
def spelledPatterns (patterns : List (String × String)) (keywords : List (String × TokenKind)) :
    List (String × String) :=
  let spellings := longestFirst keywords
  let known := patterns.map (·.1)
  let added := ((kindsOf spellings).filter (· ∉ known)).map fun kind =>
    (kind, alternatives (patternsOfKind spellings kind))
  patterns.flatMap fun (kind, text) =>
    if kind = "name" then added ++ [(kind, namePattern spellings)]
    else [(kind, alternatives (text :: patternsOfKind spellings kind))]

end Grammatic.Spelling
