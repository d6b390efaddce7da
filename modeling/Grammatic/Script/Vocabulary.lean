import Grammatic.Lexer.Spelling

/-!
# Vocabularies of the scripting language

The tokens of the scripting language, and its two vocabularies. English keywords are read as names
and then told apart by the keyword table. Chinese is written without spaces between words, so the
Chinese keywords get patterns of their own, and names end where a keyword starts; the table still
declares the vocabulary, whose spellings are reserved.
-/

namespace Grammatic.Script

/-- The patterns of the language, the same for both vocabularies. -/
def patterns : List (String × String) := [
  ("spaces", "\\ +"),
  ("tabs", "\\t+"),
  ("newline", "\\r?\\n"),
  ("comment", "\\#[^\\n]*"),
  ("number", "\\d+(?:\\.\\d+)?(?:[eE][+-]?\\d+)?"),
  ("name", "[^\\W\\d]\\w*"),
  ("string", "\"(?:[^\\\\\"\\n]|\\\\.)*\""),
  ("paren_o", "\\("),
  ("paren_c", "\\)"),
  ("brace_o", "\x7b"),
  ("brace_c", "\x7d"),
  ("comma", ","),
  ("semi", ";"),
  ("eq2", "=="),
  ("eq", "="),
  ("exclaim_eq", "!="),
  ("exclaim", "!"),
  ("le", "<="),
  ("lt", "<"),
  ("ge", ">="),
  ("gt", ">"),
  ("amp2", "&&"),
  ("pipe2", "\\|\\|"),
  ("plus", "\\+"),
  ("dash", "-"),
  ("star", "\\*"),
  ("slash", "/"),
  ("percent", "%")]

/-- Kinds that separate tokens and are not handed on. -/
def dropped : List TokenKind := ["spaces", "tabs", "comment"]

/-- The keywords of a language, each with the kind of its tokens. -/
structure Vocabulary where
  keywords : List (String × TokenKind)
  /-- The pattern table of a lexer for the vocabulary. -/
  table : List (String × String)

/-- Keywords in English. -/
def english : Vocabulary where
  keywords := [
    ("if", "kw_if"),
    ("else", "kw_else"),
    ("while", "kw_while"),
    ("for", "kw_for"),
    ("break", "kw_break"),
    ("import", "kw_import"),
    ("true", "true"),
    ("false", "false"),
    ("null", "null")]
  table := patterns

/-- Keywords in Chinese, with two spellings of operators. -/
def chineseKeywords : List (String × TokenKind) := [
  ("如果", "kw_if"),
  ("那么", "kw_else"),
  ("循环", "kw_while"),
  ("计次循环", "kw_for"),
  ("跳出语句", "kw_break"),
  ("导入", "kw_import"),
  ("真", "true"),
  ("假", "false"),
  ("空", "null"),
  ("与", "amp2"),
  ("或", "pipe2")]

/-- The Chinese vocabulary. -/
def chinese : Vocabulary where
  keywords := chineseKeywords
  table := Spelling.spelledPatterns patterns chineseKeywords

/-- The definition of the lexer of a vocabulary. -/
def Vocabulary.lexerSpec (vocabulary : Vocabulary) : LexerSpec where
  patterns := vocabulary.table.map fun (kind, text) => (kind, (text : Datum))
  keywords := vocabulary.keywords.map fun (text, kind) => (text, (kind : Datum))
  drop := dropped

end Grammatic.Script
