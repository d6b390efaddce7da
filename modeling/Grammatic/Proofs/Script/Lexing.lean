import Grammatic.Proofs.Lexer.Definition
import Grammatic.Proofs.Lexer.Scanning
import Grammatic.Proofs.Number.Reading
import Grammatic.Proofs.Pattern.Spans
import Grammatic.Script.Parser

/-!
# The tokens of scripts

The lexers of both vocabularies split every text, and each token that they give the kind of numbers is a
decimal (`LexesScripts.decimal`), so it can be read unless it is too long. A text of digits alone is one
such token, however many there are (`LexesScripts.tile_digits`).

All that is used of a lexer for this is a list of facts (`LexesScripts`), which are checked once for each
vocabulary (`exists_lexer`).
-/

namespace Grammatic.Script

open Pattern (contains_range_self)

/-! ## The pattern of numbers -/

/-- A run of digits. -/
def digitsPattern : Pattern := .repeated true 1 none (.set ⟨false, [.ofClass .digit false]⟩)

/-- A point and digits, or nothing. -/
def fractionPattern : Pattern :=
  .repeated true 0 (some 1) (.seq (.set (.single '.')) digitsPattern)

/-- The mark of an exponent, a sign or none, and digits, or nothing. -/
def exponentPattern : Pattern :=
  .repeated true 0 (some 1) (.seq (.set ⟨false, [.range 'e' 'e', .range 'E' 'E']⟩)
    (.seq (.repeated true 0 (some 1) (.set ⟨false, [.range '+' '+', .range '-' '-']⟩)) digitsPattern))

/-- The pattern of number tokens. -/
def numberPattern : Pattern := .seq digitsPattern (.seq fractionPattern exponentPattern)

variable {text : List Char}

theorem digits_of_allows (allows : digitsPattern.Allows {} text) : Numeral.Digits text := by
  obtain ⟨texts, atLeast, -, all, rfl⟩ := allows
  constructor
  · intro none
    obtain ⟨part, mem⟩ := List.exists_mem_of_length_pos atLeast
    obtain ⟨c, -, rfl⟩ := all part mem
    exact absurd (List.flatten_eq_nil_iff.mp none [c] mem) (by simp)
  · intro c mem
    obtain ⟨part, listed, mem⟩ := List.mem_flatten.mp mem
    obtain ⟨d, contains, rfl⟩ := all part listed
    obtain rfl := List.mem_singleton.mp mem
    simpa [CharSet.contains, SetItem.contains, CharClass.contains] using contains

theorem fraction_of_allows (allows : fractionPattern.Allows {} text) : Numeral.Fraction text := by
  rcases allows.optional_cases with rfl | ⟨_, digits, ⟨c, isPoint, rfl⟩, isDigits, rfl⟩
  · exact .inl rfl
  · obtain rfl : c = '.' := by
      simpa [CharSet.contains, CharSet.single, contains_range_self] using isPoint
    exact .inr ⟨digits, digits_of_allows isDigits, rfl⟩

theorem exponent_of_allows (allows : exponentPattern.Allows {} text) : Numeral.Exponent text := by
  rcases allows.optional_cases with
    rfl | ⟨_, _, ⟨mark, isMark, rfl⟩, ⟨sign, digits, isSign, isDigits, rfl⟩, rfl⟩
  · exact .inl rfl
  · have isMark : mark = 'e' ∨ mark = 'E' := by
      simpa [CharSet.contains, contains_range_self] using isMark
    have isSign : sign = [] ∨ sign = ['+'] ∨ sign = ['-'] := by
      rcases isSign.optional_cases with rfl | ⟨c, contains, rfl⟩
      · exact .inl rfl
      · right
        simpa [CharSet.contains, contains_range_self] using contains
    exact .inr ⟨mark, sign, digits, isMark, isSign, digits_of_allows isDigits, rfl⟩

/-- The pattern of number tokens allows decimals only. -/
theorem decimal_of_allows (allows : numberPattern.Allows {} text) : Numeral.Decimal text := by
  obtain ⟨whole, _, isWhole, ⟨fraction, exponent, isFraction, isExponent, rfl⟩, rfl⟩ := allows
  exact ⟨whole, fraction, exponent, digits_of_allows isWhole, fraction_of_allows isFraction,
    exponent_of_allows isExponent, rfl⟩

/-- The pattern of number tokens takes all of a text of digits. -/
theorem run_numberPattern {next : Pattern.Continuation} {start result : Match}
    (isDigits : Numeral.Digits start.cursor.rest)
    (done : next ⟨start.cursor.toEnd, start.lastGroup⟩ = some result) :
    numberPattern.run {} next start = some result := by
  apply Pattern.run_repeated_set isDigits.1
  · intro c mem
    simpa [CharSet.contains, SetItem.contains, CharClass.contains] using isDigits.2 c mem
  · -- nothing is left for a fraction or an exponent
    exact done

/-! ## Lexers of scripts -/

/-- A lexer with the keywords of a vocabulary and the kinds of its tokens, which matches nothing. -/
def Vocabulary.bareLexer (vocabulary : Vocabulary) : Lexer where
  flags := {}
  patterns := vocabulary.table.map fun entry => ⟨entry.1, "", .empty⟩
  pattern := .empty
  keywords := vocabulary.keywords
  keywordKind := "name"
  drop := .ofList dropped

/-- The basic digits. -/
def basicDigits : List Char := ['0', '1', '2', '3', '4', '5', '6', '7', '8', '9']

theorem digits_of_basic (nonempty : text ≠ []) (all : ∀ c ∈ text, c ∈ basicDigits) :
    Numeral.Digits text := by
  have basic : basicDigits.all Text.isDigit = true := by decide +kernel
  exact ⟨nonempty, fun c mem => List.all_eq_true.mp basic c (all c mem)⟩

/-- What is used of a lexer that makes the tokens of scripts. -/
structure LexesScripts (lexer : Lexer) (vocabulary : Vocabulary) : Prop where
  flags : lexer.flags = {}
  keywords : lexer.keywords = vocabulary.bareLexer.keywords
  kinds : lexer.kinds = vocabulary.bareLexer.kinds
  keywordKind : lexer.keywordKind = "name"
  drop : lexer.drop = .ofList dropped
  table : lexer.pattern.isTable = true
  numbers : ∀ inner, .group (some "number") inner ∈ lexer.pattern.branches → inner = numberPattern
  /-- No keyword is a number. -/
  words : "number" ∉ lexer.keywords.map (·.2)
  leads : ∀ c ∈ basicDigits, lexer.pattern.leads {} c (.group (some "number") numberPattern) = true

/-- Checks the pattern that the texts of a table are together. -/
def matchesNumbers (pattern : Pattern) : Bool :=
  pattern.isTable &&
    pattern.branches.all (fun
      | .group (some label) inner => label ≠ "number" || inner = numberPattern
      | _ => true) &&
    basicDigits.all fun c => pattern.leads {} c (.group (some "number") numberPattern)

/-- Checks the lexer of a vocabulary. -/
def Vocabulary.lexes (vocabulary : Vocabulary) : Bool :=
  let spec := vocabulary.lexerSpec
  let names := spec.patterns.map (·.1)
  !spec.patterns.isEmpty &&
    spec.patterns.all (fun entry => (Lexer.checkPattern {} names entry.1 entry.2).isOk) &&
    (Pattern.readChars {} spec.joinedChars).toOption.any (fun read => matchesNumbers read.1) &&
    (Lexer.checkKeywords names spec.keywordKind spec.keywords).toOption = some vocabulary.keywords &&
    (Lexer.checkDrop names spec.drop).toOption = some (.ofList dropped) &&
    "number" ∉ vocabulary.keywords.map (·.2)

theorem exists_ok_of_any {α ε : Type} {result : Except ε α} {p : α → Bool}
    (any : result.toOption.any p = true) : ∃ value, result = .ok value ∧ p value = true := by
  cases result with
  | error _ => cases any
  | ok value => exact ⟨value, rfl, any⟩

/-- What the check of the lexer says. -/
theorem exists_lexer {vocabulary : Vocabulary} (lexes : vocabulary.lexes = true) :
    ∃ lexer, vocabulary.lexer = .ok lexer ∧ LexesScripts lexer vocabulary := by
  simp only [Vocabulary.lexes, Bool.and_eq_true, Bool.not_eq_true', List.isEmpty_eq_false_iff,
    List.all_eq_true, decide_eq_true_eq] at lexes
  obtain ⟨⟨⟨⟨⟨some, patterns⟩, joined⟩, words⟩, dropped⟩, plain⟩ := lexes
  obtain ⟨read, joined, numbers⟩ := exists_ok_of_any joined
  have words := eq_ok_of_toOption words
  have dropped := eq_ok_of_toOption dropped
  obtain ⟨checked, kinds, defined⟩ := Lexer.define_of_checks some rfl
    (fun entry mem => exists_ok_of_isOk (patterns entry mem)) joined words dropped
  simp only [matchesNumbers, Bool.and_eq_true, List.all_eq_true] at numbers
  obtain ⟨⟨table, numbers⟩, leads⟩ := numbers
  refine ⟨_, defined, ⟨rfl, rfl, ?_, rfl, rfl, table, ?_, plain, leads⟩⟩
  · simp only [Lexer.kinds, kinds, Vocabulary.bareLexer, Vocabulary.lexerSpec, List.map_map,
      Function.comp_def]
  · intro inner mem
    simpa using numbers _ mem

/-- The lexers of both vocabularies pass their check. -/
theorem lexes_of_known {vocabulary : Vocabulary} (known : vocabulary = english ∨ vocabulary = chinese) :
    vocabulary.lexes = true := by
  rcases known with rfl | rfl
  · decide +kernel
  · decide +kernel

namespace LexesScripts

variable {lexer : Lexer} {vocabulary : Vocabulary}

/-- The number tokens of a text are decimals. -/
theorem decimal (lexes : LexesScripts lexer vocabulary) {text : String} {token : Token}
    (mem : token ∈ (lexer.tile text).tokens) (number : token.kind = "number") :
    Numeral.Decimal token.text.toList := by
  rcases lexer.exists_group_of_mem_tile lexes.table mem with
    invalid | ⟨label, inner, chars, branch, allows, isText, kind⟩
  · exact absurd (number.symm.trans invalid) (by decide)
  · rcases lexer.kindOf_cases label token.text with same | keyword
    · obtain rfl : label = "number" := same.symm.trans (kind.symm.trans number)
      obtain rfl := lexes.numbers inner branch
      rw [isText, String.toList_ofList]
      rw [lexes.flags] at allows
      exact decimal_of_allows allows
    · rw [← kind, number] at keyword
      exact absurd keyword lexes.words

/-- A text of digits is one number token. -/
theorem tile_digits (lexes : LexesScripts lexer vocabulary) (nonempty : text ≠ [])
    (all : ∀ c ∈ text, c ∈ basicDigits) :
    lexer.tile (String.ofList text) = ⟨[.ofText "number" (String.ofList text) 0], none⟩ := by
  have kind : lexer.kindOf "number" (String.ofList text) = "number" := by
    rw [Lexer.kindOf, lexes.keywordKind, if_neg (by decide)]
  have matched : lexer.pattern.matchAt lexer.flags (.start text) =
      some ⟨(Cursor.start text).toEnd, some "number"⟩ := by
    obtain ⟨c, rest, rfl⟩ := List.exists_cons_of_ne_nil nonempty
    have isDigits : Numeral.Digits (Match.mk (.start (c :: rest)) none).cursor.rest :=
      digits_of_basic nonempty all
    rw [lexes.flags]
    apply Pattern.run_of_leads (lexes.leads c (all c List.mem_cons_self)) rfl
    rw [Pattern.run]
    exact run_numberPattern isDigits rfl
  rw [Lexer.tile_of_matchAt nonempty matched, kind]

end LexesScripts

end Grammatic.Script
