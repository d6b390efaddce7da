import Grammatic.Proofs.Evaluation.Units
import Grammatic.Proofs.Grammar.EndMark
import Grammatic.Proofs.Script.Setup

/-!
# Every text is read to its end or to an error

The lexers of scripts split every text, and every token that a rule reads as a literal can be read, but for
one kind of tokens: a number of digits alone that is too long. So a script parser comes to the end of a text
or to an error, unless it comes to such a number where a rule reads it; then it stops with a fault
(`units_complete_iff`).

A text of nothing but digits is such a number, if there are enough of them (`units_digits`).
-/

namespace Grammatic.Script

open Relation (ReflTransGen)
open Setting (Enters)

/-- The evaluation of a rule at a position comes to a token that is read as a number, and is a run of
digits that is too long. -/
def ScriptParser.ComesToOverlong (script : ScriptParser) (buffer : TokenBuffer) (id : RuleId)
    (start : Nat) : Prop :=
  ∃ reached position rule, ReflTransGen (Enters (script.setting buffer)) (id, start) (reached, position) ∧
    script.store.rules[reached]? = some rule ∧ rule.literal = some .number ∧
      (script.setting buffer).accepts rule (buffer.peek position) = true ∧
        Numeral.overlong (buffer.peek position).text.toList = true

variable {script : ScriptParser} {vocabulary : Vocabulary} {lexer : Lexer} {buffer : TokenBuffer}
  {source : Source}

/-! ## Tokens -/

/-- The tokens of a text, for every text. -/
theorem tokens_of_lexes (conforms : script.Conforms vocabulary) (isLexer : script.parser.lexer = some lexer)
    (lexes : LexesScripts lexer vocabulary) (source : Source) :
    script.tokens source = .ok (.ofTokens
      (lexer.kept source.text ++ [.mark Token.endOfText source.length]) (some source)) := by
  rw [ScriptParser.tokens, Parser.tokens_of_lexer isLexer _ (Lexer.tile_fault_eq_none lexes.table _),
    conforms.endKind]

/-- The number tokens of a text are decimals. -/
theorem decimal_of_tokens (lexes : LexesScripts lexer vocabulary) {token : Token}
    (mem : token ∈ (TokenBuffer.ofTokens (lexer.kept source.text ++
      [.mark Token.endOfText source.length]) (some source)).toList)
    (number : token.kind = "number") : Numeral.Decimal token.text.toList := by
  rw [toList_ofTokens_marked, if_pos rfl, List.mem_append, List.mem_singleton] at mem
  rcases mem with mem | rfl
  · exact lexes.decimal (Lexer.mem_tile_of_mem_kept mem) number
  · have other : Token.endOfText ≠ "number" := by decide
    exact absurd number other

theorem readNumber_of_decimal {token : Token} (decimal : Numeral.Decimal token.text.toList) :
    (Numeral.overlong token.text.toList = true ∧
      Literal.number.value token = .error (.tooManyDigits token.text.toList.length)) ∨
    (Numeral.overlong token.text.toList = false ∧ ∃ value, Literal.number.value token = .ok value) := by
  have cases := Literal.readNumber_cases decimal
  rwa [String.ofList_toList] at cases

/-! ## Faults -/

section Faults

variable (conforms : script.Conforms vocabulary)

include conforms

/-- At the end of a text there is no number. -/
theorem not_comesToOverlong_of_atEnd (endKind : buffer.endKind = Token.endOfText) {id : RuleId}
    {start : Nat} (ended : buffer.atEnd start = true) : ¬ script.ComesToOverlong buffer id start := by
  rintro ⟨reached, position, rule, path, found, number, accepted, -⟩
  have mem := Array.mem_of_getElem? found
  have isNumber := conforms.kind_eq_number_of_accepts mem number accepted
  have reaches : buffer.Reaches start position := Setting.reaches_of_entered path
  obtain rfl : position = start :=
    Nat.le_antisymm (Nat.le_trans reaches.2 (TokenBuffer.endFrom_le (Nat.le_refl _) ended)) reaches.1
  rw [TokenBuffer.atEnd, decide_eq_true_eq, endKind, isNumber] at ended
  exact absurd ended (by decide)

/-- An evaluation that comes to a number that cannot be read stops with that fault. -/
theorem gives_fault_of_unread (endKind : buffer.endKind = Token.endOfText) {id reached : RuleId}
    {start position : Nat} {rule : Rule} {error : NumeralError}
    (path : ReflTransGen (Enters (script.setting buffer)) (id, start) (reached, position))
    (found : script.store.rules[reached]? = some rule) (number : rule.literal = some .number)
    (accepted : (script.setting buffer).accepts rule (buffer.peek position) = true)
    (unread : Literal.number.value (buffer.peek position) = .error error) :
    (script.setting buffer).Gives id start (.fault (.literal error) (buffer.advance position)) := by
  obtain ⟨terminal, -⟩ := conforms.terminal_of_literal (Array.mem_of_getElem? found) number
  refine Setting.gives_fault_of_entered ?_ ?_ path
    (Setting.gives_fault_of_unread found terminal number accepted unread)
  · intro id start
    exact Setting.ends_of_evaluateWithin (conforms.ends endKind id start)
  · intro rule mem kind children
    exact conforms.exists_node mem children (.inr (.inr kind))

/-- A number token at the start of a unit that cannot be read is the fault of the unit. -/
theorem evaluate_of_unread (endKind : buffer.endKind = Token.endOfText) {start : Nat}
    {error : NumeralError} (isNumber : (buffer.peek start).kind = "number")
    (unread : Literal.number.value (buffer.peek start) = .error error) :
    (script.setting buffer).evaluate script.parser.root start =
      .fault (.literal error) (buffer.advance start) := by
  obtain ⟨id, rule, found, reads, leads⟩ := conforms.numbers
  simp only [readsNumber, Bool.and_eq_true, decide_eq_true_eq] at reads
  obtain ⟨⟨⟨-, number⟩, takes⟩, free⟩ := reads
  have accepted : (script.setting buffer).accepts rule (buffer.peek start) = true := by
    rw [Setting.accepts, isNumber, takes, free]
    rfl
  have path : ReflTransGen (Enters (script.setting buffer)) (script.parser.root, start) (id, start) :=
    Setting.entered_of_leadsTo leads isNumber
  exact (gives_fault_of_unread conforms endKind path found number accepted unread).eq_of_ne
    (conforms.ends endKind _ _)

variable (decimals : ∀ token ∈ buffer.toList, token.kind = "number" → Numeral.Decimal token.text.toList)

include decimals

/-- The fault of an evaluation is a number that is too long. -/
theorem comesToOverlong_of_fault {id : RuleId} {start next : Nat} {cause : Fault BuildError}
    (valid : id < script.store.rules.size)
    (gives : (script.setting buffer).Gives id start (.fault cause next)) :
    script.ComesToOverlong buffer id start ∧ ∃ count, cause = .literal (.tooManyDigits count) := by
  obtain ⟨⟨reached, position⟩, path, breaks⟩ := gives.exists_breaks
  have valid' : reached < script.store.rules.size := Setting.lt_size_of_entered path valid
  have found := Array.getElem?_eq_getElem valid'
  have mem := Array.getElem_mem valid'
  rcases breaks.of_complete found (conforms.complete mem) with
    ⟨literal, error, rfl, _, isLiteral, accepted, unread⟩ | ⟨children, error, _, makes, refused⟩
  · have number : literal = .number := by
      by_contra other
      obtain ⟨value, read⟩ := exists_literal_value other (buffer.peek position)
      cases unread.symm.trans read
    subst number
    have decimal := decimals _ (buffer.peek_mem_toList position)
      (conforms.kind_eq_number_of_accepts mem isLiteral accepted)
    rcases readNumber_of_decimal decimal with ⟨overlong, unread'⟩ | ⟨-, value, read⟩
    · have same : error = _ := Except.error.inj (unread.symm.trans unread')
      exact ⟨⟨reached, position, _, path, found, isLiteral, accepted, overlong⟩, _, by rw [same]⟩
    · cases unread.symm.trans read
  · obtain ⟨node, made⟩ : ∃ node, trees.node _ children = .ok node := by
      apply conforms.exists_node mem
      cases makes with
      | literal kind isLiteral _ => exact .inl ⟨kind, isLiteral, rfl⟩
      | captured kind tagged => exact .inr (.inl ⟨kind, tagged⟩)
      | operator kind => exact .inr (.inr kind)
    cases refused.symm.trans made

variable (endKind : buffer.endKind = Token.endOfText)

include endKind

/-- An evaluation that comes to a number that is too long stops with a fault. -/
theorem fault_of_comesToOverlong {id : RuleId} {start : Nat}
    (comes : script.ComesToOverlong buffer id start) :
    ∃ count next, (script.setting buffer).Gives id start (.fault (.literal (.tooManyDigits count)) next) := by
  obtain ⟨reached, position, rule, path, found, number, accepted, overlong⟩ := comes
  have decimal := decimals _ (buffer.peek_mem_toList position)
    (conforms.kind_eq_number_of_accepts (Array.mem_of_getElem? found) number accepted)
  rcases readNumber_of_decimal decimal with ⟨-, unread⟩ | ⟨short, -⟩
  · exact ⟨_, _, gives_fault_of_unread conforms endKind path found number accepted unread⟩
  · cases overlong.symm.trans short

/-- Units stop at the end of the tokens or in an error, or they come to a number that is too long and stop
with a fault. -/
theorem stop_cases :
    let units := script.units buffer
    let comes := script.ComesToOverlong buffer script.parser.root (units.behind 0)
    ((units.stop = .done ∨ ∃ error, units.stop = .error error) ∧ ¬ comes) ∨
      ((∃ count, units.stop = .fault (.literal (.tooManyDigits count))) ∧ comes) := by
  intro units
  obtain ⟨-, stops⟩ := (script.setting buffer).stop_units script.parser.root 0
  change units.stop = (script.setting buffer).stopAt script.parser.root (units.behind 0) at stops
  rw [stops]
  generalize units.behind 0 = position
  intro comes
  rcases Setting.stopAt_cases (conforms.ends endKind script.parser.root position) with
    decided | ⟨cause, next, evaluated, faulted⟩
  · refine .inl ⟨decided, ?_⟩
    -- the fault would leave the root, and be how the units stop
    intro coming
    obtain ⟨count, next, gives⟩ := fault_of_comesToOverlong conforms decimals endKind coming
    have inside : buffer.atEnd position = false := eq_false_of_ne_true fun ended =>
      not_comesToOverlong_of_atEnd conforms endKind ended coming
    have faulted := Setting.stopAt_eq_fault_iff.mpr
      ⟨inside, next, gives.eq_of_ne (conforms.ends endKind _ _)⟩
    rcases decided with done | ⟨error, failed⟩
    · cases done.symm.trans faulted
    · cases failed.symm.trans faulted
  · obtain ⟨coming, count, rfl⟩ := comesToOverlong_of_fault conforms decimals conforms.root_lt_size
      (Setting.gives_of_evaluate evaluated (by simp))
    exact .inr ⟨⟨count, faulted⟩, coming⟩

end Faults

/-! ## Digits -/

theorem kept_digits (lexes : LexesScripts lexer vocabulary) {text : List Char} (nonempty : text ≠ [])
    (all : ∀ c ∈ text, c ∈ basicDigits) :
    lexer.kept (String.ofList text) = [.ofText "number" (String.ofList text) 0] := by
  have undropped : (StringSet.ofList dropped).contains "number" = false := by decide +kernel
  have kind : (Token.ofText "number" (String.ofList text) 0).kind = "number" := rfl
  simp [Lexer.kept, lexes.tile_digits nonempty all, lexes.drop, kind, undropped]

/-- A text of digits is one number token. -/
theorem tokens_digits (conforms : script.Conforms vocabulary) (isLexer : script.parser.lexer = some lexer)
    (lexes : LexesScripts lexer vocabulary) (name : String) {text : List Char} (nonempty : text ≠ [])
    (all : ∀ c ∈ text, c ∈ basicDigits) :
    let source := Source.ofText name (String.ofList text)
    ∃ buffer, script.tokens source = .ok buffer ∧ buffer.endKind = Token.endOfText ∧
      buffer.toList = [.ofText "number" source.text 0, .mark Token.endOfText source.length] := by
  intro source
  have kept : lexer.kept source.text = [.ofText "number" source.text 0] := kept_digits lexes nonempty all
  refine ⟨_, tokens_of_lexes conforms isLexer lexes _, TokenBuffer.endKind_ofTokens _ _ _, ?_⟩
  rw [toList_ofTokens_marked, kept]
  rfl

/-- A text of too many digits has one token, and the first unit stops at it with a fault. -/
theorem units_digits (known : vocabulary = english ∨ vocabulary = chinese) :
    ∃ script, ScriptParser.ofVocabulary vocabulary = .ok script ∧
      ∀ (name : String) (text : List Char), (∀ c ∈ text, c ∈ basicDigits) →
        Numeral.digitLimit < text.length →
        ∃ buffer, script.tokens (.ofText name (String.ofList text)) = .ok buffer ∧
          buffer.peek 0 = .ofText "number" (String.ofList text) 0 ∧
          script.units buffer = .ended (.fault (.literal (.tooManyDigits text.length))) 1 := by
  obtain ⟨bare, lexer, _, lexes, made, conforms⟩ := exists_bare known
  replace conforms := conforms.withLexer lexer
  refine ⟨_, made, fun name text all long => ?_⟩
  have nonempty : text ≠ [] := by
    rintro rfl
    exact absurd long (Nat.not_lt_zero _)
  obtain ⟨buffer, tokens, endKind, list⟩ :=
    tokens_digits conforms rfl lexes name nonempty all
  let token := Token.ofText "number" (String.ofList text) 0
  have first : buffer.peek 0 = token := by
    rw [TokenBuffer.peek_eq_getD, list]
    rfl
  have isNumber : token.kind = "number" := rfl
  have other : token.kind ≠ Token.endOfText := by
    rw [isNumber]
    decide
  have inside : buffer.atEnd 0 = false := by
    rw [TokenBuffer.atEnd, first, endKind]
    exact decide_eq_false other
  have behind : buffer.advance 0 = 1 := by
    rw [TokenBuffer.advance, first, endKind, if_neg other]
  have unread : Literal.number.value (buffer.peek 0) = .error (.tooManyDigits text.length) := by
    rw [first]
    exact Literal.readNumber_digits (digits_of_basic nonempty all) long
  have evaluated := evaluate_of_unread conforms endKind (first ▸ isNumber) unread
  rw [behind] at evaluated
  exact ⟨buffer, tokens, first, Setting.units_of_fault inside evaluated⟩

/-! ## Texts -/

/-- For both vocabularies, every text has tokens. A token that is of a kind of a literal can be read, unless
it is a number of digits alone that is too long. The units of the text end at its end or in an error, unless
they come to such a number where a rule reads it; then they stop with that fault. -/
theorem units_complete_iff (known : vocabulary = english ∨ vocabulary = chinese) :
    ∃ script, ScriptParser.ofVocabulary vocabulary = .ok script ∧
      ∀ source : Source, ∃ buffer, script.tokens source = .ok buffer ∧
        (∀ token ∈ buffer.toList, ∀ rule ∈ script.store.rules, ∀ literal, rule.literal = some literal →
          rule.kinds.contains token.kind = true →
            ((∃ value, literal.value token = .ok value) ↔
              ¬ (literal = .number ∧ Numeral.overlong token.text.toList = true))) ∧
        let units := script.units buffer
        let comes := script.ComesToOverlong buffer script.parser.root (units.behind 0)
        ((units.stop = .done ∨ ∃ error, units.stop = .error error) ↔ ¬ comes) ∧
          (comes → ∃ count, units.stop = .fault (.literal (.tooManyDigits count))) := by
  obtain ⟨bare, lexer, _, lexes, made, conforms⟩ := exists_bare known
  replace conforms := conforms.withLexer lexer
  refine ⟨_, made, fun source => ⟨_, tokens_of_lexes conforms rfl lexes source, ?_, ?_⟩⟩
  · intro token mem rule among literal isLiteral takes
    by_cases number : literal = .number
    · subst number
      have decimal := decimal_of_tokens lexes mem (conforms.kind_eq_number among isLiteral takes)
      rcases readNumber_of_decimal decimal with ⟨overlong, unread⟩ | ⟨short, read⟩
      · simp [overlong, unread]
      · simp [short, read]
    · simp [number, exists_literal_value number token]
  · rcases stop_cases conforms (fun token mem number => decimal_of_tokens lexes mem number)
      (TokenBuffer.endKind_ofTokens _ _ _) with ⟨decided, never⟩ | ⟨⟨count, faulted⟩, comes⟩
    · exact ⟨iff_of_true decided never, fun comes => absurd comes never⟩
    · refine ⟨iff_of_false ?_ (fun never => never comes), fun _ => ⟨count, faulted⟩⟩
      rintro (done | ⟨error, failed⟩)
      · cases done.symm.trans faulted
      · cases failed.symm.trans faulted

/-- A short number is read to the end of the text, or to an error. -/
theorem twelve_completes :
    ∃ script buffer, ScriptParser.ofVocabulary english = .ok script ∧
      script.tokens (.ofText "twelve" "12") = .ok buffer ∧
      ((script.units buffer).stop = .done ∨ ∃ error, (script.units buffer).stop = .error error) := by
  obtain ⟨script, made, completes⟩ := units_complete_iff (.inl (rfl : english = english))
  obtain ⟨buffer, tokens, -, decides, -⟩ := completes (.ofText "twelve" "12")
  refine ⟨script, buffer, made, tokens, decides.mpr ?_⟩
  obtain ⟨bare, lexer, _, lexes, made', conforms⟩ := exists_bare (.inl (rfl : english = english))
  obtain rfl := Except.ok.inj (made.symm.trans made')
  obtain ⟨digits, tokens', -, list⟩ :=
    tokens_digits (conforms.withLexer lexer) rfl lexes "twelve" (List.cons_ne_nil '1' ['2'])
      (by simp [basicDigits])
  obtain rfl : digits = buffer := Except.ok.inj (tokens'.symm.trans tokens)
  rintro ⟨_, position, _, _, _, _, _, overlong⟩
  have mem := digits.peek_mem_toList position
  rw [list] at mem
  generalize digits.peek position = token at mem overlong
  rcases List.mem_cons.mp mem with rfl | mem
  · exact absurd overlong (by decide +kernel)
  · obtain rfl := List.mem_singleton.mp mem
    cases overlong

/-- One digit too many is a fault, and neither the end of the text nor an error. -/
theorem ones_fault :
    ∃ script buffer, ScriptParser.ofVocabulary english = .ok script ∧
      script.tokens (.ofText "ones" (String.ofList (List.replicate 4301 '1'))) = .ok buffer ∧
      (script.units buffer).stop = .fault (.literal (.tooManyDigits 4301)) ∧
      ¬ ((script.units buffer).stop = .done ∨ ∃ error, (script.units buffer).stop = .error error) := by
  obtain ⟨script, made, faults⟩ := units_digits (.inl (rfl : english = english))
  have ones : ∀ c ∈ List.replicate 4301 '1', c ∈ basicDigits := by
    intro c mem
    rw [List.eq_of_mem_replicate mem]
    decide
  have length : (List.replicate 4301 '1').length = 4301 := List.length_replicate
  obtain ⟨buffer, tokens, -, units⟩ := faults "ones" (List.replicate 4301 '1') ones (by
    rw [length]
    decide)
  rw [length] at units
  refine ⟨script, buffer, made, tokens, by rw [units]; rfl, ?_⟩
  rw [units]
  rintro (done | ⟨error, failed⟩)
  · cases done
  · cases failed

end Grammatic.Script
