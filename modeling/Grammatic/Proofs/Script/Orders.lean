import Grammatic.Proofs.Evaluation.Mirroring
import Grammatic.Proofs.Grammar.Reordering
import Grammatic.Proofs.Script.Errors

/-!
# Ordered choice hides no alternative of scripts

The alternatives of primary expressions, factors, simple statements, statements and program units can be
named in any order, and scripts are read alike (`units_in_any_order`). The first token tells these
alternatives apart, so that one of them matches at most. It does not tell apart the clauses of a for
statement, of which one can be empty; these choices keep their order.

`Orders.define` is the grammar of the language with the alternatives of each choice in an order, and the
grammar itself in the given one (`Orders.define_given`). Its declarations go step by step with those of the
language, so that the stores that are compiled differ in the order of five alternations only.
-/

namespace Grammatic.Script

/-- The choices of the language in which the first token tells the alternatives apart. -/
inductive Choice where
  | primary
  | factor
  | simple
  | statement
  | program
  deriving DecidableEq, Repr

namespace Choice

/-- All choices. -/
def all : List Choice := [primary, factor, simple, statement, program]

/-- The alternation of a choice. Rules are numbered in the order in which they are declared. -/
def rule : Choice → RuleId
  | primary => 17
  | factor => 25
  | simple => 31
  | statement => 77
  | program => 81

/-- What is chosen from. -/
def form : Choice → Form Nonterminal
  | primary => Syntax.primary
  | factor => Syntax.factor
  | simple => Syntax.simple
  | statement => Syntax.statement
  | program => Syntax.program

end Choice

/-- In which order the alternatives of a choice are named. -/
abbrev Orders := Choice → List RuleId → List RuleId

namespace Orders

variable (orders : Orders)

/-- Literals, names, and expressions in parentheses, in some order. -/
def primary (expression string : RuleId) : Building RuleId := do
  let number ← rule untagged (Building.number · "NumberLiteral")
  let name ← rule untagged (Building.identifier · "Name")
  let truth ← rule untagged (Building.truth · "BoolLiteral")
  let null ← rule untagged (Building.null · "NullLiteral")
  let nested ← rule untagged fun r => do expect r "paren_o"; take r expression; expect r "paren_c"
  rule "PrimaryExpr" (choice · (orders .primary [nested, number, name, string, truth, null]))

/-- Primary expressions, negated once or not at all, in some order. -/
def factor (primary : RuleId) : Building RuleId := do
  let negative ← rule "NegativeExpr" fun r => do expect r "dash"; take r primary
  let not ← rule "NotExpr" fun r => do expect r "exclaim"; take r primary
  rule untagged (choice · (orders .factor [negative, not, primary]))

/-- The rules of the language, with the alternatives of each choice in its order. -/
def declare (table : TableId) : Building Entries := do
  let expression ← Building.newRule
  let statement ← Building.newRule
  let string ← rule untagged (Building.string · "StringLiteral")
  let factor ← orders.factor (← orders.primary expression string)
  Building.expression expression "BinaryExpr" (.item factor) (.item table)
  let importStatement ← rule "Import" fun r => do expect r "kw_import"; take r string
  let simple ← rule untagged (choice · (orders .simple [expression, importStatement]))
  let block ← block statement
  let conditional ← ifStatement expression block
  let loop ← whileStatement expression block
  let counted ← forStatement expression block
  let exit ← rule "BreakStmt" (expect · "kw_break")
  choice statement (orders .statement [conditional, loop, counted, exit, simple])
  let empty ← rule "NullStmt" separator
  let program ← rule untagged (choice · (orders .program [statement, empty]))
  return { expression, block, statement, program }

/-- The grammar of the language for a lexer, with the alternatives of each choice in its order. -/
def define (lexer : Lexer) : Building (Entries × Grammatic.Parser) := do
  let words ← Building.newWords (lexer.keywords.map (·.1))
  let table ← Building.newTable (operators.map fun (kind, precedence, assoc) =>
    (kind, .scalar (.int precedence), .assoc assoc))
  let grammar ← Building.newGrammar { words := .shared words, table }
  let entries ← orders.declare table
  return (entries, ← Building.compile grammar (.item entries.program) (some lexer))

/-- The order in which the alternatives of the language are tried. -/
def given : Orders := fun _ alternatives => alternatives

/-- In the given order it is the grammar of the language. -/
theorem define_given (lexer : Lexer) : given.define lexer = Script.define lexer := rfl

/-! ## Declaring in another order -/

section Declaring

open Building (Mirrored newRule_mirrored delimiter_mirrored capture_mirrored optional_mirrored
  repetition_mirrored literal_mirrored expression_mirrored)

variable {choices : List RuleId} {size size' : Nat}

theorem rule_mirrored (tag : Datum) {body body' : RuleId → Building Unit}
    (inside : Mirrored choices (size + 1) (body size) (body' size) () size') :
    Mirrored choices size (rule tag body) (rule tag body') size size' :=
  .bind (newRule_mirrored tag) (.bind inside (.pure _))

theorem choice_same_mirrored (parent : RuleId) (ids : List RuleId) :
    Mirrored choices size (choice parent ids) (choice parent ids) () (size + 1) :=
  Building.choice_mirrored parent (.refl ids) (.inl rfl)

theorem block_mirrored (statement : RuleId) :
    Mirrored choices size (block statement) (block statement) (size + 3) (size + 8) := by
  refine .bind (rule_mirrored _ (.bind (delimiter_mirrored _ _) (optional_mirrored _ _))) ?_
  refine rule_mirrored _ ?_
  refine .bind (delimiter_mirrored _ _) ?_
  refine .bind (optional_mirrored _ _) ?_
  exact .bind (repetition_mirrored _ _) (delimiter_mirrored _ _)

theorem ifStatement_mirrored (expression block : RuleId) :
    Mirrored choices size (ifStatement expression block) (ifStatement expression block) (size + 3)
      (size + 10) := by
  refine .bind (rule_mirrored _ (.bind (delimiter_mirrored _ _) (capture_mirrored _ _))) ?_
  refine rule_mirrored _ ?_
  refine .bind (delimiter_mirrored _ _) ?_
  refine .bind (delimiter_mirrored _ _) ?_
  refine .bind (capture_mirrored _ _) ?_
  refine .bind (delimiter_mirrored _ _) ?_
  exact .bind (capture_mirrored _ _) (optional_mirrored _ _)

theorem whileStatement_mirrored (expression block : RuleId) :
    Mirrored choices size (whileStatement expression block) (whileStatement expression block) size
      (size + 6) := by
  refine rule_mirrored _ ?_
  refine .bind (delimiter_mirrored _ _) ?_
  refine .bind (delimiter_mirrored _ _) ?_
  refine .bind (capture_mirrored _ _) ?_
  exact .bind (delimiter_mirrored _ _) (capture_mirrored _ _)

theorem forStatement_mirrored (expression block : RuleId) :
    Mirrored choices size (forStatement expression block) (forStatement expression block) (size + 9)
      (size + 19) := by
  refine .bind (rule_mirrored _ (.bind (delimiter_mirrored _ _) (optional_mirrored _ _))) ?_
  refine .bind (rule_mirrored _ (.bind (optional_mirrored _ _) (repetition_mirrored _ _))) ?_
  -- the three empty statements
  refine .bind (rule_mirrored _ (.pure ())) ?_
  refine .bind (rule_mirrored _ (.pure ())) ?_
  refine .bind (rule_mirrored _ (.pure ())) ?_
  refine rule_mirrored _ ?_
  refine .bind (delimiter_mirrored _ _) ?_
  refine .bind (delimiter_mirrored _ _) ?_
  refine .bind (choice_same_mirrored _ _) ?_
  refine .bind (delimiter_mirrored _ _) ?_
  refine .bind (choice_same_mirrored _ _) ?_
  refine .bind (delimiter_mirrored _ _) ?_
  refine .bind (choice_same_mirrored _ _) ?_
  exact .bind (delimiter_mirrored _ _) (capture_mirrored _ _)

variable {orders : Orders} (permute : ∀ choice ids, (orders choice ids).Perm ids)

include permute

/-- The alternatives of a choice in the given order and in another. -/
theorem choice_mirrored (choice : Choice) (parent : RuleId) (ids : List RuleId) :
    Mirrored (Choice.all.map Choice.rule) choice.rule (Script.choice parent ids)
      (Script.choice parent (orders choice ids)) () (choice.rule + 1) := by
  refine Building.choice_mirrored parent (permute choice ids) (.inr ?_)
  cases choice <;> decide

theorem primary_mirrored (expression string : RuleId) :
    Mirrored (Choice.all.map Choice.rule) 4 (Script.primary expression string)
      (orders.primary expression string) 16 18 := by
  refine .bind (rule_mirrored _ (literal_mirrored _ _ _ _ _)) ?_
  refine .bind (rule_mirrored _ (literal_mirrored _ _ _ _ _)) ?_
  refine .bind (rule_mirrored _ (literal_mirrored _ _ _ _ _)) ?_
  refine .bind (rule_mirrored _ (literal_mirrored _ _ _ _ _)) ?_
  refine .bind (rule_mirrored _ (.bind (delimiter_mirrored _ _)
    (.bind (capture_mirrored _ _) (delimiter_mirrored _ _)))) ?_
  exact rule_mirrored _ (choice_mirrored permute .primary _ _)

theorem factor_mirrored (primary : RuleId) :
    Mirrored (Choice.all.map Choice.rule) 18 (Script.factor primary) (orders.factor primary) 24 26 := by
  refine .bind (rule_mirrored _ (.bind (delimiter_mirrored _ _) (capture_mirrored _ _))) ?_
  refine .bind (rule_mirrored _ (.bind (delimiter_mirrored _ _) (capture_mirrored _ _))) ?_
  exact rule_mirrored _ (choice_mirrored permute .factor _ _)

theorem declare_mirrored (table : TableId) :
    Mirrored (Choice.all.map Choice.rule) 0 (Script.declare table) (orders.declare table)
      ⟨0, 35, 1, 80⟩ 82 := by
  refine .bind (newRule_mirrored _) ?_
  refine .bind (newRule_mirrored _) ?_
  refine .bind (rule_mirrored _ (literal_mirrored _ _ _ _ _)) ?_
  refine .bind (primary_mirrored permute _ _) ?_
  refine .bind (factor_mirrored permute _) ?_
  refine .bind (expression_mirrored _ _ _ _) ?_
  refine .bind (rule_mirrored _ (.bind (delimiter_mirrored _ _) (capture_mirrored _ _))) ?_
  refine .bind (rule_mirrored _ (choice_mirrored permute .simple _ _)) ?_
  refine .bind (block_mirrored _) ?_
  refine .bind (ifStatement_mirrored _ _) ?_
  refine .bind (whileStatement_mirrored _ _) ?_
  refine .bind (forStatement_mirrored _ _) ?_
  refine .bind (rule_mirrored _ (delimiter_mirrored _ _)) ?_
  refine .bind (choice_mirrored permute .statement _ _) ?_
  refine .bind (rule_mirrored _ (delimiter_mirrored _ _)) ?_
  exact .bind (rule_mirrored _ (choice_mirrored permute .program _ _)) (.pure _)

/-- The language that is declared and compiled in another order has the same entries and the same root. -/
theorem define_mirrored {lexer : Lexer} {entries : Entries} {parser : Grammatic.Parser} {compiled : Store}
    (run : (Script.define lexer).run {} = .ok (entries, parser) compiled) :
    ∃ rules compiled', (orders.define lexer).run {} = .ok (entries, { parser with rules }) compiled' ∧
      compiled.Rearranged (Choice.all.map Choice.rule) compiled' := by
  obtain ⟨words, _, ranWords, goes⟩ := Building.exists_of_bind_ok run
  obtain ⟨none, _, ranWords', rearranged⟩ := Building.shared_newWords _ _ _ _ _ (.refl _ _) ranWords
  obtain ⟨table, _, ranTable, goes⟩ := Building.exists_of_bind_ok goes
  obtain ⟨same, _, ranTable', rearranged⟩ := Building.shared_newTable _ _ _ _ _ rearranged ranTable
  obtain ⟨grammar, _, ranGrammar, goes⟩ := Building.exists_of_bind_ok goes
  obtain ⟨same', _, ranGrammar', rearranged⟩ :=
    Building.shared_newGrammar _ _ _ _ _ rearranged ranGrammar
  obtain ⟨_, _, declared, goes⟩ := Building.exists_of_bind_ok goes
  obtain ⟨rfl, _, store', declared', rearranged⟩ :=
    declare_mirrored permute table _ _ _ _ rearranged (same'.trans (same.trans none)) declared
  obtain ⟨result, _, ranCompile, goes⟩ := Building.exists_of_bind_ok goes
  obtain ⟨made, rfl⟩ := EStateM.Result.ok.inj goes
  obtain ⟨rfl, rfl⟩ := Prod.mk.inj made
  obtain ⟨compiled', ranCompile', rearranged⟩ := Building.compile_mirrored rearranged ranCompile
  refine ⟨store'.reachable result.root, compiled', ?_, rearranged⟩
  unfold define
  rw [EStateM.run_bind, ranWords']
  simp only [EStateM.run_bind, ranTable', ranGrammar', declared', ranCompile']
  rfl

end Declaring

end Orders

namespace ScriptParser

theorem within_of_mem_empty :
    ∀ rule ∈ (#[] : Array Rule), rule.within (#[] : Array Rule).size (#[] : Array OperatorTable).size := by
  simp

/-- The parser for a lexer, with the alternatives of each choice in its order. -/
def ofLexerIn (orders : Orders) (lexer : Lexer) : Except SetupError ScriptParser :=
  ofResult ((orders.define lexer).run { closed := within_of_mem_empty })

/-- The parser for a vocabulary, with the alternatives of each choice in its order. -/
def ofVocabularyIn (orders : Orders) (vocabulary : Vocabulary) : Except SetupError ScriptParser :=
  match vocabulary.lexer with
  | .ok lexer => ofLexerIn orders lexer
  | .error e => .error (.lexer e)

/-- A script parser with the alternatives of its choices in another order. -/
structure Reorders (script other : ScriptParser) : Prop where
  store : script.store.Rearranged (Choice.all.map Choice.rule) other.store
  grammar : other.grammar = script.grammar
  entries : other.entries = script.entries
  root : other.parser.root = script.parser.root

/-- Where there is a script parser, there is one in any other order. -/
theorem exists_reordered {orders : Orders} (permute : ∀ choice ids, (orders choice ids).Perm ids)
    {vocabulary : Vocabulary} {script : ScriptParser} (made : ofVocabulary vocabulary = .ok script) :
    ∃ other, ofVocabularyIn orders vocabulary = .ok other ∧ script.Reorders other := by
  unfold ofVocabulary at made
  unfold ofVocabularyIn
  cases isLexer : vocabulary.lexer with
  | error e =>
    rw [isLexer] at made
    cases made
  | ok lexer =>
    rw [isLexer] at made
    simp only [ofLexer, ofLexerIn] at made ⊢
    cases run : (define lexer).run {} with
    | error e store =>
      rw [run] at made
      cases made
    | ok result store =>
      obtain ⟨entries, parser⟩ := result
      obtain ⟨rules, store', run', rearranged⟩ := Orders.define_mirrored permute run
      rw [run] at made
      rw [run']
      cases found : store.grammars[parser.grammar]? with
      | none =>
        simp only [ofResult, found] at made
        cases made
      | some grammar =>
        simp only [ofResult, found] at made
        obtain rfl := Except.ok.inj made
        rw [← rearranged.grammars] at found
        simp only [ofResult, found]
        exact ⟨_, rfl, rearranged, rfl, rfl, rfl⟩

variable {script other : ScriptParser} {vocabulary : Vocabulary} {buffer : TokenBuffer}

theorem Reorders.refl (script : ScriptParser) : script.Reorders script :=
  ⟨.refl _ _, rfl, rfl, rfl⟩

theorem Reorders.setting_eq (reorders : script.Reorders other) (buffer : TokenBuffer) :
    other.setting buffer = (script.setting buffer).withStore other.store := by
  simp only [setting, Setting.withStore, reorders.grammar]

/-- Whether the choices of a script parser are what they are called, and the first token tells their
alternatives apart. -/
def tellsChoicesApart (script : ScriptParser) : Bool :=
  Choice.all.all fun choice =>
    script.store.realizes Token.endOfText script.entries.rule 12 choice.form (.inside choice.rule) &&
      script.store.tellsApart (Syntax.lead .program) (script.store.childrenOf choice.rule)

theorem apart_of_tellsChoicesApart (apart : script.tellsChoicesApart = true) :
    ∀ id ∈ Choice.all.map Choice.rule,
      script.store.tellsApart (Syntax.lead .program) (script.store.childrenOf id) = true := by
  intro id mem
  obtain ⟨choice, among, rfl⟩ := List.mem_map.mp mem
  exact (Bool.and_eq_true_iff.mp (List.all_eq_true.mp apart choice among)).2

/-- Where number tokens can be read, a script parser in any order decides: evaluation ends in a match or a
failure, and no two alternatives of a choice match at one position. -/
theorem Conforms.decided (conforms : script.Conforms vocabulary) (apart : script.tellsChoicesApart = true)
    (reorders : script.Reorders other) (endKind : buffer.endKind = Token.endOfText)
    (numbers : ∀ position, (buffer.peek position).kind = "number" →
      ∃ value, Literal.number.value (buffer.peek position) = .ok value) :
    (other.setting buffer).Decided (Choice.all.map Choice.rule) := by
  rw [reorders.setting_eq]
  refine Setting.decided_of_settled reorders.store (conforms.faultless numbers) ?_ ?_
    (apart_of_tellsChoicesApart apart)
  · rw [setting_buffer, endKind]
    exact conforms.settled
  · rw [setting_buffer, endKind]
    exact conforms.operators

/-- The units of a script parser in another order are the same, and stop in the same way. -/
theorem Conforms.units_mirrored (conforms : script.Conforms vocabulary)
    (apart : script.tellsChoicesApart = true) (reorders : script.Reorders other)
    (endKind : buffer.endKind = Token.endOfText)
    (numbers : ∀ position, (buffer.peek position).kind = "number" →
      ∃ value, Literal.number.value (buffer.peek position) = .ok value) :
    (script.units buffer).MirroredBy buffer (other.units buffer) := by
  have decided := conforms.decided apart (.refl script) endKind numbers
  have decided' := conforms.decided apart reorders endKind numbers
  rw [reorders.setting_eq] at decided'
  rw [units, units, reorders.setting_eq, reorders.root]
  exact Setting.units_mirrored decided decided' reorders.store conforms.root_lt_size 0

/-- Units never stop for lack of progress. -/
theorem Conforms.stop_cases (conforms : script.Conforms vocabulary)
    (endKind : buffer.endKind = Token.endOfText) {stop' : Stop BuildError}
    (mirrored : (script.units buffer).stop.MirroredBy buffer stop') :
    ((script.units buffer).stop = .done ∧ stop' = .done) ∨ ∃ failure failure',
      (script.units buffer).stop = .error (.ofFailure buffer failure) ∧
        stop' = .error (.ofFailure buffer failure') := by
  obtain ⟨-, reports⟩ := (Setting.course_units (script.setting buffer) script.parser.root 0).reports
    (conforms.forward endKind)
  generalize stopped : (script.units buffer).stop = stop at mirrored
  cases mirrored with
  | done => exact .inl ⟨rfl, rfl⟩
  | failed => exact .inr ⟨_, _, rfl, rfl⟩
  | idle =>
    obtain ⟨_, failure, _, same, _⟩ := reports _ stopped
    cases congrArg ParseError.failure? same

end ScriptParser

/-- The tokens of a buffer are those it was made of, and the end token, which is no number. -/
theorem numbers_of_ofTokens {tokens : List Token} {source? : Option Source}
    (numbers : ∀ token ∈ tokens, token.kind = "number" → ∃ value, Literal.number.value token = .ok value)
    (position : Nat) (isNumber : ((TokenBuffer.ofTokens tokens source?).peek position).kind = "number") :
    ∃ value, Literal.number.value ((TokenBuffer.ofTokens tokens source?).peek position) = .ok value := by
  rcases TokenBuffer.mem_or_kind_eq_of_mem_ofTokens (TokenBuffer.peek_mem_toList _ position) with
    mem | ended
  · exact numbers _ mem isNumber
  · rw [isNumber] at ended
    exact absurd ended (by decide)

/-- For both vocabularies, and with the alternatives of primary expressions, factors, simple statements,
statements and program units named in any order, there is a script parser. On every list of tokens whose
numbers can be read, it yields the same units as the one in the given order. Both come to the end of the
text, or both fail behind the last of the units, though maybe with other failures. For at every position at
most one alternative of each choice matches. -/
theorem units_in_any_order {vocabulary : Vocabulary}
    (known : vocabulary = english ∨ vocabulary = chinese) {orders : Orders}
    (permute : ∀ choice ids, (orders choice ids).Perm ids) :
    ∃ script other, ScriptParser.ofVocabulary vocabulary = .ok script ∧
      ScriptParser.ofVocabularyIn orders vocabulary = .ok other ∧
      (∀ choice : Choice, script.store.Realizes Token.endOfText script.entries.rule choice.form
        (.inside choice.rule)) ∧
      ∀ (tokens : List Token) (source? : Option Source),
        (∀ token ∈ tokens, token.kind = "number" → ∃ value, Literal.number.value token = .ok value) →
        let buffer := TokenBuffer.ofTokens tokens source?
        let units := script.units buffer
        let units' := other.units buffer
        units'.values = units.values ∧ units'.position = units.position ∧
          ((units.stop = .done ∧ units'.stop = .done) ∨ ∃ failure failure',
            units.stop = .error (.ofFailure buffer failure) ∧
              units'.stop = .error (.ofFailure buffer failure')) ∧
          ∀ choice : Choice,
            (script.setting buffer).Exclusive (script.store.childrenOf choice.rule) ∧
              (other.setting buffer).Exclusive (other.store.childrenOf choice.rule) := by
  obtain ⟨bare, lexer, bareMade, _, made, conforms⟩ := exists_bare known
  have apart : bare.tellsChoicesApart = true :=
    ScriptParser.of_known_check _ known (by decide +kernel) (by decide +kernel) bareMade
  have apart : (bare.withLexer lexer).tellsChoicesApart = true := apart
  have conforms := conforms.withLexer lexer
  obtain ⟨other, otherMade, reorders⟩ := ScriptParser.exists_reordered permute made
  have among (choice : Choice) : choice ∈ Choice.all := by cases choice <;> decide
  refine ⟨_, other, made, otherMade, ?_, ?_⟩
  · intro choice
    have checked := List.all_eq_true.mp apart choice (among choice)
    exact Store.realizes_of_check (Bool.and_eq_true_iff.mp checked).1
  · intro tokens source? numbers buffer units units'
    have endKind : buffer.endKind = Token.endOfText := TokenBuffer.endKind_ofTokens _ _ _
    have numbers : ∀ position, (buffer.peek position).kind = "number" →
        ∃ value, Literal.number.value (buffer.peek position) = .ok value := numbers_of_ofTokens numbers
    have mirrored := conforms.units_mirrored apart reorders endKind numbers
    refine ⟨mirrored.values, mirrored.position, ?_, fun choice => ⟨?_, ?_⟩⟩
    · exact conforms.stop_cases endKind mirrored.stop
    · exact (conforms.decided apart (.refl _) endKind numbers).exclusive _
        (List.mem_map_of_mem (among choice))
    · exact (conforms.decided apart reorders endKind numbers).exclusive _
        (List.mem_map_of_mem (among choice))

/-- All alternatives in the reverse order. -/
def Orders.reversed : Orders := fun _ alternatives => alternatives.reverse

/-- An import, a product of a negated name and of a name in parentheses, and a loop without a condition. -/
def brokenLoop : List Token := [
  .mark "kw_import" 0, .ofText "string" "\"x\"" 7, .mark "semi" 10, .mark "dash" 12,
  .ofText "name" "a" 13, .ofText "star" "*" 15, .mark "paren_o" 17, .ofText "name" "b" 18,
  .mark "paren_c" 19, .mark "newline" 20, .mark "kw_while" 21, .mark "paren_c" 27]

/-- In the reverse order the same four units are read, and the loop fails. -/
theorem brokenLoop_in_reverse :
    ∃ script other, ScriptParser.ofVocabulary english = .ok script ∧
      ScriptParser.ofVocabularyIn .reversed english = .ok other ∧
      let buffer := TokenBuffer.ofTokens brokenLoop
      let units := other.units buffer
      units.values = (script.units buffer).values ∧
        units.values.map (fun unit => (unit.1.shown, unit.2)) =
          [("Import([StringLiteral(['x'])])", 2), ("NullStmt([])", 3),
            ("BinaryExpr([NegativeExpr([Name(['a'])]), '*', Name(['b'])])", 9), ("NullStmt([])", 10)] ∧
        units.position = 10 ∧ ∃ failure, units.stop = .error (.ofFailure buffer failure) := by
  have permute : ∀ choice ids, (Orders.reversed choice ids).Perm ids := fun _ ids => ids.reverse_perm
  obtain ⟨script, other, made, otherMade, -, mirrored⟩ :=
    units_in_any_order (.inl (rfl : english = english)) permute
  obtain ⟨bare, lexer, bareMade, rfl⟩ := exists_bare_of_made (.inl rfl) made
  let reads (units : Units Value BuildError) : Bool :=
    units.values.map (fun unit => (unit.1.shown, unit.2)) =
        [("Import([StringLiteral(['x'])])", 2), ("NullStmt([])", 3),
          ("BinaryExpr([NegativeExpr([Name(['a'])]), '*', Name(['b'])])", 9), ("NullStmt([])", 10)] &&
      units.position = 10 && match units.stop with
        | .error _ => true
        | .done | .fault _ | .exhausted => false
  have checked : reads (bare.units (.ofTokens brokenLoop)) = true :=
    ScriptParser.of_made_check (fun script => reads (script.units (.ofTokens brokenLoop)))
      (by decide +kernel) bareMade
  simp only [reads, Bool.and_eq_true, decide_eq_true_eq] at checked
  obtain ⟨⟨values, position⟩, stops⟩ := checked
  have kinds : ∀ token ∈ brokenLoop, token.kind ≠ "number" := by decide +kernel
  obtain ⟨sameValues, samePosition, stop, -⟩ := mirrored brokenLoop none fun token mem isNumber =>
    absurd isNumber (kinds token mem)
  rw [ScriptParser.units_withLexer] at sameValues samePosition stop
  refine ⟨_, other, made, otherMade, sameValues, ?_, samePosition.trans position, ?_⟩
  · rw [sameValues]
    exact values
  · rcases stop with ⟨done, -⟩ | ⟨_, failure, -, stop⟩
    · rw [done] at stops
      cases stops
    · exact ⟨failure, stop⟩

end Grammatic.Script
