import Grammatic.Proofs.Evaluation.Leading
import Grammatic.Proofs.Evaluation.Termination
import Grammatic.Proofs.Language.Recognition
import Grammatic.Proofs.Script.Lexing
import Grammatic.Proofs.Script.Marks
import Grammatic.Proofs.Script.Syntax

/-!
# Script parsers read scripts

Both vocabularies have a script parser, and its rules realize the syntax of scripts
(`exists_conforming`). The rules are compiled from the keywords and the kinds of a lexer, whatever it
matches (`ofLexer_of_same`), so they are checked with a lexer that matches nothing.

Where number tokens can be read, such a parser is a reader: evaluation ends, since no rule is entered
inside itself and no operator has the end kind, and it never stops with a fault, since script trees
refuse no node that the rules make.
-/

namespace Grammatic

/-- Compilation asks a lexer for its kinds only. -/
theorem Building.compile_of_kinds {lexer other : Lexer} (kinds : lexer.kinds = other.kinds)
    (id : GrammarId) (root : Argument) :
    Building.compile id root (some lexer) =
      (fun parser => { parser with lexer := some lexer }) <$>
        Building.compile id root (some other) := by
  unfold Building.compile
  simp only [Option.map_some, kinds, map_eq_pure_bind, bind_assoc]
  congr 1
  funext root
  congr 1
  funext store
  split
  next => rfl
  next grammar found =>
    split
    next => simp
    next => simp

namespace Script

theorem define_of_same {lexer other : Lexer} (keywords : lexer.keywords = other.keywords)
    (kinds : lexer.kinds = other.kinds) :
    define lexer =
      (fun made => (made.1, { made.2 with lexer := some lexer })) <$> define other := by
  unfold define
  simp only [keywords, Building.compile_of_kinds kinds, map_eq_pure_bind, bind_assoc, pure_bind]

namespace ScriptParser

theorem ofResult_map {building : Building (Entries × Grammatic.Parser)} {store : Store}
    {script : ScriptParser} (made : ofResult (building.run store) = .ok script) (lexer : Lexer) :
    ofResult (((fun made => (made.1, { made.2 with lexer := some lexer })) <$> building).run store) =
      .ok { script with parser := { script.parser with lexer := some lexer } } := by
  simp only [EStateM.run, Functor.map, EStateM.map] at made ⊢
  cases run : building store with
  | error e store =>
    rw [run] at made
    exact nomatch made
  | ok result store =>
    cases found : store.grammars[result.2.grammar]? with
    | none =>
      simp only [run, ofResult, found] at made
      exact nomatch made
    | some grammar =>
      simp only [run, ofResult, found] at made ⊢
      obtain rfl := Except.ok.inj made
      rfl

/-- A script parser with another lexer. -/
def withLexer (script : ScriptParser) (lexer : Lexer) : ScriptParser :=
  { script with parser := { script.parser with lexer := some lexer } }

/-- The lexer makes the tokens, and has no part in what becomes of them. -/
@[simp] theorem units_withLexer (script : ScriptParser) (lexer : Lexer) (buffer : TokenBuffer) :
    (script.withLexer lexer).units buffer = script.units buffer := rfl

/-- The script parsers of two lexers with the same keywords and kinds differ in the lexer only. -/
theorem ofLexer_of_same {lexer other : Lexer} (keywords : lexer.keywords = other.keywords)
    (kinds : lexer.kinds = other.kinds) {script : ScriptParser}
    (made : ofLexer other = .ok script) : ofLexer lexer = .ok (script.withLexer lexer) := by
  unfold ofLexer at made ⊢
  rw [define_of_same keywords kinds]
  exact ofResult_map made lexer

end ScriptParser

/-! ## What is checked -/

/-- Whether a rule has the parts that its kind needs and makes only nodes that script trees have. -/
def wellMade (store : Store) (rule : Rule) : Bool :=
  let kind? := rule.tag.bind NodeKind.ofTag?
  match rule.kind with
  | .terminal =>
    (rule.literal.isNone || kind?.isSome) &&
      (rule.literal ≠ some .number || rule.kinds.toList = ["number"])
  | .sequence => rule.literal.isNone && (rule.tag.isNone || kind?.any (!·.isLeaf))
  | .expression =>
    rule.literal.isNone && !rule.children.isEmpty && (store.tableOf? rule).isSome &&
      kind?.any (!·.isLeaf)
  | _ => rule.literal.isNone && !rule.children.isEmpty

/-- Whether a rule reads every number token. -/
def readsNumber (rule : Rule) : Bool :=
  rule.kind = .terminal && rule.literal = some .number && rule.kinds.contains "number" &&
    rule.reserved = .none

namespace ScriptParser

/-- A script parser whose rules realize the syntax of scripts and can be evaluated. -/
structure Conforms (script : ScriptParser) (vocabulary : Vocabulary) : Prop where
  root : script.parser.root = script.entries.program
  endKind : script.parser.endKind script.store = Token.endOfText
  settled : script.store.settled Token.endOfText = true
  operators : ∀ table ∈ script.store.tables, table.find? Token.endOfText = none
  wellMade : ∀ rule ∈ script.store.rules, wellMade script.store rule = true
  legible : ∀ rule ∈ script.store.rules, legible script.store rule = true
  unsigned : signsAt script.store script.parser.root = []
  /-- A number token at the start of a unit is read as a number. -/
  numbers : ∃ id rule, script.store.rules[id]? = some rule ∧ readsNumber rule = true ∧
    script.store.leadsTo "number" id script.store.rules.size script.parser.root = true
  realization : script.store.Realization script.grammar Token.endOfText (Script.grammar vocabulary)
    script.entries.rule

/-- Checks the rules of a script parser. -/
def conforms (script : ScriptParser) (vocabulary : Vocabulary) : Bool :=
  script.parser.root = script.entries.program &&
    script.parser.endKind script.store = Token.endOfText && script.store.settled Token.endOfText &&
    script.store.tables.all (fun table => (table.find? Token.endOfText).isNone) &&
    script.store.rules.all (Script.wellMade script.store) &&
    script.store.rules.all (Script.legible script.store) &&
    signsAt script.store script.parser.root = [] &&
    (List.range script.store.rules.size).any (fun id =>
      script.store.rules[id]?.any readsNumber &&
        script.store.leadsTo "number" id script.store.rules.size script.parser.root) &&
    [Nonterminal.expression, .block, .statement, .program].all (fun name =>
      script.store.realizes Token.endOfText script.entries.rule 12 (Syntax.rules name)
        (.inside (script.entries.rule name))) &&
    script.grammar.words = .fixed (.ofList (vocabulary.keywords.map (·.1)))

theorem conforms_of_check {script : ScriptParser} {vocabulary : Vocabulary}
    (checked : script.conforms vocabulary = true) : script.Conforms vocabulary := by
  simp only [conforms, Bool.and_eq_true, decide_eq_true_eq, List.all_eq_true, Array.all_eq_true',
    Option.isNone_iff_eq_none] at checked
  obtain ⟨⟨⟨⟨⟨⟨⟨⟨⟨root, endKind⟩, settled⟩, operators⟩, wellMade⟩, legible⟩, unsigned⟩, numbers⟩,
    realized⟩, words⟩ := checked
  refine ⟨root, endKind, settled, operators, wellMade, legible, unsigned, ?_, fun name => ?_,
    fun word => ?_⟩
  · obtain ⟨id, -, checked⟩ := List.any_eq_true.mp numbers
    obtain ⟨reads, leads⟩ := Bool.and_eq_true_iff.mp checked
    obtain ⟨rule, found, reads⟩ := (Option.any_eq_true _ _).mp reads
    exact ⟨id, rule, found, reads, leads⟩
  · have mem : name ∈ [Nonterminal.expression, .block, .statement, .program] := by
      cases name <;> decide
    exact Store.realizes_of_check (realized name mem)
  · rw [words, Store.hasWord, Bool.eq_iff_iff, StringSet.contains_iff, StringSet.mem_ofList]
    exact List.contains_iff_mem.symm

end ScriptParser

/-! ## Evaluation without faults -/

theorem exists_nodeOf_of_single (kind : NodeKind) (value : Value) :
    ∃ node, nodeOf kind [value] = .ok node := by
  unfold nodeOf
  split
  next => exact ⟨_, rfl⟩
  next => split <;> exact ⟨_, rfl⟩

theorem exists_nodeOf_of_inner {kind : NodeKind} (inner : kind.isLeaf = false)
    (children : List Value) : ∃ node, nodeOf kind children = .ok node := by
  unfold nodeOf
  rw [if_neg (by rw [inner]; exact Bool.false_ne_true)]
  split <;> exact ⟨_, rfl⟩

theorem trees_node {tag : Option NodeTag} {kind : NodeKind}
    (named : tag.bind NodeKind.ofTag? = some kind) (children : List Value) :
    trees.node tag children = nodeOf kind children := by
  simp only [trees, named]

/-- Only numbers cannot be read. -/
theorem exists_literal_value {literal : Literal} (other : literal ≠ .number) (token : Token) :
    ∃ value, literal.value token = .ok value := by
  cases literal with
  | number => exact absurd rfl other
  | name | string | null | truth _ => exact ⟨_, rfl⟩

namespace ScriptParser

variable {script : ScriptParser} {vocabulary : Vocabulary} {buffer : TokenBuffer}

@[simp] theorem setting_buffer : (script.setting buffer).buffer = buffer := rfl

/-- Every rule has the parts that its kind needs. -/
theorem Conforms.complete (conforms : script.Conforms vocabulary) {rule : Rule}
    (mem : rule ∈ script.store.rules) : rule.kind = .terminal ∨ rule.kind = .sequence ∨
      rule.children ≠ [] ∧ (rule.kind = .expression → script.store.tableOf? rule ≠ none) := by
  have made := conforms.wellMade rule mem
  cases kind : rule.kind with
  | terminal => exact .inl rfl
  | sequence => exact .inr (.inl rfl)
  | expression =>
    simp only [Script.wellMade, kind, Bool.and_eq_true, Bool.not_eq_true',
      List.isEmpty_eq_false_iff, Option.isSome_iff_ne_none] at made
    exact .inr (.inr ⟨made.1.1.2, fun _ => made.1.2⟩)
  | alternation | optional | repetition | capture =>
    simp only [Script.wellMade, kind, Bool.and_eq_true, Bool.not_eq_true',
      List.isEmpty_eq_false_iff] at made
    exact .inr (.inr ⟨made.2, nofun⟩)

theorem Conforms.root_lt_size (conforms : script.Conforms vocabulary) :
    script.parser.root < script.store.rules.size := by
  have realizes : script.store.Realizes Token.endOfText script.entries.rule (.symbol .program)
      (.rule script.parser.root) := by
    rw [conforms.root]
    exact .symbol .refl
  exact conforms.realization.lt_size realizes

/-- Only terminals have literals, and they make nodes of them. -/
theorem Conforms.terminal_of_literal (conforms : script.Conforms vocabulary) {rule : Rule}
    (mem : rule ∈ script.store.rules) {literal : Literal} (isLiteral : rule.literal = some literal) :
    rule.kind = .terminal ∧ ∃ kind, rule.tag.bind NodeKind.ofTag? = some kind := by
  have made := conforms.wellMade rule mem
  cases kind : rule.kind with
  | terminal =>
    simp only [Script.wellMade, kind, Bool.and_eq_true, Bool.or_eq_true, Option.isNone_iff_eq_none,
      isLiteral, reduceCtorEq, false_or] at made
    exact ⟨rfl, Option.isSome_iff_exists.mp made.1⟩
  | sequence | expression | alternation | optional | repetition | capture =>
    simp [Script.wellMade, kind, isLiteral] at made

/-- Only tokens of one kind are read as numbers. -/
theorem Conforms.kind_eq_number (conforms : script.Conforms vocabulary) {rule : Rule}
    (mem : rule ∈ script.store.rules) (number : rule.literal = some .number) {token : Token}
    (takes : rule.kinds.contains token.kind = true) : token.kind = "number" := by
  obtain ⟨terminal, -⟩ := conforms.terminal_of_literal mem number
  have made := conforms.wellMade rule mem
  simp only [Script.wellMade, terminal, number, Bool.and_eq_true, Bool.or_eq_true, decide_eq_true_eq,
    ne_eq, not_true, false_or] at made
  have listed : token.kind ∈ rule.kinds.toList := StringSet.contains_iff.mp takes
  rw [made.2] at listed
  exact List.mem_singleton.mp listed

theorem Conforms.kind_eq_number_of_accepts (conforms : script.Conforms vocabulary) {rule : Rule}
    (mem : rule ∈ script.store.rules) (number : rule.literal = some .number) {token : Token}
    (accepted : (script.setting buffer).accepts rule token = true) : token.kind = "number" := by
  rw [Setting.accepts, Bool.and_eq_true] at accepted
  exact conforms.kind_eq_number mem number accepted.1

/-- Script trees refuse no node that a rule makes. -/
theorem Conforms.exists_node (conforms : script.Conforms vocabulary) {rule : Rule}
    (mem : rule ∈ script.store.rules) (children : List Value)
    (makes : (rule.kind = .terminal ∧ rule.literal ≠ none ∧ children.length = 1) ∨
      (rule.kind = .sequence ∧ rule.tag ≠ none) ∨ rule.kind = .expression) :
    ∃ node, trees.node rule.tag children = .ok node := by
  have made := conforms.wellMade rule mem
  rcases makes with ⟨-, isLiteral, single⟩ | ⟨kind, tagged⟩ | kind
  · obtain ⟨literal, isLiteral⟩ := Option.ne_none_iff_exists'.mp isLiteral
    obtain ⟨-, node, named⟩ := conforms.terminal_of_literal mem isLiteral
    obtain ⟨value, rfl⟩ := List.length_eq_one_iff.mp single
    rw [trees_node named]
    exact exists_nodeOf_of_single node value
  · simp only [Script.wellMade, kind, Bool.and_eq_true, Bool.or_eq_true, Option.isNone_iff_eq_none,
      tagged, false_or] at made
    obtain ⟨node, named, inner⟩ := (Option.any_eq_true _ _).mp made.2
    rw [trees_node named]
    exact exists_nodeOf_of_inner ((Bool.not_eq_true' _).mp inner) children
  · simp only [Script.wellMade, kind, Bool.and_eq_true] at made
    obtain ⟨node, named, inner⟩ := (Option.any_eq_true _ _).mp made.2
    rw [trees_node named]
    exact exists_nodeOf_of_inner ((Bool.not_eq_true' _).mp inner) children

/-- Where number tokens can be read, no evaluation of a script stops with a fault. -/
theorem Conforms.faultless (conforms : script.Conforms vocabulary)
    (numbers : ∀ position, (buffer.peek position).kind = "number" →
      ∃ value, Literal.number.value (buffer.peek position) = .ok value) :
    (script.setting buffer).Faultless where
  complete rule mem := conforms.complete mem
  readable rule mem literal isLiteral position accepted := by
    by_cases number : literal = .number
    · subst number
      exact numbers position (conforms.kind_eq_number_of_accepts mem isLiteral accepted)
    · exact exists_literal_value number _
  literals rule mem kind isLiteral value :=
    conforms.exists_node mem _ (.inl ⟨kind, isLiteral, rfl⟩)
  sequences rule mem kind tagged children :=
    conforms.exists_node mem children (.inr (.inl ⟨kind, tagged⟩))
  expressions rule mem kind children := conforms.exists_node mem children (.inr (.inr kind))

/-- Every evaluation of a script ends. -/
theorem Conforms.ends (conforms : script.Conforms vocabulary)
    (endKind : buffer.endKind = Token.endOfText) (id : RuleId) (start : Nat) :
    (script.setting buffer).evaluate id start ≠ .exhausted := by
  apply Setting.evaluate_ends_of_settled
  · rw [setting_buffer, endKind]
    exact conforms.settled
  · rw [setting_buffer, endKind]
    exact conforms.operators

/-- Where number tokens can be read, a script parser reads the syntax of scripts. -/
theorem Conforms.reader (conforms : script.Conforms vocabulary)
    (endKind : buffer.endKind = Token.endOfText)
    (numbers : ∀ position, (buffer.peek position).kind = "number" →
      ∃ value, Literal.number.value (buffer.peek position) = .ok value) :
    (script.setting buffer).Reader (Script.grammar vocabulary) script.entries.rule where
  realization := by
    rw [setting_buffer, endKind]
    exact conforms.realization
  faultless := conforms.faultless numbers
  ends := conforms.ends endKind

end ScriptParser

/-! ## Two vocabularies -/

/-- Checks the rules that are compiled for a vocabulary. -/
def Vocabulary.compiles (vocabulary : Vocabulary) : Bool :=
  (ScriptParser.ofLexer vocabulary.bareLexer).toOption.any (·.conforms vocabulary)

theorem ScriptParser.Conforms.withLexer {script : ScriptParser} {vocabulary : Vocabulary}
    (conforms : script.Conforms vocabulary) (lexer : Lexer) :
    (script.withLexer lexer).Conforms vocabulary :=
  ⟨conforms.root, conforms.endKind, conforms.settled, conforms.operators, conforms.wellMade,
    conforms.legible, conforms.unsigned, conforms.numbers, conforms.realization⟩

/-- What is checked of the script parser that a lexer has holds of that script parser. -/
theorem ScriptParser.of_made_check (check : ScriptParser → Bool) {lexer : Lexer}
    {script : ScriptParser} (passes : (ScriptParser.ofLexer lexer).toOption.any check = true)
    (made : ScriptParser.ofLexer lexer = .ok script) : check script = true := by
  rw [made] at passes
  exact passes

/-- What is checked of the rules of both vocabularies holds of those of a known one. -/
theorem ScriptParser.of_known_check (check : ScriptParser → Bool) {vocabulary : Vocabulary}
    (known : vocabulary = english ∨ vocabulary = chinese)
    (passes : (ScriptParser.ofLexer english.bareLexer).toOption.any check = true)
    (passes' : (ScriptParser.ofLexer chinese.bareLexer).toOption.any check = true)
    {script : ScriptParser} (made : ScriptParser.ofLexer vocabulary.bareLexer = .ok script) :
    check script = true := by
  rcases known with rfl | rfl
  · exact of_made_check check passes made
  · exact of_made_check check passes' made

/-- A vocabulary that passes both checks has a script parser whose rules conform. It is that of the lexer
that matches nothing, but for the lexer. -/
theorem exists_bare_of_checks {vocabulary : Vocabulary} (lexes : vocabulary.lexes = true)
    (compiles : vocabulary.compiles = true) :
    ∃ bare lexer, ScriptParser.ofLexer vocabulary.bareLexer = .ok bare ∧
      LexesScripts lexer vocabulary ∧
      ScriptParser.ofVocabulary vocabulary = .ok (bare.withLexer lexer) ∧ bare.Conforms vocabulary := by
  obtain ⟨lexer, defined, facts⟩ := exists_lexer lexes
  unfold Vocabulary.compiles at compiles
  cases made : ScriptParser.ofLexer vocabulary.bareLexer with
  | error _ =>
    rw [made] at compiles
    exact nomatch compiles
  | ok bare =>
    rw [made] at compiles
    refine ⟨bare, lexer, rfl, facts, ?_, ScriptParser.conforms_of_check compiles⟩
    rw [ScriptParser.ofVocabulary, defined]
    exact ScriptParser.ofLexer_of_same facts.keywords facts.kinds made

/-- The English and the Chinese vocabulary have script parsers whose rules conform. -/
theorem exists_bare {vocabulary : Vocabulary}
    (known : vocabulary = english ∨ vocabulary = chinese) :
    ∃ bare lexer, ScriptParser.ofLexer vocabulary.bareLexer = .ok bare ∧
      LexesScripts lexer vocabulary ∧
      ScriptParser.ofVocabulary vocabulary = .ok (bare.withLexer lexer) ∧ bare.Conforms vocabulary := by
  rcases known with rfl | rfl
  · exact exists_bare_of_checks (lexes_of_known (.inl rfl)) (by decide +kernel)
  · exact exists_bare_of_checks (lexes_of_known (.inr rfl)) (by decide +kernel)

/-- A script parser for a known vocabulary is that of the lexer that matches nothing, but for its lexer. -/
theorem exists_bare_of_made {vocabulary : Vocabulary}
    (known : vocabulary = english ∨ vocabulary = chinese) {script : ScriptParser}
    (made : ScriptParser.ofVocabulary vocabulary = .ok script) :
    ∃ bare lexer, ScriptParser.ofLexer vocabulary.bareLexer = .ok bare ∧
      script = bare.withLexer lexer := by
  obtain ⟨bare, lexer, bareMade, _, made', _⟩ := exists_bare known
  exact ⟨bare, lexer, bareMade, Except.ok.inj (made.symm.trans made')⟩

/-- The lexer of a known vocabulary, and its script parser made with it. -/
theorem exists_script {vocabulary : Vocabulary} (known : vocabulary = english ∨ vocabulary = chinese) :
    ∃ lexer bare, vocabulary.lexer = .ok lexer ∧ LexesScripts lexer vocabulary ∧
      ScriptParser.ofLexer vocabulary.bareLexer = .ok bare ∧
      ScriptParser.ofVocabulary vocabulary = .ok (bare.withLexer lexer) ∧ bare.Conforms vocabulary := by
  obtain ⟨lexer, defined, lexes⟩ := exists_lexer (lexes_of_known known)
  obtain ⟨bare, _, bareMade, -, -, conforms⟩ := exists_bare known
  refine ⟨lexer, bare, defined, lexes, bareMade, ?_, conforms⟩
  rw [ScriptParser.ofVocabulary, defined]
  exact ScriptParser.ofLexer_of_same lexes.keywords lexes.kinds bareMade

theorem exists_conforming {vocabulary : Vocabulary}
    (known : vocabulary = english ∨ vocabulary = chinese) :
    ∃ script, ScriptParser.ofVocabulary vocabulary = .ok script ∧ script.Conforms vocabulary := by
  obtain ⟨bare, lexer, _, _, made, conforms⟩ := exists_bare known
  exact ⟨_, made, conforms.withLexer lexer⟩

end Script

end Grammatic
