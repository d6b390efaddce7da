import Grammatic.Proofs.Evaluation.Assembly
import Grammatic.Proofs.Script.Shaping
import Grammatic.Proofs.Token.Spans

/-!
# The children of a block

A block captures a statement that may be missing, and a list of rounds, each of a separator and a statement
that may be missing. So what it captures is nested and full of gaps, and it depends on how many separators
there are. Its children do not: they are its statements in order (`block_gives_statements`).

`Laid` tells how statements and separators stand in a block, as the rule goes through it: at any place where
a statement may begin there is a separator, or a statement with a separator or the end of the block behind
it. One induction on it follows the rounds (`rounds_of_laid`). A statement is looked for wherever one may
begin, and where a separator or the closing brace stands instead there is none, since no statement starts
with such a token.
-/

namespace Grammatic

/-! ## Rules by their parts -/

namespace Store

/-- Whether a rule is a delimiter for the tokens of some kinds. -/
def delimits (store : Store) (kinds : List TokenKind) (id : RuleId) : Bool :=
  store.rules[id]?.any fun rule =>
    rule.kind = .terminal && rule.literal = none && rule.reserved = .none && sameKinds rule.kinds kinds

/-- Whether a rule of a kind has a tag and some sub-rules, and no others. -/
def composes (store : Store) (kind : RuleKind) (tag : Option NodeTag) (children : List RuleId)
    (id : RuleId) : Bool :=
  store.rules[id]?.any fun rule => rule.kind = kind && rule.tag = tag && rule.children = children

variable {store : Store} {id : RuleId}

theorem exists_of_delimits {kinds : List TokenKind} (delimits : store.delimits kinds id = true) :
    ∃ rule, store.rules[id]? = some rule ∧ rule.kind = .terminal ∧ rule.literal = none ∧
      rule.reserved = .none ∧ ∀ kind, kind ∈ rule.kinds ↔ kind ∈ kinds := by
  obtain ⟨rule, found, checked⟩ := (Option.any_eq_true _ _).mp delimits
  simp only [Bool.and_eq_true, decide_eq_true_eq] at checked
  obtain ⟨⟨⟨kind, literal⟩, reserved⟩, same⟩ := checked
  exact ⟨rule, found, kind, literal, reserved, mem_iff_of_sameKinds same⟩

theorem exists_of_composes {kind : RuleKind} {tag : Option NodeTag} {children : List RuleId}
    (composes : store.composes kind tag children id = true) :
    ∃ rule, store.rules[id]? = some rule ∧ rule.kind = kind ∧ rule.tag = tag ∧
      rule.children = children := by
  obtain ⟨rule, found, checked⟩ := (Option.any_eq_true _ _).mp composes
  simp only [Bool.and_eq_true, decide_eq_true_eq] at checked
  exact ⟨rule, found, checked.1.1, checked.1.2, checked.2⟩

/-- The value of a delimiter is not captured. -/
theorem captures_of_delimits {kinds : List TokenKind} (delimits : store.delimits kinds id = true) :
    store.captures id = false := by
  obtain ⟨rule, found, kind, literal, -⟩ := exists_of_delimits delimits
  rw [captures, found, Option.any_some, Rule.captures, kind, literal]
  rfl

/-- The value of a rule other than a terminal is captured. -/
theorem captures_of_composes {kind : RuleKind} {tag : Option NodeTag} {children : List RuleId}
    (other : kind ≠ .terminal) (composes : store.composes kind tag children id = true) :
    store.captures id = true := by
  obtain ⟨rule, found, rfl, -⟩ := exists_of_composes composes
  rw [captures, found, Option.any_some, Rule.captures, bne_iff_ne.mpr other, Bool.true_or]

end Store

namespace Setting

variable {α ε : Type} {setting : Setting α ε} {id : RuleId} {start : Nat}

/-- A delimiter passes a token of its kinds. -/
theorem gives_of_delimits {kinds : List TokenKind} (delimits : setting.store.delimits kinds id = true)
    (mem : (setting.buffer.peek start).kind ∈ kinds) (inside : setting.buffer.atEnd start = false) :
    setting.Gives id start (.matched setting.factory.absent (start + 1)) := by
  obtain ⟨rule, found, kind, literal, reserved, same⟩ := Store.exists_of_delimits delimits
  have accepted : setting.accepts rule (setting.buffer.peek start) = true := by
    rw [accepts, StringSet.contains_iff.mpr ((same _).mpr mem), reserved]
    rfl
  rw [← TokenBuffer.advance_of_not_atEnd inside]
  exact gives_delimiter found kind literal accepted

end Setting

namespace Script

/-! ## The rules of a block -/

/-- The kinds of the tokens that separate statements. -/
def separatorKinds : List TokenKind := ["semi", "newline"]

/-- The rules that a block is made of. A round is a separator and a second statement, or none. -/
structure BlockParts where
  opening : RuleId
  first : RuleId
  rounds : RuleId
  closing : RuleId
  round : RuleId
  separator : RuleId
  second : RuleId

/-- The rules that stand where those of a block do. -/
def blockParts? (store : Store) (block : RuleId) : Option BlockParts :=
  match store.childrenOf block with
  | [opening, first, rounds, closing] =>
    match store.childrenOf rounds with
    | [round] =>
      match store.childrenOf round with
      | [separator, second] => some { opening, first, rounds, closing, round, separator, second }
      | _ => none
    | _ => none
  | _ => none

/-- The rules of a block do what its syntax says, and no statement starts with a separator or a closing
brace. -/
structure BlockParts.Stand (parts : BlockParts) (store : Store) (entries : Entries) : Prop where
  block : store.composes .sequence (some NodeKind.block.tag)
    [parts.opening, parts.first, parts.rounds, parts.closing] entries.block = true
  opening : store.delimits ["brace_o"] parts.opening = true
  first : store.composes .optional none [entries.statement] parts.first = true
  rounds : store.composes .repetition none [parts.round] parts.rounds = true
  round : store.composes .sequence none [parts.separator, parts.second] parts.round = true
  separator : store.delimits separatorKinds parts.separator = true
  second : store.composes .optional none [entries.statement] parts.second = true
  closing : store.delimits ["brace_c"] parts.closing = true
  statement : ∀ kind ∈ "brace_c" :: separatorKinds,
    store.refuses kind store.rules.size entries.statement = true
  ended : store.refuses "brace_c" store.rules.size parts.round = true

/-- Checks the rules of a block. -/
def BlockParts.stand (parts : BlockParts) (store : Store) (entries : Entries) : Bool :=
  store.composes .sequence (some NodeKind.block.tag)
      [parts.opening, parts.first, parts.rounds, parts.closing] entries.block &&
    store.delimits ["brace_o"] parts.opening &&
    store.composes .optional none [entries.statement] parts.first &&
    store.composes .repetition none [parts.round] parts.rounds &&
    store.composes .sequence none [parts.separator, parts.second] parts.round &&
    store.delimits separatorKinds parts.separator &&
    store.composes .optional none [entries.statement] parts.second &&
    store.delimits ["brace_c"] parts.closing &&
    ("brace_c" :: separatorKinds).all (fun kind =>
      store.refuses kind store.rules.size entries.statement) &&
    store.refuses "brace_c" store.rules.size parts.round

theorem BlockParts.stand_iff {parts : BlockParts} {store : Store} {entries : Entries} :
    parts.stand store entries = true ↔ parts.Stand store entries := by
  simp only [stand, Bool.and_eq_true, List.all_eq_true]
  constructor
  · rintro ⟨⟨⟨⟨⟨⟨⟨⟨⟨block, opening⟩, first⟩, rounds⟩, round⟩, separator⟩, second⟩, closing⟩, statement⟩, ended⟩
    exact ⟨block, opening, first, rounds, round, separator, second, closing, statement, ended⟩
  · rintro ⟨block, opening, first, rounds, round, separator, second, closing, statement, ended⟩
    exact ⟨⟨⟨⟨⟨⟨⟨⟨⟨block, opening⟩, first⟩, rounds⟩, round⟩, separator⟩, second⟩, closing⟩, statement⟩, ended⟩

/-- Whether a script parser has the rules of a block. -/
def ScriptParser.formsBlock (script : ScriptParser) : Bool :=
  (blockParts? script.store script.entries.block).any (·.stand script.store script.entries)

/-! ## Statements and separators -/

/-- Statements of which each is as told, with separators before, between and behind them. -/
inductive Laid (each : List Token → Value → Prop) : List Value → List Token → Prop
  | none : Laid each [] []
  | separator {values : List Value} {token : Token} {text : List Token}
      (separates : token.kind ∈ separatorKinds) (rest : Laid each values text) :
      Laid each values (token :: text)
  | last {text : List Token} {value : Value} (statement : each text value) : Laid each [value] text
  | statement {values : List Value} {token : Token} {text more : List Token} {value : Value}
      (statement : each text value) (separates : token.kind ∈ separatorKinds)
      (rest : Laid each values more) : Laid each (value :: values) (text ++ token :: more)

/-- A statement in a block: its tokens, its value, and the separators behind it. -/
structure Placed where
  text : List Token
  value : Value
  separators : List Token

/-- The tokens of statements and of the separators behind them. -/
def placedText (statements : List Placed) : List Token :=
  statements.flatMap fun statement => statement.text ++ statement.separators

/-- Separators, and then statements with separators behind each but the last, which may have some. -/
theorem laid_of_placed {each : List Token → Value → Prop} {before : List Token}
    {statements : List Placed} (separates : ∀ token ∈ before, token.kind ∈ separatorKinds)
    (all : ∀ statement ∈ statements, each statement.text statement.value ∧
      ∀ token ∈ statement.separators, token.kind ∈ separatorKinds)
    (between : ∀ statement ∈ statements.dropLast, statement.separators ≠ []) :
    Laid each (statements.map (·.value)) (before ++ placedText statements) := by
  induction statements generalizing before with
  | nil =>
    induction before with
    | nil => exact .none
    | cons token before ih =>
      obtain ⟨first, others⟩ := List.forall_mem_cons.mp separates
      exact .separator first (ih others)
  | cons statement rest ih =>
    obtain ⟨⟨whole, behind⟩, others⟩ := List.forall_mem_cons.mp all
    induction before with
    | cons token before ih =>
      obtain ⟨first, others⟩ := List.forall_mem_cons.mp separates
      exact .separator first (ih others)
    | nil =>
      rw [placedText, List.flatMap_cons, List.nil_append, List.map_cons]
      cases separators : statement.separators with
      | nil =>
        -- nothing separates the statement from others, so it is the last
        cases rest with
        | nil =>
          rw [List.append_nil, List.flatMap_nil, List.append_nil]
          exact .last whole
        | cons => exact absurd separators (between statement List.mem_cons_self)
      | cons token more =>
        rw [separators] at behind
        obtain ⟨first, more⟩ := List.forall_mem_cons.mp behind
        rw [List.append_assoc, List.cons_append]
        refine .statement whole first (ih more others fun other mem => between other ?_)
        cases rest with
        | nil => exact nomatch mem
        | cons => exact List.mem_cons_of_mem _ mem

/-! ## What a block gives -/

/-- A tree or a scalar that is there is the one thing that it adds to the children of a node. -/
theorem spliced_of_gives_entry {script : ScriptParser} (keeps : script.keepsSlots = true)
    {buffer : TokenBuffer} (name : Nonterminal) {start next : Nat} {value : Value}
    (gives : (script.setting buffer).Gives (script.entries.rule name) start (.matched value next)) :
    spliced value = [value] := by
  have mem : name ∈ [Nonterminal.expression, .block, .statement, .program] := by
    cases name <;> decide
  obtain ⟨other, found⟩ : ∃ other, [Nonterminal.expression, .block, .statement, .program].find?
      (script.entries.rule · = script.entries.rule name) = some other :=
    Option.isSome_iff_exists.mp (List.find?_isSome.mpr ⟨name, mem, by simp⟩)
  have known : script.entries.slot? (script.entries.rule name) = some other.slot := by
    rw [Entries.slot?, found, Option.map_some]
  have yields := keepTo_of_gives (ScriptParser.keepsTo_of_keepsSlots keeps) gives 0 _ known
  cases other <;> exact yields.whole rfl rfl

section Blocks

variable {script : ScriptParser} {parts : BlockParts} {buffer : TokenBuffer} {position middle stop : Nat}

/-- Tokens are taken as a statement with a value wherever they stand in a buffer with a separator or a
closing brace behind them. -/
def ScriptParser.TakesWhole (script : ScriptParser) (buffer : TokenBuffer) (text : List Token)
    (value : Value) : Prop :=
  ∀ position stop, buffer.Spans position text stop →
    (buffer.peek stop).kind ∈ "brace_c" :: separatorKinds →
      (script.setting buffer).Gives script.entries.statement position (.matched value stop)

/-- There is no statement where a separator or a closing brace stands. -/
theorem attempted_absent (stands : parts.Stand script.store script.entries)
    (kind : (buffer.peek position).kind ∈ "brace_c" :: separatorKinds) :
    (script.setting buffer).Attempted script.entries.statement position .absent position :=
  .absent (Setting.fails_of_refuses (stands.statement _ kind) rfl)

/-- A separator, and behind it a statement or none, are a round. -/
theorem gives_round (stands : parts.Stand script.store script.entries) {value : Value}
    (separates : (buffer.peek position).kind ∈ separatorKinds) (inside : buffer.atEnd position = false)
    (attempted : (script.setting buffer).Attempted script.entries.statement (position + 1) value middle) :
    (script.setting buffer).Gives parts.round position (.matched value middle) := by
  obtain ⟨rule, found, kind, untagged, children⟩ := Store.exists_of_composes stands.round
  obtain ⟨_, found', kind', _, children'⟩ := Store.exists_of_composes stands.second
  have separator : (script.setting buffer).Gives parts.separator position
      (.matched .absent (position + 1)) := Setting.gives_of_delimits stands.separator separates inside
  have second : (script.setting buffer).Gives parts.second (position + 1) (.matched value middle) :=
    Setting.gives_optional found' kind' children' attempted
  have notCaptured := Store.captures_of_delimits stands.separator
  have captured := Store.captures_of_composes (by decide) stands.second
  show (script.setting buffer).Gives parts.round position
    (.matched ([value].head?.getD .absent) middle)
  refine Setting.gives_untagged found kind untagged ?_
  rw [children]
  exact .passed notCaptured separator (.captured captured second .none)

/-- Statements and separators up to a closing brace are a statement or none, and rounds. -/
theorem rounds_of_laid (keeps : script.keepsSlots = true)
    (stands : parts.Stand script.store script.entries) {values : List Value} {text : List Token}
    {closing : Token} (laid : Laid (script.TakesWhole buffer) values text)
    (closes : closing.kind = "brace_c") (spans : buffer.Spans position (text ++ [closing]) stop) :
    ∃ value middle rounds last,
      (script.setting buffer).Attempted script.entries.statement position value middle ∧
        (script.setting buffer).Listed parts.round middle rounds last ∧
          buffer.Spans last [closing] stop ∧ flatten (value :: rounds.map (·.1)) = values := by
  have ended {last : Nat} (spans : buffer.Spans last [closing] stop) :
      (buffer.peek last).kind = "brace_c" := by rw [spans.1, closes]
  have whole {text : List Token} {value : Value} {position stop : Nat}
      (statement : script.TakesWhole buffer text value) (spans : buffer.Spans position text stop)
      (follows : (buffer.peek stop).kind ∈ "brace_c" :: separatorKinds) :
      (script.setting buffer).Gives script.entries.statement position (.matched value stop) ∧
        spliced value = [value] := by
    have gives := statement position stop spans follows
    exact ⟨gives, spliced_of_gives_entry keeps .statement gives⟩
  -- the rounds end at the closing brace
  have done {last : Nat} (spans : buffer.Spans last [closing] stop) :
      (script.setting buffer).Listed parts.round last [] last :=
    Setting.listed_of_fails (Setting.fails_of_refuses stands.ended (ended spans))
  induction laid generalizing position with
  | none =>
    have absent := attempted_absent stands (by rw [ended spans]; exact List.mem_cons_self)
    exact ⟨_, _, [], position, absent, done spans, spans, rfl⟩
  | separator separates _ ih =>
    obtain ⟨rfl, inside, spans⟩ := spans
    obtain ⟨value, middle, rounds, last, attempted, listed, closed, same⟩ := ih spans
    have absent := attempted_absent stands (List.mem_cons_of_mem _ separates)
    have round := gives_round stands separates inside attempted
    exact ⟨_, _, (value, middle) :: rounds, last, absent, .element round attempted.le listed, closed, same⟩
  | last statement =>
    obtain ⟨middle, taken, closed⟩ := TokenBuffer.spans_append.mp spans
    obtain ⟨gives, single⟩ := whole statement taken (by rw [ended closed]; exact List.mem_cons_self)
    refine ⟨_, middle, [], middle, .present gives, done closed, closed, ?_⟩
    simp [flatten, single]
  | statement statement separates _ ih =>
    rw [List.append_assoc] at spans
    obtain ⟨behind, taken, rfl, inside, more⟩ := TokenBuffer.spans_append.mp spans
    obtain ⟨gives, single⟩ := whole statement taken (List.mem_cons_of_mem _ separates)
    obtain ⟨value, middle, rounds, last, attempted, listed, closed, same⟩ := ih more
    have round := gives_round stands separates inside attempted
    refine ⟨_, behind, (value, middle) :: rounds, last, .present gives,
      .element round attempted.le listed, closed, ?_⟩
    rw [flatten, single, List.map_cons, same, List.singleton_append]

/-- A block of statements and separators gives the node of the statements. -/
theorem block_of_laid (keeps : script.keepsSlots = true)
    (stands : parts.Stand script.store script.entries) {values : List Value} {text : List Token}
    {opening closing : Token} (laid : Laid (script.TakesWhole buffer) values text)
    (opens : opening.kind = "brace_o") (closes : closing.kind = "brace_c")
    (spans : buffer.Spans position (opening :: text ++ [closing]) stop) :
    (script.setting buffer).Gives script.entries.block position (.matched (.tree .block values) stop) := by
  obtain ⟨rfl, inside, spans⟩ := spans
  obtain ⟨value, middle, rounds, last, attempted, listed, closed, rfl⟩ :=
    rounds_of_laid keeps stands laid closes spans
  obtain ⟨rfl, inside', rfl⟩ := closed
  obtain ⟨rule, found, kind, tagged, children⟩ := Store.exists_of_composes stands.block
  obtain ⟨_, foundFirst, kindFirst, _, childrenFirst⟩ := Store.exists_of_composes stands.first
  obtain ⟨_, foundRounds, kindRounds, _, childrenRounds⟩ := Store.exists_of_composes stands.rounds
  have opening : (script.setting buffer).Gives parts.opening position (.matched .absent (position + 1)) :=
    Setting.gives_of_delimits stands.opening (List.mem_singleton.mpr opens) inside
  have first : (script.setting buffer).Gives parts.first (position + 1) (.matched value middle) :=
    Setting.gives_optional foundFirst kindFirst childrenFirst attempted
  have others : (script.setting buffer).Gives parts.rounds middle
      (.matched (.list (rounds.map (·.1))) last) :=
    Setting.gives_repetition foundRounds kindRounds childrenRounds listed
  have closing : (script.setting buffer).Gives parts.closing last (.matched .absent (last + 1)) :=
    Setting.gives_of_delimits stands.closing (List.mem_singleton.mpr closes) inside'
  have named : (some NodeKind.block.tag).bind NodeKind.ofTag? = some .block := by decide
  have made : trees.node (some NodeKind.block.tag) [value, .list (rounds.map (·.1))] =
      .ok (.tree .block (flatten (value :: rounds.map (·.1)))) := by
    rw [trees_node named]
    simp [nodeOf, NodeKind.isLeaf, flatten, spliced]
  refine Setting.gives_tagged found kind tagged ?_ made
  rw [children]
  exact .passed (Store.captures_of_delimits stands.opening) opening
    (.captured (Store.captures_of_composes (by decide) stands.first) first
      (.captured (Store.captures_of_composes (by decide) stands.rounds) others
        (.passed (Store.captures_of_delimits stands.closing) closing .none)))

end Blocks

/-- Tokens that stand at one place only are taken whole if they are taken so there. -/
theorem takesWhole_of_only {script : ScriptParser} {buffer : TokenBuffer} {token : Token}
    {rest : List Token} {value : Value} {place : Nat}
    (only : ∀ position < buffer.body.size, buffer.peek position = token → position = place)
    (gives : (script.setting buffer).Gives script.entries.statement place
      (.matched value (place + (token :: rest).length))) : script.TakesWhole buffer (token :: rest) value := by
  intro position stop spans _
  have inside : position < buffer.body.size := by
    apply Nat.lt_of_not_le
    intro past
    exact nomatch (TokenBuffer.atEnd_of_le past).symm.trans spans.2.1
  obtain rfl := only position inside spans.1
  rw [spans.stop_eq]
  exact gives

/-- Whether a rule matches with a value that is shown in some way, up to a position. -/
def givesShown (outcome : Outcome Value BuildError) (text : String) (stop : Nat) : Bool :=
  match outcome with
  | .matched value next => value.shown = text && next = stop
  | _ => false

theorem exists_of_givesShown {setting : Setting Value BuildError} {budget start stop : Nat} {id : RuleId}
    {text : String} (shown : givesShown (setting.evaluateWithin budget id start) text stop = true) :
    ∃ value, value.shown = text ∧ setting.Gives id start (.matched value stop) := by
  unfold givesShown at shown
  split at shown
  next value next evaluated =>
    simp only [Bool.and_eq_true, decide_eq_true_eq] at shown
    obtain ⟨shown, rfl⟩ := shown
    exact ⟨value, shown, Setting.gives_of_evaluateWithin evaluated nofun⟩
  next => exact nomatch shown

/-- For both vocabularies: a block of any statements, with any separators before and behind them and at
least one between neighbours, is matched up to its closing brace, if the statements are taken whole where a
separator or a closing brace stands behind them. Its children are the values of the statements in order. -/
theorem block_gives_statements {vocabulary : Vocabulary}
    (known : vocabulary = english ∨ vocabulary = chinese) :
    ∃ script, ScriptParser.ofVocabulary vocabulary = .ok script ∧
      ∀ (buffer : TokenBuffer) (opening closing : Token) (before : List Token)
        (statements : List Placed) (start stop : Nat),
        opening.kind = "brace_o" → closing.kind = "brace_c" →
        (∀ token ∈ before, token.kind ∈ separatorKinds) →
        (∀ statement ∈ statements, script.TakesWhole buffer statement.text statement.value ∧
          ∀ token ∈ statement.separators, token.kind ∈ separatorKinds) →
        (∀ statement ∈ statements.dropLast, statement.separators ≠ []) →
        buffer.Spans start (opening :: (before ++ placedText statements) ++ [closing]) stop →
        (script.setting buffer).Gives script.entries.block start
          (.matched (.tree .block (statements.map (·.value))) stop) := by
  obtain ⟨bare, lexer, bareMade, _, made, _⟩ := exists_bare known
  have keeps := ScriptParser.keepsSlots_of_known known bareMade
  have forms : bare.formsBlock = true :=
    ScriptParser.of_known_check _ known (by decide +kernel) (by decide +kernel) bareMade
  obtain ⟨parts, -, stands⟩ := (Option.any_eq_true _ _).mp forms
  refine ⟨_, made, fun buffer opening closing before statements start stop opens closes separates all
    between spans => ?_⟩
  exact block_of_laid keeps (BlockParts.stand_iff.mp stands) (laid_of_placed separates all between) opens
    closes spans

/-- A block with a block inside, and with separators at both ends. -/
def crowdedBlock : List Token := [
  .mark "brace_o" 0, .mark "semi" 1, .ofText "name" "x" 2, .ofText "eq" "=" 3, .ofText "name" "y" 4,
  .mark "newline" 5, .mark "kw_if" 6, .mark "paren_o" 8, .ofText "name" "a" 9, .mark "paren_c" 10,
  .mark "brace_o" 11, .ofText "name" "b" 12, .mark "brace_c" 13, .mark "semi" 14, .mark "semi" 15,
  .mark "kw_break" 16, .mark "newline" 21, .mark "brace_c" 22]

/-- Three statements with separators before, between and behind them are the children of a block. -/
theorem crowdedBlock_gives :
    ∃ script, ScriptParser.ofVocabulary english = .ok script ∧ ∃ assignment conditional exit : Value,
      assignment.shown = "BinaryExpr([Name(['x']), '=', Name(['y'])])" ∧
      conditional.shown = "IfStmnt([Name(['a']), BlockStmnt([Name(['b'])])])" ∧
      exit.shown = "BreakStmt([])" ∧
      (script.setting (.ofTokens crowdedBlock)).Gives script.entries.block 0
        (.matched (.tree .block [assignment, conditional, exit]) 18) := by
  obtain ⟨script, made, gives⟩ := block_gives_statements (.inl (rfl : english = english))
  obtain ⟨bare, lexer, bareMade, rfl⟩ := exists_bare_of_made (.inl rfl) made
  have shown := ScriptParser.of_made_check (fun script =>
    let statement := (script.setting (.ofTokens crowdedBlock)).evaluateWithin 40 script.entries.statement
    givesShown (statement 2) "BinaryExpr([Name(['x']), '=', Name(['y'])])" 5 &&
      givesShown (statement 6) "IfStmnt([Name(['a']), BlockStmnt([Name(['b'])])])" 13 &&
        givesShown (statement 15) "BreakStmt([])" 16) (by decide +kernel) bareMade
  simp only [Bool.and_eq_true] at shown
  obtain ⟨assignment, first, ofFirst⟩ := exists_of_givesShown shown.1.1
  obtain ⟨conditional, second, ofSecond⟩ := exists_of_givesShown shown.1.2
  obtain ⟨exit, third, ofThird⟩ := exists_of_givesShown shown.2
  refine ⟨_, made, assignment, conditional, exit, first, second, third, ?_⟩
  refine gives (.ofTokens crowdedBlock) (.mark "brace_o" 0) (.mark "brace_c" 22) [.mark "semi" 1]
    [⟨(crowdedBlock.take 5).drop 2, assignment, [.mark "newline" 5]⟩,
      ⟨(crowdedBlock.take 13).drop 6, conditional, [.mark "semi" 14, .mark "semi" 15]⟩,
      ⟨[.mark "kw_break" 16], exit, [.mark "newline" 21]⟩] 0 18 rfl rfl (by decide) ?_ (by simp) ?_
  · intro statement mem
    simp only [List.mem_cons, List.not_mem_nil, or_false] at mem
    rcases mem with rfl | rfl | rfl
    · exact ⟨takesWhole_of_only (by decide) ofFirst, by simp [separatorKinds, Token.mark]⟩
    · exact ⟨takesWhole_of_only (by decide) ofSecond, by simp [separatorKinds, Token.mark]⟩
    · exact ⟨takesWhole_of_only (by decide) ofThird, by simp [separatorKinds, Token.mark]⟩
  · have text : ∃ stop, (TokenBuffer.ofTokens crowdedBlock).Spans 0 crowdedBlock stop ∧
        (TokenBuffer.ofTokens crowdedBlock).atEnd stop = true := TokenBuffer.spans_text_iff.mpr rfl
    obtain ⟨stop, spans, -⟩ := text
    obtain rfl : stop = 18 := spans.stop_eq
    exact spans

end Script

end Grammatic
