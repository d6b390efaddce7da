import Grammatic.Proofs.Grammar.Freezing

/-!
# Histories of calls

Rules, tables, sets of words and grammars are shared, so what was compiled once is open to all the calls
that are made later. But no call changes what is sealed: a frozen rule with fixed words, a frozen table,
or a grammar with fixed words. One step keeps it (`Call.keeps`), and so does a history of any calls, those
that fail included (`keeps_history`).

A rule that is frozen is not enough for this: the words of its own may still be a set that grows.
Compilation fixes them when it freezes the rule.
-/

namespace Grammatic

/-- A rule that nothing changes any more: it is frozen, and words of its own are fixed. -/
structure Rule.Sealed (rule : Rule) : Prop where
  frozen : rule.frozen = true
  words : ∀ words, rule.reserved = .words words → ∃ set, words = .fixed set

/-- A store in which all that was sealed in another is still the same. -/
structure Store.Keeps (before after : Store) : Prop where
  rules : ∀ {id : RuleId} {rule : Rule}, before.rules[id]? = some rule → rule.Sealed →
    after.rules[id]? = some rule
  tables : ∀ {id : TableId} {table : OperatorTable}, before.tables[id]? = some table →
    table.frozen = true → after.tables[id]? = some table
  grammars : ∀ {id : GrammarId} {grammar : Grammar} {set : StringSet},
    before.grammars[id]? = some grammar → grammar.words = .fixed set →
    after.grammars[id]? = some grammar

namespace Store

variable {store : Store}

theorem Keeps.refl (store : Store) : store.Keeps store where
  rules found _ := found
  tables found _ := found
  grammars found _ := found

theorem Keeps.trans {before between after : Store} (first : before.Keeps between)
    (second : between.Keeps after) : before.Keeps after where
  rules found isSealed := second.rules (first.rules found isSealed) isSealed
  tables found frozen := second.tables (first.tables found frozen) frozen
  grammars found fixed := second.grammars (first.grammars found fixed) fixed

theorem getElem?_push_of_some {α : Type} {items : Array α} {item old : α} {id : Nat}
    (found : items[id]? = some old) : (items.push item)[id]? = some old := by
  have valid := (Array.getElem?_eq_some_iff.mp found).1
  rw [Array.getElem?_push_lt valid, ← Array.getElem?_eq_getElem valid, found]

theorem keeps_pushRule {rule : Rule} (within : rule.within store.rules.size store.tables.size) :
    store.Keeps (store.pushRule rule within) where
  rules found _ := getElem?_push_of_some found
  tables found _ := found
  grammars found _ := found

/-- A rule that is not frozen may get one more component. -/
theorem keeps_addChild {parent child : RuleId} (valid : child < store.rules.size)
    (unfrozen : ∀ rule, store.rules[parent]? = some rule → rule.frozen = false) :
    store.Keeps (store.addChild parent child valid) where
  rules := by
    intro id rule found isSealed
    have other : parent ≠ id := by
      rintro rfl
      exact absurd isSealed.frozen (by rw [unfrozen rule found]; exact Bool.false_ne_true)
    simp only [addChild, Array.getElem?_modify, other, if_false]
    exact found
  tables found _ := found
  grammars found _ := found

/-- Tables that are not frozen may be changed. -/
theorem keeps_mapTables {change : TableId → OperatorTable → OperatorTable}
    (same : ∀ id table, store.tables[id]? = some table → table.frozen = true →
      change id table = table) : store.Keeps (store.mapTables change) where
  rules found _ := found
  tables := by
    intro id table found frozen
    simp only [mapTables, Array.getElem?_mapIdx, found, Option.map_some]
    rw [same id table found frozen]
  grammars found _ := found

/-- What is frozen once more stays as it is. -/
theorem keeps_freeze (id : GrammarId) (rules : List RuleId) : store.Keeps (store.freeze id rules) where
  rules := by
    intro i rule found isSealed
    rw [getElem?_rules_freeze, found, Option.map_some]
    have frozen : (i ∈ rules || rule.frozen) = true := by rw [isSealed.frozen, Bool.or_true]
    have reserved : store.fixReserved rule.reserved = rule.reserved := by
      cases own : rule.reserved with
      | none | ofGrammar => rfl
      | words words =>
        obtain ⟨set, rfl⟩ := isSealed.words words own
        rfl
    rw [frozen, reserved, ite_self, ← isSealed.frozen]
  tables := by
    intro i table found frozen
    rw [getElem?_tables_freeze, found, Option.map_some]
    have still : (i ∈ store.tablesOf id rules || table.frozen) = true := by
      rw [frozen, Bool.or_true]
    rw [still, ← frozen]
  grammars := by
    intro i grammar set found fixed
    have words : store.fixWords grammar.words = grammar.words := by rw [fixed]; rfl
    rw [getElem?_grammars_freeze, found, Option.map_some, words, ite_self]

end Store

namespace Building

variable {α β : Type}

/-- The store behind a step, whether it succeeds or fails. -/
def after (step : Building α) (store : Store) : Store :=
  match step.run store with
  | .ok _ store => store
  | .error _ store => store

theorem after_of_ok {step : Building α} {store store' : Store} {value : α}
    (ran : step.run store = .ok value store') : step.after store = store' := by
  rw [after, ran]

theorem after_of_error {step : Building α} {store store' : Store} {e : DefinitionError}
    (ran : step.run store = .error e store') : step.after store = store' := by
  rw [after, ran]

/-- A step that changes nothing that is sealed. -/
def Keeps (step : Building α) : Prop :=
  ∀ store : Store, store.Keeps (step.after store)

theorem Reads.after_eq {step : Building α} (reads : Reads step) (store : Store) :
    step.after store = store := by
  rcases reads store with ⟨value, ran⟩ | ⟨e, ran⟩
  · exact after_of_ok ran
  · exact after_of_error ran

theorem Reads.keeps {step : Building α} (reads : Reads step) : Keeps step := by
  intro store
  rw [reads.after_eq]
  exact .refl store

/-- Checks that only read can stand before a step that changes nothing that is sealed. -/
theorem Reads.bind_keeps {first : Building α} {next : α → Building β} (reads : Reads first)
    (keeps : ∀ value, Keeps (next value)) : Keeps (first >>= next) := by
  intro store
  unfold after
  rw [EStateM.run_bind]
  rcases reads store with ⟨value, ran⟩ | ⟨e, ran⟩
  · rw [ran]
    exact keeps value store
  · rw [ran]
    exact .refl store

theorem Keeps.bind_reads {first : Building α} {next : α → Building β} (keeps : Keeps first)
    (reads : ∀ value, Reads (next value)) : Keeps (first >>= next) := by
  intro store
  have kept := keeps store
  unfold after at kept ⊢
  rw [EStateM.run_bind]
  cases ran : first.run store with
  | ok value between =>
    rw [ran] at kept
    have same := (reads value).after_eq between
    unfold after at same
    simp only [same]
    exact kept
  | error e between =>
    rw [ran] at kept
    exact kept

/-! ## The calls one by one -/

theorem keeps_addRule (rule : Rule) : Keeps (addRule rule) := by
  intro store
  by_cases within : rule.within store.rules.size store.tables.size
  · rw [after_of_ok (run_addRule within)]
    exact Store.keeps_pushRule within
  · have ran : (addRule rule).run store = .error (.unknownItem store.rules.size) store :=
      dif_neg within
    rw [after_of_error ran]
    exact .refl store

theorem keeps_newRule (tag : Datum) : Keeps (newRule tag) := by
  unfold newRule
  split
  next => exact keeps_addRule _
  next => exact (reads_check _).bind_keeps fun _ => keeps_addRule _

theorem keeps_append (parent : RuleId) (component : Rule) : Keeps (append parent component) := by
  intro store
  rcases run_append_cases parent component store with
    ⟨e, ran⟩ | ⟨rule, found, notFrozen, _, _, within, valid, ran⟩
  · rw [after_of_error ran]
    exact .refl store
  · rw [after_of_ok ran]
    refine (Store.keeps_pushRule within).trans (Store.keeps_addChild valid fun other found' => ?_)
    have same : some rule = some other := (Store.getElem?_push_of_some found).symm.trans found'
    rw [← Option.some.inj same, notFrozen]

theorem keeps_delimiter (parent : RuleId) (kinds : List Datum) : Keeps (delimiter parent kinds) := by
  unfold delimiter
  split
  next => exact (reads_throw _).bind_keeps fun _ => (reads_check _).bind_keeps fun _ => keeps_append _ _
  next => exact (reads_check _).bind_keeps fun _ => keeps_append _ _

theorem keeps_choice (parent : RuleId) (alternatives : List Argument) :
    Keeps (choice parent alternatives) := by
  have keeps : Keeps (alternatives.mapM ruleOf >>= fun children =>
      append parent { kind := .alternation, children }) :=
    (Reads.mapM reads_ruleOf alternatives).bind_keeps fun _ => keeps_append _ _
  unfold choice
  split
  next => exact (reads_throw _).bind_keeps fun _ => keeps
  next => exact keeps

theorem keeps_literal (parent : RuleId) (tag : Datum) (kinds : List Datum) (literal : Literal)
    (reserved : Reserved) : Keeps (Building.literal parent tag kinds literal reserved) :=
  (reads_check _).bind_keeps fun _ => (reads_check _).bind_keeps fun _ => keeps_append _ _

theorem keeps_expression (parent : RuleId) (tag : Datum) (operand operators : Argument) :
    Keeps (expression parent tag operand operators) := by
  refine (reads_tableOf _).bind_keeps fun _ => (reads_check _).bind_keeps fun _ => ?_
  exact (reads_ruleOf _).bind_keeps fun _ => keeps_append _ _

theorem keeps_newTable (entries : List (Datum × Datum × AssocArgument)) :
    Keeps (newTable entries) := by
  intro store
  simp only [after, newTable, EStateM.run]
  cases OperatorTable.ofList entries with
  | error e => exact .refl store
  | ok table =>
    refine ⟨fun found _ => found, fun found _ => ?_, fun found _ => found⟩
    exact Store.getElem?_push_of_some found

/-- An operator is refused by a table that is frozen. -/
theorem keeps_addOperator (id : TableId) (kind precedence : Datum) (assoc : AssocArgument) :
    Keeps (addOperator id kind precedence assoc) := by
  intro store
  simp only [after, addOperator, EStateM.run]
  cases found : store.tables[id]? with
  | none => exact .refl store
  | some table =>
    simp only
    cases added : table.add kind precedence assoc with
    | error e => exact .refl store
    | ok table' =>
      apply Store.keeps_mapTables
      intro i old found' frozen
      split
      next same =>
        subst same
        obtain rfl := Option.some.inj (found.symm.trans found')
        simp [OperatorTable.add, frozen] at added
      next => rfl

theorem keeps_freezeTable (id : TableId) : Keeps (freezeTable id) := by
  intro store
  apply Store.keeps_mapTables
  intro i table _ frozen
  split
  next => rw [← frozen]
  next => rfl

/-- Changes a set of words in any way. -/
def changeWords (id : WordsId) (change : StringSet → StringSet) : Building Unit :=
  modify fun store => { store with wordSets := store.wordSets.modify id change }

theorem addWord_eq_changeWords (id : WordsId) (word : String) :
    addWord id word = changeWords id (·.insert word) := rfl

theorem keeps_changeWords (id : WordsId) (change : StringSet → StringSet) :
    Keeps (changeWords id change) :=
  fun _ => ⟨fun found _ => found, fun found _ => found, fun found _ => found⟩

theorem keeps_newWords (words : List String) : Keeps (newWords words) :=
  fun _ => ⟨fun found _ => found, fun found _ => found, fun found _ => found⟩

theorem keeps_newGrammar (grammar : Grammar) : Keeps (newGrammar grammar) :=
  fun _ => ⟨fun found _ => found, fun found _ => found, fun found _ => Store.getElem?_push_of_some found⟩

theorem keeps_compile (id : GrammarId) (root : Argument) (lexer : Option Lexer) :
    Keeps (compile id root lexer) := by
  intro store
  cases ran : (compile id root lexer).run store with
  | ok parser store' =>
    obtain ⟨_, facts⟩ := exists_of_compiled ran
    rw [after_of_ok ran, facts.freezes]
    exact Store.keeps_freeze id parser.rules
  | error e store' =>
    rw [after_of_error ran, atomic_compile id root lexer store e store' ran]
    exact .refl store

end Building

/-! ## Histories -/

/-- A call that builds, changes or compiles something in a store. -/
inductive Call where
  | newRule (tag : Datum)
  /-- A rule put together by hand. -/
  | addRule (rule : Rule)
  | delimiter (parent : RuleId) (kinds : List Datum)
  | capture (parent : RuleId) (sub : Argument)
  | optional (parent : RuleId) (sub : Argument)
  | repetition (parent : RuleId) (sub : Argument)
  | choice (parent : RuleId) (alternatives : List Argument)
  | number (parent : RuleId) (tag kind : Datum)
  | identifier (parent : RuleId) (tag : Datum) (reserved : Reserved) (kind : Datum)
  | string (parent : RuleId) (tag kind : Datum)
  | truth (parent : RuleId) (tag trueKind falseKind : Datum)
  | null (parent : RuleId) (tag kind : Datum)
  | expression (parent : RuleId) (tag : Datum) (operand operators : Argument)
  | newTable (entries : List (Datum × Datum × AssocArgument))
  | addOperator (id : TableId) (kind precedence : Datum) (assoc : AssocArgument)
  | freezeTable (id : TableId)
  | newWords (words : List String)
  /-- Any change of a set of words that can still grow. -/
  | changeWords (id : WordsId) (change : StringSet → StringSet)
  | newGrammar (grammar : Grammar)
  | compile (id : GrammarId) (root : Argument) (lexer : Option Lexer)

namespace Call

/-- A call as a step. -/
def step : Call → Building Unit
  | .newRule tag => discard (Building.newRule tag)
  | .addRule rule => discard (Building.addRule rule)
  | .delimiter parent kinds => Building.delimiter parent kinds
  | .capture parent sub => Building.capture parent sub
  | .optional parent sub => Building.optional parent sub
  | .repetition parent sub => Building.repetition parent sub
  | .choice parent alternatives => Building.choice parent alternatives
  | .number parent tag kind => Building.number parent tag kind
  | .identifier parent tag reserved kind => Building.identifier parent tag reserved kind
  | .string parent tag kind => Building.string parent tag kind
  | .truth parent tag trueKind falseKind => Building.truth parent tag trueKind falseKind
  | .null parent tag kind => Building.null parent tag kind
  | .expression parent tag operand operators => Building.expression parent tag operand operators
  | .newTable entries => discard (Building.newTable entries)
  | .addOperator id kind precedence assoc => Building.addOperator id kind precedence assoc
  | .freezeTable id => Building.freezeTable id
  | .newWords words => discard (Building.newWords words)
  | .changeWords id change => Building.changeWords id change
  | .newGrammar grammar => discard (Building.newGrammar grammar)
  | .compile id root lexer => discard (Building.compile id root lexer)

open Building in
/-- No call changes anything that is sealed. -/
theorem keeps (call : Call) : Building.Keeps call.step := by
  cases call with
  | newRule tag => exact (keeps_newRule tag).bind_reads fun _ => reads_pure _
  | addRule rule => exact (keeps_addRule rule).bind_reads fun _ => reads_pure _
  | delimiter parent kinds => exact keeps_delimiter parent kinds
  | capture parent sub | optional parent sub | repetition parent sub =>
    exact (reads_ruleOf sub).bind_keeps fun _ => keeps_append _ _
  | choice parent alternatives => exact keeps_choice parent alternatives
  | number parent _ _ | identifier parent _ _ _ | string parent _ _ | truth parent _ _ _
  | null parent _ _ => exact keeps_literal parent _ _ _ _
  | expression parent tag operand operators => exact keeps_expression parent tag operand operators
  | newTable entries => exact (keeps_newTable entries).bind_reads fun _ => reads_pure _
  | addOperator id kind precedence assoc => exact keeps_addOperator id kind precedence assoc
  | freezeTable id => exact keeps_freezeTable id
  | newWords words => exact (keeps_newWords words).bind_reads fun _ => reads_pure _
  | changeWords id change => exact keeps_changeWords id change
  | newGrammar grammar => exact (keeps_newGrammar grammar).bind_reads fun _ => reads_pure _
  | compile id root lexer => exact (keeps_compile id root lexer).bind_reads fun _ => reads_pure _

end Call

/-- The store behind a history of calls, of which any may have failed. -/
def Store.afterAll (store : Store) (history : List Call) : Store :=
  history.foldl (fun store call => call.step.after store) store

/-- No history changes anything that is sealed. -/
theorem Store.keeps_afterAll (store : Store) (history : List Call) :
    store.Keeps (store.afterAll history) := by
  induction history generalizing store with
  | nil => exact .refl store
  | cons call rest ih => exact (call.keeps store).trans (ih _)

end Grammatic
