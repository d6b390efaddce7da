import Grammatic.Proofs.Evaluation.Rearranging
import Grammatic.Proofs.Grammar.Freezing
import Grammatic.Proofs.Grammar.History

/-!
# Declaring alternatives in another order

Two declarations that name the alternatives of some choices in different orders take the same steps. They
make the same numbers of rules, and leave stores behind that are equal but for these orders
(`Building.Mirrored`). Such stores have the same reachable rules and pass the same checks. So if the first
is compiled, then so is the second, and the compiled stores are again equal but for the orders
(`Building.compile_mirrored`).

The steps are told with the number of rules before and behind them, which is what numbers new rules depend on.
-/

namespace Grammatic

/-- Whether a rule refers to what there is does not depend on the order of its sub-rules. -/
theorem Rule.within_of_perm {rule : Rule} {children : List RuleId} {rules tables : Nat}
    (perm : children.Perm rule.children) :
    ({ rule with children } : Rule).within rules tables = rule.within rules tables := by
  simp only [Rule.within, perm.all_eq]

namespace Store.Rearranged

variable {choices : List RuleId} {store other : Store}

/-- The rule of a sequence is the same in both orders. -/
theorem getElem?_sequence (rearranged : store.Rearranged choices other) {id : RuleId} {rule : Rule}
    (found : store.rules[id]? = some rule) (kind : rule.kind = .sequence) :
    other.rules[id]? = some rule := by
  rcases rearranged.rules id with same | ⟨rule', _, found', kind', _⟩
  · rw [same, found]
  · obtain rfl := Option.some.inj (found.symm.trans found')
    cases kind.symm.trans kind'

/-- Both stores get the same rule, or a choice in another order. -/
theorem pushRule (rearranged : store.Rearranged choices other) {rule : Rule} {children : List RuleId}
    (perm : children.Perm rule.children)
    (known : children = rule.children ∨ rule.kind = .alternation ∧ store.rules.size ∈ choices)
    (within : rule.within store.rules.size store.tables.size)
    (within' : ({ rule with children } : Rule).within other.rules.size other.tables.size) :
    (store.pushRule rule within).Rearranged choices (other.pushRule { rule with children } within') where
  rules := by
    intro id
    simp only [Store.pushRule, Array.getElem?_push, rearranged.size_eq]
    by_cases new : id = store.rules.size
    · rw [if_pos new, if_pos new]
      rcases known with same | ⟨kind, chosen⟩
      · left
        rw [same]
      · rw [new]
        exact .inr ⟨rule, children, rfl, kind, perm, rfl, chosen⟩
    · rw [if_neg new, if_neg new]
      exact rearranged.rules id
  tables := rearranged.tables
  wordSets := rearranged.wordSets
  grammars := rearranged.grammars

/-- Both stores get the same component of a sequence. -/
theorem addChild (rearranged : store.Rearranged choices other) {parent child : RuleId} {rule : Rule}
    (found : store.rules[parent]? = some rule) (kind : rule.kind = .sequence)
    (valid : child < store.rules.size) (valid' : child < other.rules.size) :
    (store.addChild parent child valid).Rearranged choices (other.addChild parent child valid') where
  rules := by
    intro id
    simp only [Store.addChild, Array.getElem?_modify]
    by_cases isParent : parent = id
    · subst isParent
      left
      rw [if_pos rfl, if_pos rfl, found, rearranged.getElem?_sequence found kind]
    · rw [if_neg isParent, if_neg isParent]
      exact rearranged.rules id
  tables := rearranged.tables
  wordSets := rearranged.wordSets
  grammars := rearranged.grammars

/-- The same rules can be reached. -/
theorem reachableFrom_eq (rearranged : store.Rearranged choices other) :
    other.ReachableFrom = store.ReachableFrom := by
  have same : (fun parent child => child ∈ other.childrenOf parent) =
      fun parent child => child ∈ store.childrenOf parent := by
    funext parent child
    exact propext (rearranged.childrenOf_perm parent).mem_iff
  funext root
  rw [ReachableFrom, ReachableFrom, same]

theorem mem_reachable_iff (rearranged : store.Rearranged choices other) {root id : RuleId} :
    id ∈ other.reachable root ↔ id ∈ store.reachable root := by
  rw [Store.mem_reachable_iff, Store.mem_reachable_iff, rearranged.reachableFrom_eq]

theorem checkRule_eq (rearranged : store.Rearranged choices other) :
    other.checkRule = store.checkRule := by
  funext known id rule
  have counts : other.captureCount rule = store.captureCount rule := by
    rw [captureCount, captureCount, rearranged.captures_eq]
  unfold checkRule
  rw [counts, rearranged.tableOf?_eq]

/-- A rule passes its check in any order of its alternatives. -/
theorem checkRuleAt_eq (rearranged : store.Rearranged choices other) :
    other.checkRuleAt = store.checkRuleAt := by
  funext known id
  rcases rearranged.rules id with same | ⟨rule, children, found, kind, perm, found', _⟩
  · simp only [checkRuleAt, same, rearranged.checkRule_eq]
  · have empty : children = [] ↔ rule.children = [] := by
      rw [← List.isEmpty_iff, ← List.isEmpty_iff, perm.isEmpty_eq]
    simp only [checkRuleAt, found, found', checkRule, kind, empty]

theorem fixReserved_eq (rearranged : store.Rearranged choices other) :
    other.fixReserved = store.fixReserved := by
  funext reserved
  have same : other.wordSet = store.wordSet := by
    funext words
    cases words <;> simp only [wordSet, rearranged.wordSets]
  cases reserved <;> simp only [fixReserved, fixWords, same]

theorem fixWords_eq (rearranged : store.Rearranged choices other) : other.fixWords = store.fixWords := by
  funext words
  cases words <;> simp only [fixWords, wordSet, rearranged.wordSets]

/-- The tables that are frozen with some rules, in any order of the rules. -/
theorem mem_tablesOf_iff (rearranged : store.Rearranged choices other) {grammar : GrammarId}
    {rules rules' : List RuleId} (same : ∀ id, id ∈ rules' ↔ id ∈ rules) {table : TableId} :
    table ∈ other.tablesOf grammar rules' ↔ table ∈ store.tablesOf grammar rules := by
  have tables (id : RuleId) : other.rules[id]?.map (·.table) = store.rules[id]?.map (·.table) := by
    rcases rearranged.rules id with same | ⟨rule, children, found, _, _, found', _⟩
    · rw [same]
    · rw [found, found']
      rfl
  have refers (id : RuleId) : (∃ rule, other.rules[id]? = some rule ∧ rule.table = some table) ↔
      ∃ rule, store.rules[id]? = some rule ∧ rule.table = some table := by
    rw [← Option.map_eq_some_iff, ← Option.map_eq_some_iff, tables]
  simp only [Store.mem_tablesOf_iff, rearranged.grammars, same, refers]

/-- Freezing the same rules keeps the orders apart, and nothing else. -/
theorem freeze (rearranged : store.Rearranged choices other) (grammar : GrammarId)
    {rules rules' : List RuleId} (same : ∀ id, id ∈ rules' ↔ id ∈ rules) :
    (store.freeze grammar rules).Rearranged choices (other.freeze grammar rules') where
  rules := by
    intro id
    simp only [getElem?_rules_freeze, same, rearranged.fixReserved_eq]
    rcases rearranged.rules id with same | ⟨rule, children, found, kind, perm, found', chosen⟩
    · left
      rw [same]
    · right
      simp only [found, found', Option.map_some]
      exact ⟨_, children, rfl, kind, perm, rfl, chosen⟩
  tables := by
    apply Array.ext_getElem?
    intro table
    simp only [getElem?_tables_freeze, rearranged.tables, rearranged.mem_tablesOf_iff same]
  wordSets := rearranged.wordSets
  grammars := by
    apply Array.ext_getElem?
    intro id
    simp only [getElem?_grammars_freeze, rearranged.grammars, rearranged.fixWords_eq]

end Store.Rearranged

namespace Building

variable {α β : Type} {choices : List RuleId} {size size' : Nat}

/-- Two steps go on in the same way from stores with a number of rules that are equal but for the order of some
choices: if the first succeeds, then both have a value, and leave such stores with a number of rules behind. -/
def Mirrored (choices : List RuleId) (size : Nat) (step step' : Building α) (value : α) (size' : Nat) :
    Prop :=
  ∀ (store other after : Store) (result : α), store.Rearranged choices other →
    store.rules.size = size → step.run store = .ok result after →
      result = value ∧ after.rules.size = size' ∧
        ∃ after', step'.run other = .ok value after' ∧ after.Rearranged choices after'

/-! ## Steps one behind the other -/

theorem Mirrored.pure (value : α) :
    Mirrored choices size (Pure.pure value : Building α) (Pure.pure value) value size := by
  intro store other after result rearranged isSize run
  obtain ⟨rfl, rfl⟩ := EStateM.Result.ok.inj run
  exact ⟨rfl, isSize, other, rfl, rearranged⟩

theorem Mirrored.bind {first first' : Building α} {next next' : α → Building β} {value : α} {last : β}
    {middle : Nat} (head : Mirrored choices size first first' value middle)
    (rest : Mirrored choices middle (next value) (next' value) last size') :
    Mirrored choices size (first >>= next) (first' >>= next') last size' := by
  intro store other after result rearranged isSize run
  obtain ⟨_, between, ran, goes⟩ := exists_of_bind_ok run
  obtain ⟨rfl, isSize, between', ran', rearranged⟩ := head _ _ _ _ rearranged isSize ran
  obtain ⟨same, isSize, after', run', rearranged⟩ := rest _ _ _ _ rearranged isSize goes
  refine ⟨same, isSize, after', ?_, rearranged⟩
  rw [EStateM.run_bind, ran']
  exact run'

/-- A step that makes no rules has the same value on both sides. -/
def Shared (choices : List RuleId) (step : Building α) : Prop :=
  ∀ (store other after : Store) (value : α), store.Rearranged choices other →
    step.run store = .ok value after → after.rules.size = store.rules.size ∧
      ∃ after', step.run other = .ok value after' ∧ after.Rearranged choices after'

theorem Shared.bind {first : Building α} {next next' : α → Building β} {last : β}
    (shared : Shared choices first)
    (rest : ∀ value, Mirrored choices size (next value) (next' value) last size') :
    Mirrored choices size (first >>= next) (first >>= next') last size' := by
  intro store other after result rearranged isSize run
  obtain ⟨value, between, ran, goes⟩ := exists_of_bind_ok run
  obtain ⟨sameSize, between', ran', rearranged⟩ := shared _ _ _ _ rearranged ran
  obtain ⟨same, isSize, after', run', rearranged⟩ :=
    rest value _ _ _ _ rearranged (sameSize.trans isSize) goes
  refine ⟨same, isSize, after', ?_, rearranged⟩
  rw [EStateM.run_bind, ran']
  exact run'

theorem shared_check (result : Except DefinitionError α) : Shared choices (check result) := by
  intro store other after value rearranged ran
  obtain ⟨rfl, rfl⟩ := eq_ok_of_check ran
  exact ⟨rfl, other, rfl, rearranged⟩

theorem run_ruleOf {store : Store} {id : RuleId} (valid : id < store.rules.size) :
    (ruleOf (.item id)).run store = .ok id store := by
  simp [ruleOf, EStateM.run_bind, valid]

theorem shared_ruleOf (argument : Argument) : Shared choices (ruleOf argument) := by
  intro store other after id rearranged ran
  obtain ⟨rfl, valid, rfl⟩ := eq_item_of_ruleOf ran
  rw [← rearranged.size_eq] at valid
  exact ⟨rfl, other, run_ruleOf valid, rearranged⟩

theorem shared_tableOf (argument : Argument) : Shared choices (tableOf argument) := by
  intro store other after id rearranged ran
  cases argument with
  | other value => cases ran
  | item table =>
    obtain ⟨_, _, got, ran⟩ := exists_of_bind_ok ran
    obtain ⟨rfl, rfl⟩ := EStateM.Result.ok.inj got
    split at ran
    next valid =>
      obtain ⟨rfl, rfl⟩ := EStateM.Result.ok.inj ran
      rw [← rearranged.tables] at valid
      exact ⟨rfl, other, by simp [tableOf, EStateM.run_bind, valid], rearranged⟩
    next => cases ran

theorem shared_newWords (words : List String) : Shared choices (newWords words) := by
  intro store other after id rearranged ran
  obtain ⟨rfl, rfl⟩ := EStateM.Result.ok.inj ran
  refine ⟨rfl, { other with wordSets := other.wordSets.push (.ofList words) }, ?_, rearranged.rules,
    rearranged.tables, ?_, rearranged.grammars⟩
  · rw [← rearranged.wordSets]
    rfl
  · rw [rearranged.wordSets]

theorem shared_newTable (entries : List (Datum × Datum × AssocArgument)) :
    Shared choices (newTable entries) := by
  intro store other after id rearranged ran
  simp only [newTable, EStateM.run] at ran ⊢
  cases listed : OperatorTable.ofList entries with
  | error e =>
    rw [listed] at ran
    cases ran
  | ok table =>
    rw [listed] at ran
    obtain ⟨rfl, rfl⟩ := EStateM.Result.ok.inj ran
    refine ⟨rfl, other.pushTable table, ?_, rearranged.rules, ?_, rearranged.wordSets,
      rearranged.grammars⟩
    · rw [rearranged.tables]
    · simp only [Store.pushTable, rearranged.tables]

theorem shared_newGrammar (grammar : Grammar) : Shared choices (newGrammar grammar) := by
  intro store other after id rearranged ran
  obtain ⟨rfl, rfl⟩ := EStateM.Result.ok.inj ran
  refine ⟨rfl, { other with grammars := other.grammars.push grammar }, ?_, rearranged.rules,
    rearranged.tables, rearranged.wordSets, ?_⟩
  · rw [← rearranged.grammars]
    rfl
  · rw [rearranged.grammars]

/-! ## Steps that change the rules -/

theorem addRule_mirrored (rule : Rule) :
    Mirrored choices size (addRule rule) (addRule rule) size (size + 1) := by
  intro store other after result rearranged isSize run
  simp only [addRule, EStateM.run] at run
  split at run
  next within =>
    obtain ⟨rfl, rfl⟩ := EStateM.Result.ok.inj run
    have within' : rule.within other.rules.size other.tables.size := by
      rw [rearranged.size_eq, rearranged.tables]
      exact within
    refine ⟨isSize, ?_, other.pushRule rule within', ?_,
      rearranged.pushRule (.refl _) (.inl rfl) within within'⟩
    · simp [Store.pushRule, isSize]
    · rw [← isSize, ← rearranged.size_eq]
      exact dif_pos within'
  next => cases run

theorem newRule_mirrored (tag : Datum) :
    Mirrored choices size (newRule tag) (newRule tag) size (size + 1) := by
  unfold newRule
  split
  next => exact addRule_mirrored _
  next => exact (shared_check _).bind fun _ => addRule_mirrored _

/-- What a component has passed that was appended. -/
theorem exists_of_append_ok {parent : RuleId} {component : Rule} {store after : Store}
    (run : (append parent component).run store = .ok () after) :
    ∃ rule, store.rules[parent]? = some rule ∧ rule.frozen = false ∧ rule.kind = .sequence ∧
      ¬ (component.captures = true ∧ rule.tag = none ∧ store.captureCount rule ≠ 0) ∧
        ∃ (within : component.within store.rules.size store.tables.size)
          (valid : store.rules.size < (store.pushRule component within).rules.size),
          after = (store.pushRule component within).addChild parent store.rules.size valid := by
  rcases run_append_cases parent component store with
    ⟨e, ran⟩ | ⟨rule, found, notFrozen, isSequence, single, within, valid, ran⟩
  · exact nomatch ran.symm.trans run
  · obtain ⟨-, same⟩ := EStateM.Result.ok.inj (ran.symm.trans run)
    exact ⟨rule, found, notFrozen, isSequence, single, within, valid, same.symm⟩

theorem run_append {parent : RuleId} {rule component : Rule} {store : Store}
    (found : store.rules[parent]? = some rule) (notFrozen : rule.frozen = false)
    (isSequence : rule.kind = .sequence)
    (single : ¬ (component.captures = true ∧ rule.tag = none ∧ store.captureCount rule ≠ 0))
    (within : component.within store.rules.size store.tables.size) :
    ∃ valid, (append parent component).run store =
      .ok () ((store.pushRule component within).addChild parent store.rules.size valid) := by
  refine ⟨by simp [Store.pushRule], ?_⟩
  simp only [append, EStateM.run, found, notFrozen, isSequence]
  rw [if_neg Bool.false_ne_true, if_neg (by simp), if_neg single, dif_pos within]

/-- The same component is appended on both sides, or a choice with its alternatives in two orders. -/
theorem append_mirrored (parent : RuleId) {component : Rule} {children : List RuleId}
    (perm : children.Perm component.children)
    (known : children = component.children ∨ component.kind = .alternation ∧ size ∈ choices) :
    Mirrored choices size (append parent component) (append parent { component with children }) ()
      (size + 1) := by
  intro store other after result rearranged isSize run
  obtain ⟨rule, found, notFrozen, isSequence, single, within, valid, rfl⟩ := exists_of_append_ok run
  have found' := rearranged.getElem?_sequence found isSequence
  have single' : ¬ (({ component with children } : Rule).captures = true ∧ rule.tag = none ∧
      other.captureCount rule ≠ 0) := by
    rw [Store.captureCount, rearranged.captures_eq]
    exact single
  have within' : ({ component with children } : Rule).within other.rules.size other.tables.size := by
    rw [Rule.within_of_perm perm, rearranged.size_eq, rearranged.tables]
    exact within
  obtain ⟨valid', run'⟩ := run_append found' notFrozen isSequence single' within'
  rw [← isSize] at known
  have pushed := rearranged.pushRule perm known within within'
  have kept : (store.pushRule component within).rules[parent]? = some rule :=
    Store.getElem?_push_of_some found
  refine ⟨rfl, ?_, _, run', ?_⟩
  · simp [Store.addChild, Store.pushRule, isSize]
  · simp only [rearranged.size_eq]
    exact pushed.addChild kept isSequence valid _

/-- A component that is the same on both sides. -/
theorem append_same_mirrored (parent : RuleId) (component : Rule) :
    Mirrored choices size (append parent component) (append parent component) () (size + 1) :=
  append_mirrored parent (.refl _) (.inl rfl)

theorem delimiter_mirrored (parent : RuleId) (kinds : List Datum) :
    Mirrored choices size (delimiter parent kinds) (delimiter parent kinds) () (size + 1) := by
  unfold delimiter
  split
  next =>
    intro store other after result _ _ run
    cases run
  next => exact (shared_check _).bind fun _ => append_same_mirrored _ _

theorem capture_mirrored (parent : RuleId) (sub : Argument) :
    Mirrored choices size (capture parent sub) (capture parent sub) () (size + 1) :=
  (shared_ruleOf _).bind fun _ => append_same_mirrored _ _

theorem optional_mirrored (parent : RuleId) (sub : Argument) :
    Mirrored choices size (optional parent sub) (optional parent sub) () (size + 1) :=
  (shared_ruleOf _).bind fun _ => append_same_mirrored _ _

theorem repetition_mirrored (parent : RuleId) (sub : Argument) :
    Mirrored choices size (repetition parent sub) (repetition parent sub) () (size + 1) :=
  (shared_ruleOf _).bind fun _ => append_same_mirrored _ _

theorem literal_mirrored (parent : RuleId) (tag : Datum) (kinds : List Datum) (kind : Literal)
    (reserved : Reserved) :
    Mirrored choices size (literal parent tag kinds kind reserved) (literal parent tag kinds kind reserved)
      () (size + 1) :=
  (shared_check _).bind fun _ => (shared_check _).bind fun _ => append_same_mirrored _ _

theorem expression_mirrored (parent : RuleId) (tag : Datum) (operand operators : Argument) :
    Mirrored choices size (expression parent tag operand operators)
      (expression parent tag operand operators) () (size + 1) :=
  (shared_tableOf _).bind fun _ => (shared_check _).bind fun _ => (shared_ruleOf _).bind fun _ =>
    append_same_mirrored _ _

/-- Alternatives that were found are those that were named, and are in the store. -/
theorem eq_of_mapM_ruleOf {ids result : List RuleId} {store after : Store}
    (run : ((ids.map Argument.item).mapM ruleOf).run store = .ok result after) :
    result = ids ∧ after = store ∧ ∀ id ∈ ids, id < store.rules.size := by
  induction ids generalizing result after with
  | nil =>
    obtain ⟨rfl, rfl⟩ := EStateM.Result.ok.inj run
    exact ⟨rfl, rfl, List.forall_mem_nil _⟩
  | cons id rest ih =>
    rw [List.map_cons, List.mapM_cons] at run
    obtain ⟨first, _, found, more⟩ := exists_of_bind_ok run
    obtain ⟨same, valid, rfl⟩ := eq_item_of_ruleOf found
    obtain ⟨others, _, listed, done⟩ := exists_of_bind_ok more
    obtain ⟨rfl, rfl, all⟩ := ih listed
    obtain ⟨rfl, rfl⟩ := EStateM.Result.ok.inj done
    obtain rfl := Argument.item.inj same
    exact ⟨rfl, rfl, List.forall_mem_cons.mpr ⟨valid, all⟩⟩

theorem run_mapM_ruleOf {ids : List RuleId} {store : Store} (valid : ∀ id ∈ ids, id < store.rules.size) :
    ((ids.map Argument.item).mapM ruleOf).run store = .ok ids store := by
  induction ids with
  | nil => rfl
  | cons id rest ih =>
    obtain ⟨first, others⟩ := List.forall_mem_cons.mp valid
    rw [List.map_cons, List.mapM_cons, EStateM.run_bind, run_ruleOf first]
    simp only [EStateM.run_bind, ih others]
    rfl

/-- The alternatives of a choice in two orders. -/
theorem choice_mirrored (parent : RuleId) {ids ids' : List RuleId} (perm : ids'.Perm ids)
    (known : ids' = ids ∨ size ∈ choices) :
    Mirrored choices size (choice parent (ids.map .item)) (choice parent (ids'.map .item)) ()
      (size + 1) := by
  have appended : Mirrored choices size (append parent { kind := .alternation, children := ids })
      (append parent { kind := .alternation, children := ids' }) () (size + 1) :=
    append_mirrored parent perm (known.imp_right fun chosen => ⟨rfl, chosen⟩)
  have mirrored : Mirrored choices size
      ((ids.map .item).mapM ruleOf >>= fun children => append parent { kind := .alternation, children })
      ((ids'.map .item).mapM ruleOf >>= fun children => append parent { kind := .alternation, children })
      () (size + 1) := by
    intro store other after result rearranged isSize run
    obtain ⟨listed, _, found, goes⟩ := exists_of_bind_ok run
    obtain ⟨same, rfl, valid⟩ := eq_of_mapM_ruleOf found
    have valid' : ∀ id ∈ ids', id < other.rules.size := by
      intro id mem
      rw [rearranged.size_eq]
      exact valid id (perm.mem_iff.mp mem)
    rw [EStateM.run_bind, run_mapM_ruleOf valid']
    rw [same] at goes
    exact appended _ _ _ _ rearranged isSize goes
  unfold choice
  rw [List.isEmpty_map, List.isEmpty_map, perm.isEmpty_eq]
  split
  next =>
    intro store other after result _ _ run
    cases run
  next => exact mirrored

/-! ## Compilation -/

/-- What compiles in one order compiles in the other, to the same rules but for their order. -/
theorem compile_mirrored {store other compiled : Store} {id : GrammarId} {root : Argument}
    {lexer : Option Lexer} {parser : Parser} (rearranged : store.Rearranged choices other)
    (run : (compile id root lexer).run store = .ok parser compiled) :
    ∃ compiled', (compile id root lexer).run other =
        .ok { parser with rules := other.reachable parser.root } compiled' ∧
      compiled.Rearranged choices compiled' := by
  obtain ⟨rootId, _, found, got⟩ := exists_of_bind_ok run
  obtain ⟨rfl, valid, rfl⟩ := eq_item_of_ruleOf found
  obtain ⟨_, _, read, checks⟩ := exists_of_bind_ok got
  obtain ⟨rfl, rfl⟩ := EStateM.Result.ok.inj read
  split at checks
  next => cases checks
  next grammar isGrammar =>
    simp only at checks
    split at checks
    next => cases checks
    next endKnown =>
      obtain ⟨_, _, checked, frozen⟩ := exists_of_bind_ok checks
      obtain ⟨checked, rfl⟩ := eq_ok_of_check checked
      obtain ⟨rfl, rfl⟩ := EStateM.Result.ok.inj frozen
      have passes : (other.reachable rootId).forM
          (other.checkRuleAt (grammar.tokenKinds.or (lexer.map (·.kinds)))) = .ok () := by
        rw [rearranged.checkRuleAt_eq]
        apply forM_ok_of_forall
        intro rule mem
        exact forall_of_forM_ok checked rule (rearranged.mem_reachable_iff.mp mem)
      refine ⟨other.freeze id (other.reachable rootId), ?_,
        rearranged.freeze id fun _ => rearranged.mem_reachable_iff⟩
      rw [← rearranged.size_eq] at valid
      rw [← rearranged.grammars] at isGrammar
      unfold compile
      simp only [EStateM.run_bind, run_ruleOf valid, EStateM.run_get, isGrammar, passes, check, endKnown]
      rfl

end Building

end Grammatic
