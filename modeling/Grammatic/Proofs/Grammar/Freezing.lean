import Grammatic.Proofs.Grammar.Building
import Grammatic.Proofs.Grammar.Reachability

/-!
# What compilation changes

A compilation that succeeds has checked all rules that can be reached from the root, and has frozen
these rules, their tables, the table of the grammar and all their words (`exists_of_compiled`). What it
does to each rule, table and grammar is said by the equations of `Store.freeze`.
-/

namespace Grammatic

namespace Store

variable {store : Store} {id : GrammarId} {rules : List RuleId}

/-- The tables that a compilation freezes: the one of the grammar and those of the rules. -/
def tablesOf (store : Store) (id : GrammarId) (rules : List RuleId) : List TableId :=
  (store.grammars[id]?.map (·.table)).toList ++
    rules.filterMap fun rule => store.rules[rule]?.bind (·.table)

theorem mem_tablesOf_iff {t : TableId} : t ∈ store.tablesOf id rules ↔
    (∃ grammar, store.grammars[id]? = some grammar ∧ grammar.table = t) ∨
      ∃ i ∈ rules, ∃ rule, store.rules[i]? = some rule ∧ rule.table = some t := by
  simp [tablesOf, Option.bind_eq_some_iff]

/-- The table of a rule is in the store. -/
theorem lt_size_of_table {i : RuleId} {rule : Rule} {t : TableId} (found : store.rules[i]? = some rule)
    (isTable : rule.table = some t) : t < store.tables.size := by
  have within := store.closed rule (Array.mem_of_getElem? found)
  simp only [Rule.within, Bool.and_eq_true, isTable, Option.all_some, decide_eq_true_eq] at within
  exact within.2

theorem getElem?_rules_freeze (i : RuleId) :
    (store.freeze id rules).rules[i]? = store.rules[i]?.map fun rule =>
      { rule with
        frozen := i ∈ rules || rule.frozen
        reserved := if i ∈ rules then store.fixReserved rule.reserved else rule.reserved } := by
  simp [freeze, mapRules, mapTables]

theorem getElem?_tables_freeze (i : TableId) :
    (store.freeze id rules).tables[i]? = store.tables[i]?.map fun table =>
      { table with frozen := i ∈ store.tablesOf id rules || table.frozen } := by
  simp [freeze, mapRules, mapTables, tablesOf]

theorem getElem?_grammars_freeze (i : GrammarId) :
    (store.freeze id rules).grammars[i]? = store.grammars[i]?.map fun grammar =>
      if i = id then { grammar with words := store.fixWords grammar.words } else grammar := by
  simp only [freeze, mapRules, mapTables, Array.getElem?_modify]
  by_cases same : id = i
  · subst same
    simp
  · simp [same, Ne.symm same]

/-- A rule as compilation leaves it. -/
def sealRule (store : Store) (rule : Rule) : Rule :=
  { rule with frozen := true, reserved := store.fixReserved rule.reserved }

/-- A grammar as compilation leaves it. -/
def sealGrammar (store : Store) (grammar : Grammar) : Grammar :=
  { grammar with words := store.fixWords grammar.words }

theorem getElem?_rules_freeze_of_mem {i : RuleId} (mem : i ∈ rules) :
    (store.freeze id rules).rules[i]? = store.rules[i]?.map store.sealRule := by
  rw [getElem?_rules_freeze]
  simp only [mem, decide_true, Bool.true_or, if_true]
  rfl

theorem getElem?_grammars_freeze_self :
    (store.freeze id rules).grammars[id]? = store.grammars[id]?.map store.sealGrammar := by
  rw [getElem?_grammars_freeze]
  simp only [if_true]
  rfl

/-- Freezing leaves the operators of a rule as they are. -/
theorem entries_tableOf?_freeze (rule : Rule) :
    ((store.freeze id rules).tableOf? (store.sealRule rule)).map (·.entries) =
      (store.tableOf? rule).map (·.entries) := by
  unfold tableOf? sealRule
  cases rule.table with
  | none => rfl
  | some t => simp [getElem?_tables_freeze, Function.comp_def]

end Store

namespace Building

theorem forM_ok_of_forall {α ε : Type} {check : α → Except ε Unit} {items : List α}
    (all : ∀ item ∈ items, check item = .ok ()) : items.forM check = .ok () := by
  induction items with
  | nil => rfl
  | cons first rest ih =>
    obtain ⟨passes, others⟩ := List.forall_mem_cons.mp all
    rw [List.forM_eq_forM, List.forM_cons, passes]
    exact ih others

theorem forall_of_forM_ok {α ε : Type} {check : α → Except ε Unit} {items : List α}
    (checked : items.forM check = .ok ()) : ∀ item ∈ items, check item = .ok () := by
  induction items with
  | nil => exact fun _ mem => absurd mem List.not_mem_nil
  | cons first rest ih =>
    rw [List.forM_eq_forM, List.forM_cons] at checked
    cases outcome : check first with
    | error e =>
      rw [outcome] at checked
      exact nomatch checked
    | ok value =>
      rw [outcome] at checked
      intro item mem
      rcases List.mem_cons.mp mem with rfl | mem
      · exact outcome
      · exact ih checked item mem

/-- What a compilation that has succeeded has found and done. -/
structure Compiled (store : Store) (id : GrammarId) (grammar : Grammar) (root : Argument)
    (lexer : Option Lexer) (parser : Parser) (compiled : Store) : Prop where
  isGrammar : store.grammars[id]? = some grammar
  ofGrammar : parser.grammar = id
  ofLexer : parser.lexer = lexer
  isRoot : root = .item parser.root
  hasRoot : parser.root < store.rules.size
  rules : parser.rules = store.reachable parser.root
  checked : ∀ rule ∈ parser.rules, store.checkRuleAt parser.tokenKinds rule = .ok ()
  freezes : compiled = store.freeze id parser.rules

/-- A compilation that succeeds has checked the rules that can be reached from the root, and has frozen
them. -/
theorem exists_of_compiled {store compiled : Store} {id : GrammarId} {root : Argument}
    {lexer : Option Lexer} {parser : Parser}
    (run : (compile id root lexer).run store = .ok parser compiled) :
    ∃ grammar, Compiled store id grammar root lexer parser compiled := by
  obtain ⟨rootId, _, found, got⟩ := exists_of_bind_ok run
  obtain ⟨rfl, valid, rfl⟩ := eq_item_of_ruleOf found
  obtain ⟨_, _, read, checks⟩ := exists_of_bind_ok got
  obtain ⟨rfl, rfl⟩ := EStateM.Result.ok.inj read
  split at checks
  next => exact nomatch checks
  next grammar isGrammar =>
    simp only at checks
    split at checks
    next => exact nomatch checks
    next =>
      obtain ⟨_, _, checked, frozen⟩ := exists_of_bind_ok checks
      obtain ⟨checked, rfl⟩ := eq_ok_of_check checked
      obtain ⟨rfl, same⟩ := EStateM.Result.ok.inj frozen
      exact ⟨grammar, isGrammar, rfl, rfl, rfl, valid, rfl, forall_of_forM_ok checked, same.symm⟩

end Building

end Grammatic
