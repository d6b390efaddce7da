import Grammatic.Evaluation.Units
import Grammatic.Factories
import Grammatic.Proofs.Evaluation.Simulation
import Grammatic.Proofs.Grammar.History

/-!
# Compilation is atomic and final

A compilation that is refused changes nothing. One that succeeds freezes the rules that can be reached
from the root, their tables and the table of the grammar, and no other rule or table. After any history
of further calls, the parser still gives the same (`compilation_atomic_and_final`).

For the latter, the rules of a parser are sealed, and so are their tables and the words of the grammar
(`Parser.SealedIn`). Evaluation comes from the root to these rules only, so it reads nothing that is not
sealed, and what is sealed is kept by every history.
-/

namespace Grammatic

namespace Store

/-- Whether the store has a rule with a number, and it is frozen. -/
def frozenRule (store : Store) (id : RuleId) : Bool :=
  store.rules[id]?.any (·.frozen)

/-- Whether the store has a table with a number, and it is frozen. -/
def frozenTable (store : Store) (id : TableId) : Bool :=
  store.tables[id]?.any (·.frozen)

/-- What a rule of a store gives from a position on, with a grammar of the store. -/
def Gives {α ε : Type} (store : Store) (grammar : GrammarId) (factory : Factory α ε)
    (buffer : TokenBuffer) (id : RuleId) (start : Nat) (outcome : Outcome α ε) : Prop :=
  ∃ setting, store.setting? grammar factory buffer = some setting ∧ setting.Gives id start outcome

theorem gives_iff_of_getElem? {α ε : Type} {store : Store} {id : GrammarId} {grammar : Grammar}
    (isGrammar : store.grammars[id]? = some grammar) (factory : Factory α ε) (buffer : TokenBuffer)
    (rule : RuleId) (start : Nat) (outcome : Outcome α ε) :
    store.Gives id factory buffer rule start outcome ↔
      Setting.Gives ⟨store, grammar, factory, buffer⟩ rule start outcome := by
  simp [Gives, setting?, isGrammar]

end Store

namespace Parser

/-- What a parser gives from a position on, in a store that has its rules. -/
def Gives {α ε : Type} (parser : Parser) (store : Store) (factory : Factory α ε)
    (buffer : TokenBuffer) (start : Nat) (outcome : Outcome α ε) : Prop :=
  store.Gives parser.grammar factory buffer parser.root start outcome

/-- The rules of a parser are sealed in a store, with their tables and with the words of the grammar. -/
structure SealedIn (parser : Parser) (store : Store) : Prop where
  root : parser.root ∈ parser.rules
  rules : ∀ id ∈ parser.rules, ∃ rule, store.rules[id]? = some rule ∧ rule.Sealed
  children : ∀ id ∈ parser.rules, ∀ child ∈ store.childrenOf id, child ∈ parser.rules
  tables : ∀ id ∈ parser.rules, ∀ rule, store.rules[id]? = some rule → ∀ t, rule.table = some t →
    ∃ table, store.tables[t]? = some table ∧ table.frozen = true
  words : ∃ grammar set, store.grammars[parser.grammar]? = some grammar ∧ grammar.words = .fixed set

end Parser

section Compiled

variable {store compiled : Store} {id : GrammarId} {root : Argument} {lexer : Option Lexer}
  {parser : Parser}

/-- The rules of a parser are those that can be reached from its root. -/
theorem mem_rules_iff_of_compiled
    (run : (Building.compile id root lexer).run store = .ok parser compiled) {i : RuleId} :
    i ∈ parser.rules ↔ store.ReachableFrom parser.root i := by
  obtain ⟨_, facts⟩ := Building.exists_of_compiled run
  rw [facts.rules, Store.mem_reachable_iff]

theorem root_mem_of_compiled
    (run : (Building.compile id root lexer).run store = .ok parser compiled) :
    parser.root ∈ parser.rules :=
  (mem_rules_iff_of_compiled run).mpr .refl

theorem exists_rule_of_compiled
    (run : (Building.compile id root lexer).run store = .ok parser compiled) {i : RuleId}
    (mem : i ∈ parser.rules) : ∃ rule, store.rules[i]? = some rule := by
  obtain ⟨_, facts⟩ := Building.exists_of_compiled run
  have reached := (mem_rules_iff_of_compiled run).mp mem
  exact ⟨_, Array.getElem?_eq_getElem (reached.lt_size facts.hasRoot)⟩

/-- The sub-rules of a rule of a parser are rules of the parser. -/
theorem child_mem_of_compiled
    (run : (Building.compile id root lexer).run store = .ok parser compiled) {i : RuleId}
    (mem : i ∈ parser.rules) {rule : Rule} (found : store.rules[i]? = some rule) {child : RuleId}
    (isChild : child ∈ rule.children) : child ∈ parser.rules := by
  have reached := (mem_rules_iff_of_compiled run).mp mem
  refine (mem_rules_iff_of_compiled run).mpr (reached.tail ?_)
  rwa [Store.childrenOf_of_getElem? found]

theorem frozenRule_iff_of_compiled
    (run : (Building.compile id root lexer).run store = .ok parser compiled) (i : RuleId) :
    compiled.frozenRule i = true ↔
      store.frozenRule i = true ∨ store.ReachableFrom parser.root i := by
  obtain ⟨_, facts⟩ := Building.exists_of_compiled run
  rw [facts.freezes, Store.frozenRule, Store.getElem?_rules_freeze, Store.frozenRule,
    ← mem_rules_iff_of_compiled run]
  cases found : store.rules[i]? with
  | none =>
    have unreached : i ∉ parser.rules := by
      intro mem
      obtain ⟨rule, found'⟩ := exists_rule_of_compiled run mem
      exact nomatch found.symm.trans found'
    simp [unreached]
  | some rule => simp [or_comm]

theorem frozenTable_iff_of_compiled
    (run : (Building.compile id root lexer).run store = .ok parser compiled) (t : TableId) :
    compiled.frozenTable t = true ↔ store.frozenTable t = true ∨ t < store.tables.size ∧
      ((∃ grammar, store.grammars[id]? = some grammar ∧ grammar.table = t) ∨
        ∃ i, store.ReachableFrom parser.root i ∧
          ∃ rule, store.rules[i]? = some rule ∧ rule.table = some t) := by
  obtain ⟨_, facts⟩ := Building.exists_of_compiled run
  simp only [← mem_rules_iff_of_compiled run]
  rw [facts.freezes, Store.frozenTable, Store.getElem?_tables_freeze, Store.frozenTable, ← Store.mem_tablesOf_iff]
  cases found : store.tables[t]? with
  | none =>
    have beyond : store.tables.size ≤ t := Array.getElem?_eq_none_iff.mp found
    simp [beyond]
  | some table =>
    have valid : t < store.tables.size := (Array.getElem?_eq_some_iff.mp found).1
    simp [valid, or_comm]

theorem sealed_sealRule (store : Store) (rule : Rule) : (store.sealRule rule).Sealed where
  frozen := rfl
  words := by
    intro words own
    simp only [Store.sealRule] at own
    cases old : rule.reserved with
    | none | ofGrammar => exact nomatch old ▸ own
    | words others =>
      rw [old] at own
      exact ⟨_, (Reserved.words.inj own).symm⟩

/-- What compilation freezes is sealed. -/
theorem sealedIn_of_compiled
    (run : (Building.compile id root lexer).run store = .ok parser compiled) :
    parser.SealedIn compiled := by
  obtain ⟨grammar, facts⟩ := Building.exists_of_compiled run
  obtain rfl := facts.ofGrammar
  obtain rfl := facts.freezes
  have become {i : RuleId} (mem : i ∈ parser.rules) : ∃ rule, store.rules[i]? = some rule ∧
      (store.freeze parser.grammar parser.rules).rules[i]? = some (store.sealRule rule) := by
    obtain ⟨rule, found⟩ := exists_rule_of_compiled run mem
    refine ⟨rule, found, ?_⟩
    rw [Store.getElem?_rules_freeze_of_mem mem, found, Option.map_some]
  refine ⟨root_mem_of_compiled run, ?_, ?_, ?_, ?_⟩
  · intro i mem
    obtain ⟨rule, _, found⟩ := become mem
    exact ⟨_, found, sealed_sealRule store rule⟩
  · intro i mem child isChild
    obtain ⟨rule, found, found'⟩ := become mem
    rw [Store.childrenOf_of_getElem? found'] at isChild
    exact child_mem_of_compiled run mem found isChild
  · intro i mem rule' found t isTable
    obtain ⟨rule, old, new⟩ := become mem
    obtain rfl := Option.some.inj (new.symm.trans found)
    have valid : t < store.tables.size := Store.lt_size_of_table old isTable
    have freezes : t ∈ store.tablesOf parser.grammar parser.rules :=
      Store.mem_tablesOf_iff.mpr (.inr ⟨i, mem, rule, old, isTable⟩)
    refine ⟨_, by rw [Store.getElem?_tables_freeze, Array.getElem?_eq_getElem valid,
      Option.map_some], ?_⟩
    simp [freezes]
  · refine ⟨store.sealGrammar grammar, store.wordSet grammar.words, ?_, rfl⟩
    rw [Store.getElem?_grammars_freeze_self, facts.isGrammar, Option.map_some]

end Compiled

/-! ## Evaluation reads only what is sealed -/

namespace Parser

variable {α ε : Type} {parser : Parser} {store later : Store}

theorem SealedIn.tableOf?_eq (isSealed : parser.SealedIn store) (keeps : store.Keeps later) {id : RuleId}
    (mem : id ∈ parser.rules) {rule : Rule} (found : store.rules[id]? = some rule) :
    later.tableOf? rule = store.tableOf? rule := by
  unfold Store.tableOf?
  cases isTable : rule.table with
  | none => rfl
  | some t =>
    obtain ⟨table, found, frozen⟩ := isSealed.tables id mem rule found t isTable
    rw [Option.bind_some, Option.bind_some, found, keeps.tables found frozen]

/-- A store that keeps what is sealed evaluates the rules of a parser alike. -/
theorem SealedIn.simulates (isSealed : parser.SealedIn store) (keeps : store.Keeps later)
    {grammar : Grammar} (isGrammar : store.grammars[parser.grammar]? = some grammar)
    (factory : Factory α ε) (buffer : TokenBuffer) :
    Setting.Simulates ⟨store, grammar, factory, buffer⟩ ⟨later, grammar, factory, buffer⟩
      (· ∈ parser.rules) (· = ·) (· = ·) where
  rules id mem := by
    obtain ⟨rule, found, sealedRule⟩ := isSealed.rules id mem
    simp only [found, keeps.rules found sealedRule]
    refine .some ⟨rfl, rfl, rfl, ?_, rfl, rfl, ?_, ?_⟩
    · intro child isChild
      exact isSealed.children id mem child (by rwa [Store.childrenOf_of_getElem? found])
    · rw [isSealed.tableOf?_eq keeps mem found]
    · rintro position _ rfl
      refine .of_accepts fun _ => ?_
      unfold Setting.accepts Setting.reserves
      cases own : rule.reserved with
      | none => rfl
      | ofGrammar =>
        obtain ⟨_, set, isGrammar', fixed⟩ := isSealed.words
        obtain rfl := Option.some.inj (isGrammar.symm.trans isGrammar')
        simp only [fixed]
        rfl
      | words words =>
        obtain ⟨set, rfl⟩ := sealedRule.words words own
        rfl
  factories := .refl factory
  buffers := .refl buffer

theorem SealedIn.gives_iff (isSealed : parser.SealedIn store) (keeps : store.Keeps later)
    (factory : Factory α ε) (buffer : TokenBuffer) (start : Nat) (outcome : Outcome α ε) :
    parser.Gives later factory buffer start outcome ↔
      parser.Gives store factory buffer start outcome := by
  obtain ⟨grammar, set, isGrammar, fixed⟩ := isSealed.words
  rw [Gives, Gives, Store.gives_iff_of_getElem? isGrammar,
    Store.gives_iff_of_getElem? (keeps.grammars isGrammar fixed)]
  exact (isSealed.simulates keeps isGrammar factory buffer).gives_iff isSealed.root start outcome

theorem SealedIn.tokens_eq (isSealed : parser.SealedIn store) (keeps : store.Keeps later)
    (source : Source) : parser.tokens later source = parser.tokens store source := by
  obtain ⟨grammar, set, isGrammar, fixed⟩ := isSealed.words
  have ends : parser.endKind later = parser.endKind store := by
    rw [endKind, endKind, isGrammar, keeps.grammars isGrammar fixed]
  rw [tokens, tokens, ends]

end Parser

/-- A compilation that is refused changes nothing. One that succeeds freezes the rules that can be
reached from the root, their tables and the table of the grammar, and no others; and after any history of
calls, of any rules, tables, words and grammars, the parser makes the same tokens and gives the same. -/
theorem compilation_atomic_and_final {α ε : Type} (store : Store) (id : GrammarId) (root : Argument)
    (lexer : Option Lexer) :
    (∀ e after, (Building.compile id root lexer).run store = .error e after → after = store) ∧
      ∀ parser compiled, (Building.compile id root lexer).run store = .ok parser compiled →
        (root = .item parser.root ∧ parser.grammar = id) ∧
        (∀ i, compiled.frozenRule i = true ↔
          store.frozenRule i = true ∨ store.ReachableFrom parser.root i) ∧
        (∀ t, compiled.frozenTable t = true ↔ store.frozenTable t = true ∨ t < store.tables.size ∧
          ((∃ grammar, store.grammars[id]? = some grammar ∧ grammar.table = t) ∨
            ∃ i, store.ReachableFrom parser.root i ∧
              ∃ rule, store.rules[i]? = some rule ∧ rule.table = some t)) ∧
        ∀ history : List Call,
          let later := compiled.afterAll history
          (∀ source, parser.tokens later source = parser.tokens compiled source) ∧
          ∀ (factory : Factory α ε) (buffer : TokenBuffer) (start : Nat) (outcome : Outcome α ε),
            parser.Gives later factory buffer start outcome ↔
              parser.Gives compiled factory buffer start outcome := by
  refine ⟨Building.atomic_compile id root lexer store, ?_⟩
  intro parser compiled run
  refine ⟨?_, frozenRule_iff_of_compiled run, frozenTable_iff_of_compiled run, ?_⟩
  · obtain ⟨_, facts⟩ := Building.exists_of_compiled run
    exact ⟨facts.isRoot, facts.ofGrammar⟩
  · intro history later
    have isSealed := sealedIn_of_compiled run
    have keeps : compiled.Keeps later := compiled.keeps_afterAll history
    exact ⟨isSealed.tokens_eq keeps, isSealed.gives_iff keeps⟩

/-- A name that is not in a set of words, and a rule that was never defined. -/
def guardedName : Store where
  rules := #[
    { kind := .sequence, children := [1] },
    { kind := .terminal, tag := some "name", kinds := .ofList ["name"], literal := some .name,
      reserved := .words (.shared 0) },
    { kind := .sequence }]
  tables := #[{}]
  wordSets := #[.ofList ["if"]]
  grammars := #[{ words := .shared 0, table := 0 }]
  closed := by decide

/-- A name matches after the compilation, also when it has become one of the words, and the rule that
was never defined is not compiled. -/
theorem guardedName_compiled :
    let parser : Parser := { grammar := 0, root := 0, lexer := none, tokenKinds := none, rules := [0, 1] }
    let compiled := guardedName.freeze 0 [0, 1]
    let history : List Call := [.changeWords 0 (·.insert "x"), .delimiter 0 ["name"],
      .addOperator 0 "plus" "3" (.assoc .left), .compile 0 (.item 2) none, .compile 0 (.item 1) none]
    let buffer : TokenBuffer := .ofTokens [.ofText "name" "x" 0]
    let outcome : Outcome Value Unit := .matched (.node (some "name") [.text "x"]) 1
    (Building.compile 0 (.item 0) none).run guardedName = .ok parser compiled ∧
      (Building.compile 0 (.item 2) none).run guardedName = .error (.placeholder 2) guardedName ∧
      parser.Gives (compiled.afterAll history) .nodes buffer 0 outcome := by
  intro parser compiled history buffer outcome
  have run : (Building.compile 0 (.item 0) none).run guardedName = .ok parser compiled := by rfl
  have given : parser.Gives compiled .nodes buffer 0 outcome := ⟨_, rfl, nofun, 3, by rfl⟩
  obtain ⟨_, final⟩ := compilation_atomic_and_final guardedName 0 (.item 0) none
  obtain ⟨_, _, _, kept⟩ := final parser compiled run
  exact ⟨run, by rfl, ((kept history).2 .nodes buffer 0 outcome).mpr given⟩

end Grammatic
