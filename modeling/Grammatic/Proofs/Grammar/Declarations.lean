import Grammatic.Proofs.Grammar.History
import Grammatic.Proofs.Lexer.Definition

/-!
# Declarations

Rules and tables are declared by calls in any order, on rules that may be shared and refer to each other in
cycles, and any of the calls may be refused. A call that is refused changes nothing; one that succeeds appends one
item where it is meant to (`Call.gains`). So the rules keep the form that their kind needs (`Store.WellFormed`),
whatever the history, and what compilation can still refuse is little: a kind of token that is not known, a
sequence that was never filled, and an expression whose table is empty
(`declarations_atomic_and_wellFormed`).

The components of a sequence are checked when they are appended, and what they capture does not change later. Only
this makes a check on one sequence hold in every store that comes after.
-/

namespace Grammatic

/-! ## What a declaration appends to -/

/-- Where a declaration appends its item. -/
inductive Target where
  /-- The rules of the store. -/
  | rules
  /-- The components of a rule. -/
  | components (parent : RuleId)
  /-- The tables of the store. -/
  | tables
  /-- The operators of a table. -/
  | operators (table : TableId)

/-- What a call appends to, if it declares anything. -/
def Call.target? : Call → Option Target
  | .newRule _ => some .rules
  | .delimiter parent _ | .capture parent _ | .optional parent _ | .repetition parent _ | .choice parent _
  | .number parent _ _ | .identifier parent _ _ _ | .string parent _ _ | .truth parent _ _ _ | .null parent _ _
  | .expression parent _ _ _ => some (.components parent)
  | .newTable _ => some .tables
  | .addOperator table _ _ _ => some (.operators table)
  | _ => none

/-- Whether a call leaves it to the builders how rules are made up. -/
def Call.usesBuilders : Call → Bool
  | .addRule _ => false
  | _ => true

/-- A rule has the form that the builders give to rules of its kind. -/
def Store.WellMade (store : Store) (rule : Rule) : Prop :=
  match rule.kind with
  | .sequence => rule.tag = none → store.captureCount rule ≤ 1
  | .terminal => rule.kinds.toList ≠ [] ∧ ∀ kind ∈ rule.kinds.toList, Text.isName kind = true
  | .alternation => rule.children ≠ []
  | .optional | .repetition | .capture => rule.children.length = 1
  | .expression => rule.children.length = 1 ∧ rule.tag ≠ none ∧ rule.table ≠ none

/-- All rules have the form of their kind, and no table has an operator twice. -/
structure Store.WellFormed (store : Store) : Prop where
  wellMade : ∀ {id : RuleId} {rule : Rule}, store.rules[id]? = some rule → store.WellMade rule
  distinct : ∀ {id : TableId} {table : OperatorTable}, store.tables[id]? = some table → table.kinds.Nodup

/-- A store gains one item at a place, and is the same but for it. -/
inductive Store.Gains (store : Store) : Target → Store → Prop
  /-- A sequence without components. -/
  | rule {tag : Option NodeTag}
      (within : ({ kind := .sequence, tag } : Rule).within store.rules.size store.tables.size) :
      store.Gains .rules (store.pushRule { kind := .sequence, tag } within)
  /-- A component, which is a rule of its own, of a sequence that is not frozen. -/
  | component {parent : RuleId} {rule component : Rule} (found : store.rules[parent]? = some rule)
      (unfrozen : rule.frozen = false) (isSequence : rule.kind = .sequence)
      (isComponent : component.kind ≠ .sequence) (wellMade : store.WellMade component)
      (single : ¬ (component.captures = true ∧ rule.tag = none ∧ store.captureCount rule ≠ 0))
      (within : component.within store.rules.size store.tables.size)
      (valid : store.rules.size < (store.pushRule component within).rules.size) :
      store.Gains (.components parent)
        ((store.pushRule component within).addChild parent store.rules.size valid)
  | table {table : OperatorTable} (distinct : table.kinds.Nodup) : store.Gains .tables (store.pushTable table)
  /-- An operator of a kind of its own, of a table that is not frozen. -/
  | operator {id : TableId} {table : OperatorTable} {kind : TokenKind} {operator : Operator}
      (found : store.tables[id]? = some table) (unfrozen : table.frozen = false) (fresh : kind ∉ table.kinds) :
      store.Gains (.operators id) (store.mapTables fun i old =>
        if i = id then { table with entries := table.entries ++ [(kind, operator)] } else old)

/-! ## Tables -/

namespace OperatorTable

variable {table table' : OperatorTable}

/-- An operator that was added is new, and the table was not frozen. -/
theorem exists_of_add {kind precedence : Datum} {assoc : AssocArgument}
    (added : table.add kind precedence assoc = .ok table') :
    table.frozen = false ∧ ∃ name operator, name ∉ table.kinds ∧
      table' = { table with entries := table.entries ++ [(name, operator)] } := by
  unfold add at added
  split at added
  next => exact nomatch added
  next unfrozen =>
    refine ⟨Bool.eq_false_iff.mpr unfrozen, ?_⟩
    split at added
    next => exact nomatch added
    next => exact nomatch added
    next => exact nomatch added
    next name precedence assoc _ _ =>
      split at added
      next => exact nomatch added
      next fresh => exact ⟨name, ⟨precedence, assoc⟩, fresh, (Except.ok.inj added).symm⟩

theorem nodup_kinds_snoc {kind : TokenKind} {operator : Operator} (distinct : table.kinds.Nodup)
    (fresh : kind ∉ table.kinds) :
    ({ table with entries := table.entries ++ [(kind, operator)] } : OperatorTable).kinds.Nodup := by
  simp only [kinds, List.map_append, List.map_cons, List.map_nil]
  refine List.nodup_append.mpr ⟨distinct, List.pairwise_singleton _ _, fun other listed last isLast same => ?_⟩
  obtain rfl := List.mem_singleton.mp isLast
  exact fresh (same ▸ listed)

/-- Operators that are added one by one stay distinct. -/
theorem nodup_kinds_foldlM {entries : List (Datum × Datum × AssocArgument)} (distinct : table.kinds.Nodup)
    (added : entries.foldlM (fun table (kind, precedence, assoc) => table.add kind precedence assoc) table =
      .ok table') : table'.kinds.Nodup := by
  induction entries generalizing table with
  | nil => exact Except.ok.inj added ▸ distinct
  | cons entry rest ih =>
    rw [List.foldlM_cons] at added
    obtain ⟨next, first, more⟩ := Grammatic.exists_of_bind_ok added
    obtain ⟨_, name, operator, fresh, rfl⟩ := exists_of_add first
    exact ih (nodup_kinds_snoc distinct fresh) more

theorem nodup_kinds_ofList {entries : List (Datum × Datum × AssocArgument)} (made : ofList entries = .ok table) :
    table.kinds.Nodup := by
  have distinct : ({} : OperatorTable).kinds.Nodup := List.nodup_nil
  exact nodup_kinds_foldlM distinct made

end OperatorTable

/-! ## The calls one by one -/

namespace Building

variable {α β : Type} {store : Store} {target : Target}

/-- A step is refused and changes nothing, or it appends an item. -/
def Appends (target : Target) (step : Building Unit) (store : Store) : Prop :=
  (∃ e, step.run store = .error e store) ∨ ∃ after, step.run store = .ok () after ∧ store.Gains target after

/-- Checks that only read can stand before a step that appends an item. -/
theorem Reads.bind_appends {first : Building α} {next : α → Building Unit} (reads : Reads first)
    (appends : ∀ value, first.run store = .ok value store → Appends target (next value) store) :
    Appends target (first >>= next) store := by
  unfold Appends
  rw [EStateM.run_bind]
  rcases reads store with ⟨value, ran⟩ | ⟨e, ran⟩
  · rw [ran]
    exact appends value ran
  · rw [ran]
    exact .inl ⟨e, rfl⟩

theorem appends_append (parent : RuleId) {component : Rule} (isComponent : component.kind ≠ .sequence)
    (wellMade : store.WellMade component) :
    Appends (.components parent) (append parent component) store := by
  rcases run_append_cases parent component store with
    refused | ⟨rule, found, unfrozen, isSequence, single, within, valid, ran⟩
  · exact .inl refused
  · exact .inr ⟨_, ran, .component found unfrozen isSequence isComponent wellMade single within valid⟩

/-- A sequence without components refers to nothing, so it can be put into any store. -/
theorem appends_addRule (tag : Option NodeTag) :
    Appends .rules (discard (addRule { kind := .sequence, tag })) store := by
  have within : ({ kind := .sequence, tag } : Rule).within store.rules.size store.tables.size = true := rfl
  refine .inr ⟨_, ?_, .rule within⟩
  show (addRule { kind := .sequence, tag } >>= fun _ => pure ()).run store = _
  rw [EStateM.run_bind, run_addRule within]
  rfl

theorem appends_newRule (tag : Datum) : Appends .rules (discard (newRule tag)) store := by
  unfold newRule
  split
  next => exact appends_addRule none
  next =>
    show Appends .rules ((check (validTag tag) >>= fun tag => addRule { kind := .sequence, tag := some tag }) >>=
      fun _ => pure ()) store
    rw [bind_assoc]
    exact (reads_check _).bind_appends fun tag _ => appends_addRule (some tag)

/-- The kinds of a terminal are names, since each of them was checked. -/
theorem kinds_of_check {given : List Datum} {kinds : List TokenKind} (nonempty : given ≠ [])
    (checked : (check (given.mapM validKind)).run store = .ok kinds store) :
    (StringSet.ofList kinds).toList ≠ [] ∧ ∀ kind ∈ (StringSet.ofList kinds).toList, Text.isName kind = true := by
  obtain ⟨checked, -⟩ := eq_ok_of_check checked
  constructor
  · obtain ⟨first, rest, rfl⟩ := List.exists_cons_of_ne_nil nonempty
    rw [List.mapM_cons] at checked
    obtain ⟨kind, _, checked⟩ := Grammatic.exists_of_bind_ok checked
    obtain ⟨others, _, checked⟩ := Grammatic.exists_of_bind_ok checked
    obtain rfl := Except.ok.inj checked
    exact List.ne_nil_of_mem (StringSet.mem_ofList.mpr List.mem_cons_self)
  · intro kind mem
    obtain ⟨datum, _, valid⟩ := Lexer.mem_of_mapM_ok checked (StringSet.mem_ofList.mp mem)
    unfold validKind at valid
    split at valid
    next name isName =>
      obtain rfl := Except.ok.inj valid
      exact (Option.filter_eq_some_iff.mp isName).2
    next => exact nomatch valid

theorem appends_delimiter (parent : RuleId) (kinds : List Datum) :
    Appends (.components parent) (delimiter parent kinds) store := by
  unfold delimiter
  split
  next => exact .inl ⟨_, rfl⟩
  next nonempty =>
    refine (reads_check _).bind_appends fun names checked => appends_append parent nofun ?_
    exact kinds_of_check (by simpa using nonempty) checked

theorem appends_literal (parent : RuleId) (tag : Datum) {kinds : List Datum} (nonempty : kinds ≠ [])
    (literal : Literal) (reserved : Reserved) :
    Appends (.components parent) (Building.literal parent tag kinds literal reserved) store :=
  (reads_check _).bind_appends fun _ _ => (reads_check _).bind_appends fun _ checked =>
    appends_append parent nofun (kinds_of_check nonempty checked)

theorem appends_choice (parent : RuleId) (alternatives : List Argument) :
    Appends (.components parent) (choice parent alternatives) store := by
  unfold choice
  split
  next => exact .inl ⟨_, rfl⟩
  next nonempty =>
    refine (Reads.mapM reads_ruleOf alternatives).bind_appends fun children found => ?_
    refine appends_append parent nofun ?_
    show children ≠ []
    cases alternatives with
    | nil => exact absurd rfl nonempty
    | cons first rest =>
      rw [List.mapM_cons] at found
      obtain ⟨child, _, _, found⟩ := exists_of_bind_ok found
      obtain ⟨others, _, _, found⟩ := exists_of_bind_ok found
      obtain ⟨rfl, -⟩ := EStateM.Result.ok.inj found
      exact List.cons_ne_nil child others

theorem appends_expression (parent : RuleId) (tag : Datum) (operand operators : Argument) :
    Appends (.components parent) (expression parent tag operand operators) store :=
  (reads_tableOf _).bind_appends fun _ _ => (reads_check _).bind_appends fun _ _ =>
    (reads_ruleOf _).bind_appends fun _ _ => appends_append parent nofun ⟨rfl, nofun, nofun⟩

theorem appends_newTable (entries : List (Datum × Datum × AssocArgument)) :
    Appends .tables (discard (newTable entries)) store := by
  unfold Appends
  show (∃ e, (newTable entries >>= fun _ => pure ()).run store = .error e store) ∨
    ∃ after, (newTable entries >>= fun _ => pure ()).run store = .ok () after ∧ store.Gains .tables after
  rw [EStateM.run_bind]
  simp only [newTable, EStateM.run]
  cases made : OperatorTable.ofList entries with
  | error e => exact .inl ⟨_, rfl⟩
  | ok table => exact .inr ⟨_, rfl, .table (OperatorTable.nodup_kinds_ofList made)⟩

theorem appends_addOperator (id : TableId) (kind precedence : Datum) (assoc : AssocArgument) :
    Appends (.operators id) (addOperator id kind precedence assoc) store := by
  unfold Appends
  simp only [addOperator, EStateM.run]
  cases found : store.tables[id]? with
  | none => exact .inl ⟨_, rfl⟩
  | some table =>
    cases added : table.add kind precedence assoc with
    | error e => exact .inl ⟨.operator e, by simp only [added]⟩
    | ok table' =>
      obtain ⟨unfrozen, name, operator, fresh, rfl⟩ := OperatorTable.exists_of_add added
      exact .inr ⟨_, by simp only [added]; rfl, .operator found unfrozen fresh⟩

end Building

open Building in
/-- A declaration is refused and changes nothing, or it appends one item where it is meant to. -/
theorem Call.appends (call : Call) {target : Target} (declares : call.target? = some target) (store : Store) :
    Appends target call.step store := by
  cases call with
  | newRule tag => cases declares; exact appends_newRule tag
  | delimiter parent kinds => cases declares; exact appends_delimiter parent kinds
  | capture parent sub | optional parent sub | repetition parent sub =>
    cases declares
    exact (reads_ruleOf sub).bind_appends fun _ _ => appends_append parent nofun rfl
  | choice parent alternatives => cases declares; exact appends_choice parent alternatives
  | number parent _ _ | identifier parent _ _ _ | string parent _ _ | truth parent _ _ _ | null parent _ _ =>
    cases declares
    exact appends_literal parent _ (List.cons_ne_nil _ _) _ _
  | expression parent tag operand operators => cases declares; exact appends_expression parent tag operand operators
  | newTable entries => cases declares; exact appends_newTable entries
  | addOperator id kind precedence assoc => cases declares; exact appends_addOperator id kind precedence assoc
  | addRule | freezeTable | newWords | changeWords | newGrammar | compile => cases declares

/-! ## Rules stay well formed -/

namespace Store

variable {store after : Store} {rule component : Rule}

theorem wellFormed_empty : WellFormed {} where
  wellMade found := nomatch found
  distinct found := nomatch found

theorem wellMade_sequence_iff (isSequence : rule.kind = .sequence) :
    store.WellMade rule ↔ (rule.tag = none → store.captureCount rule ≤ 1) := by
  unfold WellMade
  rw [isSequence]

/-- The form of a rule depends on what its own components capture only. -/
theorem WellMade.of_captures (wellMade : store.WellMade rule)
    (same : ∀ child ∈ rule.children, after.captures child = store.captures child) : after.WellMade rule := by
  cases kind : rule.kind with
  | sequence =>
    have counts : after.captureCount rule = store.captureCount rule :=
      List.countP_congr fun child mem => by rw [same child mem]
    rw [wellMade_sequence_iff kind] at wellMade ⊢
    exact fun untagged => counts ▸ wellMade untagged
  | terminal | alternation | optional | repetition | capture | expression =>
    unfold WellMade at wellMade ⊢
    rw [kind] at wellMade ⊢
    exact wellMade

/-- The form of a rule that is no sequence can be told from the rule alone. -/
theorem WellMade.of_ne_sequence (wellMade : store.WellMade rule) (other : rule.kind ≠ .sequence) :
    after.WellMade rule := by
  unfold WellMade at wellMade ⊢
  cases kind : rule.kind with
  | sequence => exact absurd kind other
  | terminal | alternation | optional | repetition | capture | expression =>
    rw [kind] at wellMade
    exact wellMade

theorem lt_size_of_mem_children {id child : RuleId} (found : store.rules[id]? = some rule)
    (mem : child ∈ rule.children) : child < store.rules.size :=
  lt_size_of_mem_childrenOf (childrenOf_of_getElem? found ▸ mem)

theorem captures_pushRule (within : component.within store.rules.size store.tables.size) {id : RuleId}
    (valid : id < store.rules.size) : (store.pushRule component within).captures id = store.captures id := by
  simp only [captures, pushRule, Array.getElem?_push_lt valid, Array.getElem?_eq_getElem valid]

theorem captures_pushRule_size (within : component.within store.rules.size store.tables.size) :
    (store.pushRule component within).captures store.rules.size = component.captures := by
  simp [captures, pushRule]

/-- A rule captures the same with another component. -/
theorem captures_addChild {parent child : RuleId} (valid : child < store.rules.size) (id : RuleId) :
    (store.addChild parent child valid).captures id = store.captures id := by
  simp only [captures, addChild, Array.getElem?_modify]
  split
  next => cases store.rules[id]? <;> rfl
  next => rfl

theorem WellFormed.pushRule (wellFormed : store.WellFormed)
    (within : component.within store.rules.size store.tables.size)
    (wellMade : (store.pushRule component within).WellMade component) :
    (store.pushRule component within).WellFormed where
  wellMade := by
    intro id rule found
    rcases Nat.lt_trichotomy id store.rules.size with old | rfl | beyond
    · have found : store.rules[id]? = some rule := by
        simpa only [Store.pushRule, Array.getElem?_push_lt old, Array.getElem?_eq_getElem old] using found
      exact (wellFormed.wellMade found).of_captures fun child mem =>
        captures_pushRule within (lt_size_of_mem_children found mem)
    · simp only [Store.pushRule, Array.getElem?_push_size, Option.some.injEq] at found
      exact found ▸ wellMade
    · have none : (store.rules.push component)[id]? = none :=
        Array.getElem?_eq_none (by rw [Array.size_push]; omega)
      exact nomatch none.symm.trans found
  distinct := wellFormed.distinct

/-- A sequence takes one more component, if it has a tag, or captures at most one value with it. -/
theorem WellFormed.addChild (wellFormed : store.WellFormed) {parent child : RuleId}
    (valid : child < store.rules.size) (found : store.rules[parent]? = some rule)
    (isSequence : rule.kind = .sequence)
    (single : ¬ (store.captures child = true ∧ rule.tag = none ∧ store.captureCount rule ≠ 0)) :
    (store.addChild parent child valid).WellFormed where
  wellMade := by
    intro id other found'
    simp only [Store.addChild, Array.getElem?_modify] at found'
    split at found'
    next same =>
      subst same
      rw [found, Option.map_some] at found'
      obtain rfl := Option.some.inj found'
      have few := (wellMade_sequence_iff isSequence).mp (wellFormed.wellMade found)
      have stays : ({ rule with children := rule.children ++ [child] } : Rule).kind = .sequence := isSequence
      refine (wellMade_sequence_iff stays).mpr fun untagged => ?_
      have counts : (store.addChild parent child valid).captureCount
          { rule with children := rule.children ++ [child] } =
            store.captureCount rule + if store.captures child = true then 1 else 0 := by
        rw [captureCount, funext (captures_addChild valid), List.countP_append, List.countP_singleton]
        rfl
      rw [counts]
      split
      next captured =>
        have none : store.captureCount rule = 0 :=
          Decidable.not_not.mp fun some => single ⟨captured, untagged, some⟩
        omega
      next => exact few untagged
    next =>
      exact (wellFormed.wellMade found').of_captures fun child _ => captures_addChild valid child
  distinct := wellFormed.distinct

/-- A store that has gained an item is well formed still. -/
theorem Gains.wellFormed {target : Target} (gains : store.Gains target after) (wellFormed : store.WellFormed) :
    after.WellFormed := by
  cases gains with
  | rule within => exact wellFormed.pushRule within fun _ => Nat.zero_le 1
  | @component parent rule component found _ isSequence isComponent wellMade single within valid =>
    have found' : (store.pushRule component within).rules[parent]? = some rule := getElem?_push_of_some found
    have counts : (store.pushRule component within).captureCount rule = store.captureCount rule :=
      List.countP_congr fun child mem => by
        rw [captures_pushRule within (lt_size_of_mem_children found mem)]
    refine (wellFormed.pushRule within (wellMade.of_ne_sequence isComponent)).addChild valid found' isSequence ?_
    rw [captures_pushRule_size, counts]
    exact single
  | table distinct =>
    refine ⟨fun found => (wellFormed.wellMade found).of_captures fun _ _ => rfl, fun {id table} found => ?_⟩
    rcases Array.mem_push.mp (Array.mem_of_getElem? found) with old | rfl
    · obtain ⟨i, found⟩ := Array.mem_iff_getElem?.mp old
      exact wellFormed.distinct found
    · exact distinct
  | @operator id table kind operator found _ fresh =>
    refine ⟨fun found => (wellFormed.wellMade found).of_captures fun _ _ => rfl, fun {i old} found' => ?_⟩
    simp only [mapTables, Array.getElem?_mapIdx, Option.map_eq_some_iff] at found'
    obtain ⟨old, found', rfl⟩ := found'
    split
    next => exact OperatorTable.nodup_kinds_snoc (wellFormed.distinct found) fresh
    next => exact wellFormed.distinct found'

/-- Rules keep their form when they are frozen, and tables their operators. -/
theorem WellFormed.of_maps (wellFormed : store.WellFormed) {change : RuleId → Rule → Rule}
    (rules : ∀ id, after.rules[id]? = store.rules[id]?.map (change id))
    (keeps : ∀ id rule, change id rule =
      { rule with frozen := (change id rule).frozen, reserved := (change id rule).reserved })
    (tables : ∀ id : TableId, after.tables[id]?.map OperatorTable.kinds = store.tables[id]?.map OperatorTable.kinds) :
    after.WellFormed where
  wellMade := by
    intro id changed found
    rw [rules, Option.map_eq_some_iff] at found
    obtain ⟨rule, found, rfl⟩ := found
    have captures (child : RuleId) : after.captures child = store.captures child := by
      rw [captures, captures, rules]
      cases store.rules[child]? with
      | none => rfl
      | some rule =>
        rw [Option.map_some, keeps]
        rfl
    rw [keeps]
    have wellMade : after.WellMade rule := (wellFormed.wellMade found).of_captures fun child _ => captures child
    exact wellMade
  distinct := by
    intro id table found
    have same := tables id
    rw [found, Option.map_some] at same
    obtain ⟨old, found, kinds⟩ := Option.map_eq_some_iff.mp same.symm
    exact kinds ▸ wellFormed.distinct found

theorem WellFormed.freeze (wellFormed : store.WellFormed) (id : GrammarId) (rules : List RuleId) :
    (store.freeze id rules).WellFormed := by
  refine wellFormed.of_maps getElem?_rules_freeze (fun _ _ => rfl) fun i => ?_
  rw [getElem?_tables_freeze]
  cases store.tables[i]? <;> rfl

end Store

namespace Building

variable {α : Type}

theorem after_discard (step : Building α) (store : Store) : (discard step).after store = step.after store := by
  show (step >>= fun _ => pure ()).after store = step.after store
  unfold after
  rw [EStateM.run_bind]
  cases step.run store <;> rfl

theorem wellFormed_freezeTable {store : Store} (wellFormed : store.WellFormed) (id : TableId) :
    ((freezeTable id).after store).WellFormed := by
  have rules (i : RuleId) : ((freezeTable id).after store).rules[i]? = store.rules[i]?.map fun rule => rule :=
    Option.map_id'.symm
  refine wellFormed.of_maps rules (fun _ _ => rfl) fun i => ?_
  have tables : ((freezeTable id).after store).tables[i]? =
      store.tables[i]?.map fun table => if i = id then { table with frozen := true } else table :=
    Array.getElem?_mapIdx
  rw [tables]
  split
  next => cases store.tables[i]? <;> rfl
  next => rw [Option.map_id']

theorem wellFormed_compile {store : Store} (wellFormed : store.WellFormed) (id : GrammarId) (root : Argument)
    (lexer : Option Lexer) : ((compile id root lexer).after store).WellFormed := by
  cases ran : (compile id root lexer).run store with
  | ok parser compiled =>
    obtain ⟨_, facts⟩ := exists_of_compiled ran
    rw [after_of_ok ran, facts.freezes]
    exact wellFormed.freeze id parser.rules
  | error e compiled =>
    rw [after_of_error ran, atomic_compile id root lexer store e compiled ran]
    exact wellFormed

end Building

open Building in
/-- No call makes a rule or a table ill-formed, unless it puts a rule together by hand. -/
theorem Call.wellFormed (call : Call) (builds : call.usesBuilders = true) {store : Store}
    (wellFormed : store.WellFormed) : (call.step.after store).WellFormed := by
  have declared {target : Target} (declares : call.target? = some target) :
      (call.step.after store).WellFormed := by
    rcases call.appends declares store with ⟨e, ran⟩ | ⟨after, ran, gains⟩
    · rw [after_of_error ran]
      exact wellFormed
    · rw [after_of_ok ran]
      exact gains.wellFormed wellFormed
  cases call with
  | newRule | delimiter | capture | optional | repetition | choice | number | identifier | string | truth | null
  | expression | newTable | addOperator => exact declared rfl
  | addRule rule => exact nomatch builds
  | freezeTable id => exact wellFormed_freezeTable wellFormed id
  | newWords | changeWords | newGrammar => exact ⟨wellFormed.wellMade, wellFormed.distinct⟩
  | compile id root lexer =>
    rw [step, after_discard]
    exact wellFormed_compile wellFormed id root lexer

/-- The rules are well formed behind every history of calls that use the builders. -/
theorem Store.WellFormed.afterAll {store : Store} (wellFormed : store.WellFormed) (history : List Call)
    (builds : ∀ call ∈ history, call.usesBuilders = true) : (store.afterAll history).WellFormed := by
  induction history generalizing store with
  | nil => exact wellFormed
  | cons call rest ih =>
    obtain ⟨first, others⟩ := List.forall_mem_cons.mp builds
    exact ih (call.wellFormed first wellFormed) others

/-! ## What compilation can still refuse -/

namespace Store

variable {store : Store} {known : Option StringSet} {rule : Rule}

/-- Kinds of token that are not known, where it is known which kinds there are. -/
def Unknown (known : Option StringSet) (kinds : List TokenKind) : Prop :=
  ∃ set, known = some set ∧ ∃ kind ∈ kinds, kind ∉ set

/-- What a rule that the builders made may still lack: a sequence without a tag was never filled, an expression has no
operators, or a kind of token is not known. -/
def Lacks (store : Store) (known : Option StringSet) (rule : Rule) : Prop :=
  match rule.kind with
  | .sequence => rule.tag = none ∧ rule.children = []
  | .terminal => Unknown known rule.kinds.toList
  | .expression => ∃ table, store.tableOf? rule = some table ∧ (table.entries = [] ∨ Unknown known table.kinds)
  | .alternation | .optional | .repetition | .capture => False

/-- Something stands against compiling a grammar from a root: the kind of its end token is not known, or a rule that
can be reached lacks something. -/
def Unready (store : Store) (grammar : Grammar) (known : Option StringSet) (root : RuleId) : Prop :=
  Unknown known [grammar.endKind] ∨
    ∃ id rule, store.ReachableFrom root id ∧ store.rules[id]? = some rule ∧ store.Lacks known rule

theorem any_not_contains_iff {kind : TokenKind} :
    (known.any fun known => !known.contains kind) = true ↔ Unknown known [kind] := by
  cases known with
  | none => exact iff_of_false Bool.false_ne_true fun ⟨_, isKnown, _⟩ => nomatch isKnown
  | some set => simp [Unknown, ← StringSet.contains_iff]

theorem checkKinds_eq_ok_iff {id : RuleId} {kinds : List TokenKind} :
    checkKinds known id kinds = .ok () ↔ ¬ Unknown known kinds := by
  cases known with
  | none => exact iff_of_true rfl fun ⟨_, isKnown, _⟩ => nomatch isKnown
  | some set =>
    simp only [checkKinds]
    cases found : kinds.find? fun kind => !set.contains kind with
    | none =>
      refine iff_of_true rfl ?_
      rintro ⟨_, isKnown, kind, listed, unknown⟩
      obtain rfl := Option.some.inj isKnown
      exact List.find?_eq_none.mp found kind listed (by simpa [← StringSet.contains_iff] using unknown)
    | some kind =>
      have unknown := List.find?_some found
      refine iff_of_false nofun (not_not.mpr ⟨set, rfl, kind, List.mem_of_find?_eq_some found, ?_⟩)
      simpa [← StringSet.contains_iff] using unknown

/-- A rule that the builders made passes its check unless it lacks something. -/
theorem WellMade.checkRule_eq_ok_iff (wellMade : store.WellMade rule) {id : RuleId}
    (found : store.rules[id]? = some rule) : store.checkRule known id rule = .ok () ↔ ¬ store.Lacks known rule := by
  unfold WellMade at wellMade
  unfold checkRule Lacks
  cases kind : rule.kind with
  | sequence =>
    simp only [kind] at wellMade ⊢
    split
    next placeholder => exact iff_of_false nofun (not_not.mpr placeholder)
    next filled =>
      rw [if_neg fun many => absurd (wellMade many.1) (Nat.not_le_of_lt many.2)]
      exact iff_of_true rfl filled
  | terminal =>
    simp only [kind] at wellMade ⊢
    rw [if_neg (by simpa [StringSet.isEmpty] using wellMade.1)]
    exact checkKinds_eq_ok_iff
  | alternation =>
    simp only [kind] at wellMade ⊢
    rw [if_neg wellMade]
    exact iff_of_true rfl not_false
  | optional | repetition | capture =>
    simp only [kind] at wellMade ⊢
    rw [if_neg (not_not.mpr wellMade)]
    exact iff_of_true rfl not_false
  | expression =>
    simp only [kind] at wellMade ⊢
    obtain ⟨one, tagged, hasTable⟩ := wellMade
    obtain ⟨t, isTable⟩ := Option.ne_none_iff_exists'.mp hasTable
    have valid := lt_size_of_table found isTable
    have hasTable : store.tableOf? rule = some store.tables[t] := by
      rw [tableOf?, isTable, Option.bind_some, Array.getElem?_eq_getElem valid]
    simp only [hasTable, Option.some.injEq, exists_eq_left', not_or]
    rw [if_neg (by simp [one, tagged])]
    split
    next empty => exact iff_of_false nofun fun nothing => nothing.1 empty
    next some => exact checkKinds_eq_ok_iff.trans (and_iff_right some).symm

end Store

namespace Building

variable {store : Store} {id : GrammarId} {grammar : Grammar} {root : RuleId}

theorem run_compile (isGrammar : store.grammars[id]? = some grammar) (valid : root < store.rules.size)
    (lexer : Option Lexer) :
    let known := grammar.tokenKinds.or (lexer.map (·.kinds))
    let rules := store.reachable root
    (compile id (.item root) lexer).run store =
      if known.any fun known => !known.contains grammar.endKind then .error (.endKindUnknown grammar.endKind) store
      else
        match rules.forM (store.checkRuleAt known) with
        | .error e => .error e store
        | .ok () => .ok { grammar := id, root, lexer, tokenKinds := known, rules } (store.freeze id rules) := by
  intro known rules
  have found : (ruleOf (.item root)).run store = .ok root store := by
    simp only [ruleOf, EStateM.run_bind, EStateM.run_get, if_pos valid]
    rfl
  have read : (get : Building Store).run store = .ok store store := rfl
  unfold compile
  rw [EStateM.run_bind, found]
  simp only [EStateM.run_bind, read, isGrammar]
  split
  next => rfl
  next =>
    cases (store.reachable root).forM (store.checkRuleAt known) <;> rfl

/-- A compilation is refused exactly when something stands against it. -/
theorem compile_refused_iff (wellFormed : store.WellFormed) (isGrammar : store.grammars[id]? = some grammar)
    (valid : root < store.rules.size) (lexer : Option Lexer) :
    (∃ e, (compile id (.item root) lexer).run store = .error e store) ↔
      store.Unready grammar (grammar.tokenKinds.or (lexer.map (·.kinds))) root := by
  rw [run_compile isGrammar valid lexer]
  generalize grammar.tokenKinds.or (lexer.map (·.kinds)) = known
  have check {i : RuleId} {rule : Rule} (found : store.rules[i]? = some rule) :
      store.checkRuleAt known i = .ok () ↔ ¬ store.Lacks known rule := by
    simp only [Store.checkRuleAt, found]
    exact (wellFormed.wellMade found).checkRule_eq_ok_iff found
  split
  next unknown => exact iff_of_true ⟨_, rfl⟩ (.inl (Store.any_not_contains_iff.mp unknown))
  next isKnown =>
    rw [Store.any_not_contains_iff] at isKnown
    cases checked : (store.reachable root).forM (store.checkRuleAt known) with
    | ok =>
      refine iff_of_false (fun ⟨_, ran⟩ => nomatch ran) ?_
      rintro (unknown | ⟨i, rule, reached, found, lacks⟩)
      · exact isKnown unknown
      · have passes := forall_of_forM_ok checked i (Store.mem_reachable_iff.mpr reached)
        exact (check found).mp passes lacks
    | error e =>
      refine iff_of_true ⟨e, rfl⟩ (.inr ?_)
      by_contra ready
      have all : ∀ i ∈ store.reachable root, store.checkRuleAt known i = .ok () := by
        intro i mem
        have reached := Store.mem_reachable_iff.mp mem
        have found := Array.getElem?_eq_getElem (reached.lt_size valid)
        exact (check found).mpr fun lacks => ready ⟨i, _, reached, found, lacks⟩
      exact nomatch checked.symm.trans (forM_ok_of_forall all)

end Building

/-- Calls that use the builders, whatever their arguments and however many of them are refused: each declaration
changes nothing or appends one item, all rules have the form of their kind, and a grammar is compiled from a root
unless the kind of its end token is not known or a rule that can be reached lacks something. -/
theorem declarations_atomic_and_wellFormed (history : List Call)
    (builds : ∀ call ∈ history, call.usesBuilders = true) :
    let store := Store.afterAll {} history
    (∀ (call : Call) (target : Target), call.target? = some target →
      (∃ e, call.step.run store = .error e store) ∨
        ∃ after, call.step.run store = .ok () after ∧ store.Gains target after) ∧
    store.WellFormed ∧
    ∀ id grammar root lexer, store.grammars[id]? = some grammar → root < store.rules.size →
      ((∃ e, (Building.compile id (.item root) lexer).run store = .error e store) ↔
        store.Unready grammar (grammar.tokenKinds.or (lexer.map (·.kinds))) root) := by
  intro store
  have wellFormed : store.WellFormed := Store.wellFormed_empty.afterAll history builds
  refine ⟨fun call target declares => call.appends declares store, wellFormed, ?_⟩
  intro id grammar root lexer isGrammar valid
  exact Building.compile_refused_iff wellFormed isGrammar valid lexer

/-- An untagged rule refers to itself in an expression, and cannot capture anything else. Its table is empty still. -/
def unfilledSums : List Call :=
  [.newTable [], .newGrammar { words := .fixed .empty, table := 0 }, .newRule (.scalar .absent),
    .expression 0 "sum" (.item 0) (.item 0), .optional 0 (.item 0)]

/-- The second component is refused, and the grammar is not compiled until it has an operator. -/
theorem unfilledSums_refused :
    let store := Store.afterAll {} unfilledSums
    store.rules.size = 2 ∧ store.WellFormed ∧
      ∃ e, (Building.compile 0 (.item 0) none).run store = .error e store := by
  intro store
  obtain ⟨_, wellFormed, refused⟩ := declarations_atomic_and_wellFormed unfilledSums (by decide)
  have unready : store.Unready { words := .fixed .empty, table := 0 } none 0 := by
    refine .inr ⟨1, _, .single ?_, rfl, ⟨_, rfl, .inl rfl⟩⟩
    decide
  exact ⟨rfl, wellFormed, (refused 0 _ 0 none rfl (by decide)).mpr unready⟩

end Grammatic
