import Grammatic.Proofs.Evaluation.Faults
import Grammatic.Proofs.Evaluation.Values
import Grammatic.Proofs.Grammar.Compilation

/-!
# What compilation has checked

Compilation checks each rule that can be reached from the root by its kind. It checks enough: the rules
of a parser have the parts that evaluation takes from them, so a fault of theirs is one of a token that
cannot be read or of a node that is refused, and an untagged sequence captures no value but the one
that it gives (`compilation_excludes_internal_faults`).

An evaluation comes to rules that can be reached only, and freezing leaves the parts of a rule and what
its components capture as they were when they were checked.
-/

namespace Grammatic

open Relation (ReflTransGen)

variable {α ε : Type}

namespace Store

/-- A rule that passes its check has the parts that its kind needs. -/
theorem complete_of_checkRule {store : Store} {known : Option StringSet} {id : RuleId} {rule : Rule}
    (checked : store.checkRule known id rule = .ok ()) :
    rule.kind = .terminal ∨ rule.kind = .sequence ∨
      rule.children ≠ [] ∧ (rule.kind = .expression → store.tableOf? rule ≠ none) := by
  have nonempty (one : ¬ rule.children.length ≠ 1) : rule.children ≠ [] :=
    List.ne_nil_of_length_eq_add_one (Decidable.not_not.mp one)
  unfold checkRule at checked
  cases kind : rule.kind with
  | terminal => exact .inl rfl
  | sequence => exact .inr (.inl rfl)
  | alternation =>
    simp only [kind] at checked
    split at checked
    next => exact nomatch checked
    next some => exact .inr (.inr ⟨some, nofun⟩)
  | optional | repetition | capture =>
    simp only [kind] at checked
    split at checked
    next => exact nomatch checked
    next one => exact .inr (.inr ⟨nonempty one, nofun⟩)
  | expression =>
    simp only [kind] at checked
    split at checked
    next => exact nomatch checked
    next table table? =>
      split at checked
      next => exact nomatch checked
      next parts =>
        rw [not_or] at parts
        exact .inr (.inr ⟨nonempty parts.1, fun _ => by simp [table?]⟩)

/-- An untagged sequence that passes its check captures one value at most. -/
theorem captureCount_le_of_checkRule {store : Store} {known : Option StringSet} {id : RuleId}
    {rule : Rule} (checked : store.checkRule known id rule = .ok ()) (kind : rule.kind = .sequence)
    (untagged : rule.tag = none) : store.captureCount rule ≤ 1 := by
  unfold checkRule at checked
  simp only [kind, untagged, true_and] at checked
  split at checked
  next => exact nomatch checked
  next =>
    split at checked
    next => exact nomatch checked
    next few => exact Nat.le_of_not_lt few

/-- Freezing leaves what a sequence captures as it is. -/
theorem captures_freeze (store : Store) (id : GrammarId) (rules : List RuleId) (component : RuleId) :
    (store.freeze id rules).captures component = store.captures component := by
  rw [captures, captures, getElem?_rules_freeze]
  cases store.rules[component]? <;> rfl

theorem tableOf?_freeze_ne_none {store : Store} {id : GrammarId} {rules : List RuleId} {rule : Rule}
    (some : store.tableOf? rule ≠ none) :
    (store.freeze id rules).tableOf? (store.sealRule rule) ≠ none := by
  intro none
  have entries : ((store.freeze id rules).tableOf? (store.sealRule rule)).map (·.entries) =
      (store.tableOf? rule).map (·.entries) := store.entries_tableOf?_freeze rule
  rw [none, Option.map_none] at entries
  exact some (Option.map_eq_none_iff.mp entries.symm)

end Store

section Compiled

variable {store compiled : Store} {id : GrammarId} {root : Argument} {lexer : Option Lexer}
  {parser : Parser}

/-- A rule of a parser is a rule that has passed its check, as it is sealed. -/
theorem exists_checked_of_compiled
    (run : (Building.compile id root lexer).run store = .ok parser compiled) {i : RuleId}
    (mem : i ∈ parser.rules) : ∃ rule, compiled.rules[i]? = some (store.sealRule rule) ∧
      store.checkRule parser.tokenKinds i rule = .ok () := by
  obtain ⟨_, facts⟩ := Building.exists_of_compiled run
  obtain ⟨rule, found⟩ := exists_rule_of_compiled run mem
  have checked := facts.checked i mem
  rw [Store.checkRuleAt, found] at checked
  refine ⟨rule, ?_, checked⟩
  rw [facts.freezes, Store.getElem?_rules_freeze_of_mem mem, found, Option.map_some]

/-- The rules of a parser have the parts that their kinds need. -/
theorem complete_of_compiled
    (run : (Building.compile id root lexer).run store = .ok parser compiled) {i : RuleId}
    (mem : i ∈ parser.rules) : ∃ rule, compiled.rules[i]? = some rule ∧
      (rule.kind = .terminal ∨ rule.kind = .sequence ∨
        rule.children ≠ [] ∧ (rule.kind = .expression → compiled.tableOf? rule ≠ none)) := by
  obtain ⟨rule, found, checked⟩ := exists_checked_of_compiled run mem
  obtain ⟨_, facts⟩ := Building.exists_of_compiled run
  refine ⟨_, found, (Store.complete_of_checkRule checked).imp_right fun complete =>
    complete.imp_right fun parts => ⟨parts.1, fun kind => ?_⟩⟩
  rw [facts.freezes]
  exact Store.tableOf?_freeze_ne_none (parts.2 kind)

/-- The untagged sequences of a parser capture one value at most. -/
theorem captureCount_le_of_compiled
    (run : (Building.compile id root lexer).run store = .ok parser compiled) {i : RuleId}
    (mem : i ∈ parser.rules) {rule : Rule} (found : compiled.rules[i]? = some rule)
    (kind : rule.kind = .sequence) (untagged : rule.tag = none) : compiled.captureCount rule ≤ 1 := by
  obtain ⟨old, found', checked⟩ := exists_checked_of_compiled run mem
  obtain ⟨_, facts⟩ := Building.exists_of_compiled run
  obtain rfl := Option.some.inj (found'.symm.trans found)
  have few := Store.captureCount_le_of_checkRule checked kind untagged
  have same : compiled.captures = store.captures := by
    rw [facts.freezes]
    exact funext (store.captures_freeze id parser.rules)
  rw [Store.captureCount, same]
  exact few

/-- An evaluation of a rule of a parser comes to rules of the parser only. -/
theorem mem_rules_of_entered
    (run : (Building.compile id root lexer).run store = .ok parser compiled)
    {setting : Setting α ε} (isCompiled : setting.store = compiled) {entering reached : RuleId × Nat}
    (path : ReflTransGen setting.Enters entering reached) (mem : entering.1 ∈ parser.rules) :
    reached.1 ∈ parser.rules := by
  have closed := (sealedIn_of_compiled run).children
  rw [← isCompiled] at closed
  induction path with
  | refl => exact mem
  | tail _ enters ih => exact closed _ ih _ enters.mem_childrenOf

/-- Compilation checks all that evaluation relies on. A fault of a rule that can be reached from the root
is one that a rule which the evaluation comes to breaks on, by a token that cannot be read or a node that
is refused; there is none where literals can be read and the factory refuses nothing. And an untagged
sequence gives the one value that it captures, or nothing if it captures none. -/
theorem compilation_excludes_internal_faults
    (run : (Building.compile id root lexer).run store = .ok parser compiled) {i : RuleId}
    (reachable : store.ReachableFrom parser.root i) {setting : Setting α ε}
    (isCompiled : setting.store = compiled) (start : Nat) :
    (∀ cause next, setting.Gives i start (.fault cause next) →
      ((∃ error, cause = .literal error) ∨ ∃ error, cause = .construction error) ∧
        ∃ reached, ReflTransGen setting.Enters (i, start) reached ∧ setting.Breaks reached cause) ∧
    (setting.factory.Total →
      (∀ id ∈ parser.rules, ∀ rule, compiled.rules[id]? = some rule →
        ∀ literal, rule.literal = some literal → ∀ position,
          setting.accepts rule (setting.buffer.peek position) = true →
            ∃ value, literal.value (setting.buffer.peek position) = .ok value) →
      ∀ cause next, ¬ setting.Gives i start (.fault cause next)) ∧
    ∀ rule, compiled.rules[i]? = some rule → rule.kind = .sequence → rule.tag = none →
      ∀ value next, setting.Gives i start (.matched value next) → ∃ captured,
        setting.Collects (fun id start value next => setting.Gives id start (.matched value next))
          rule.children start captured next ∧
        (captured = [] ∧ value = setting.factory.absent ∨ captured = [value]) := by
  subst isCompiled
  have mem := (mem_rules_iff_of_compiled run).mpr reachable
  have breaking {cause : Fault ε} {next : Nat} (gives : setting.Gives i start (.fault cause next)) :
      ∃ reached rule, ReflTransGen setting.Enters (i, start) reached ∧
        setting.Breaks reached cause ∧ reached.1 ∈ parser.rules ∧
        setting.store.rules[reached.1]? = some rule ∧
        (rule.kind = .terminal ∨ rule.kind = .sequence ∨ rule.children ≠ [] ∧
          (rule.kind = .expression → setting.store.tableOf? rule ≠ none)) := by
    obtain ⟨reached, path, breaks⟩ := gives.exists_breaks
    have mem' := mem_rules_of_entered run rfl path mem
    obtain ⟨rule, found, complete⟩ := complete_of_compiled run mem'
    exact ⟨reached, rule, path, breaks, mem', found, complete⟩
  refine ⟨?_, ?_, ?_⟩
  · intro cause next gives
    obtain ⟨reached, rule, path, breaks, _, found, complete⟩ := breaking gives
    refine ⟨?_, reached, path, breaks⟩
    rcases breaks.of_complete found complete with
      ⟨_, error, isCause, _⟩ | ⟨_, error, isCause, _⟩
    · exact .inl ⟨error, isCause⟩
    · exact .inr ⟨error, isCause⟩
  · intro total readable cause next gives
    obtain ⟨reached, rule, _, breaks, mem', found, complete⟩ := breaking gives
    rcases breaks.of_complete found complete with
      ⟨literal, error, _, _, isLiteral, accepted, unread⟩ | ⟨children, error, _, _, refused⟩
    · obtain ⟨value, read⟩ := readable _ mem' rule found literal isLiteral _ accepted
      exact nomatch unread.symm.trans read
    · obtain ⟨node, made⟩ := total rule.tag children
      exact nomatch refused.symm.trans made
  · intro rule found kind untagged value next gives
    have few := captureCount_le_of_compiled run mem found kind untagged
    obtain ⟨captured, collects, rfl⟩ := (gives.madeOf found).of_untagged kind untagged
    have length : captured.length ≤ 1 := Nat.le_trans (Nat.le_of_eq collects.length_eq) few
    refine ⟨captured, collects, ?_⟩
    cases captured with
    | nil => exact .inl ⟨rfl, rfl⟩
    | cons single rest =>
      obtain rfl := List.eq_nil_of_length_eq_zero (Nat.le_zero.mp (Nat.le_of_succ_le_succ length))
      exact .inr rfl

end Compiled

/-- Names, in brackets or not. -/
def bracketedNames : Store where
  rules := #[
    { kind := .alternation, children := [1, 2] },
    { kind := .terminal, tag := some "name", kinds := .ofList ["name"], literal := some .name },
    { kind := .sequence, children := [3, 0, 4] },
    { kind := .terminal, kinds := .ofList ["open"] },
    { kind := .terminal, kinds := .ofList ["close"] }]
  tables := #[{}]
  grammars := #[{ words := .within "", table := 0 }]
  closed := by decide

/-- A name in brackets gives the one value that the brackets capture, and no fault. -/
theorem bracketedNames_evaluate :
    let parser : Parser := ⟨0, 0, none, none, [0, 1, 2, 3, 4]⟩
    let compiled := bracketedNames.freeze 0 parser.rules
    let setting : Setting Value Unit := ⟨compiled, { words := .within "", table := 0 }, .nodes,
      .ofTokens [.ofText "open" "(" 0, .ofText "name" "a" 1, .ofText "close" ")" 2]⟩
    let name := Value.node (some "name") [.text "a"]
    (Building.compile 0 (.item 0) none).run bracketedNames = .ok parser compiled ∧
      setting.Gives 2 0 (.matched name 3) ∧
      (∀ cause next, ¬ setting.Gives 2 0 (.fault cause next)) ∧
      setting.Collects (fun id start value next => setting.Gives id start (.matched value next))
        [3, 0, 4] 0 [name] 3 := by
  intro parser compiled setting name
  have run : (Building.compile 0 (.item 0) none).run bracketedNames = .ok parser compiled := by rfl
  have gives : setting.Gives 2 0 (.matched name 3) := ⟨nofun, 4, by rfl⟩
  have reachable : bracketedNames.ReachableFrom parser.root 2 :=
    (mem_rules_iff_of_compiled run).mp (by decide)
  obtain ⟨_, noFault, single⟩ :=
    compilation_excludes_internal_faults run reachable (rfl : setting.store = compiled) 0
  refine ⟨run, gives, noFault (fun _ _ => ⟨_, rfl⟩) ?_, ?_⟩
  · intro id mem rule found literal isLiteral position _
    have names : ∀ rule ∈ compiled.rules, ∀ literal ∈ rule.literal, literal = .name := by decide
    obtain rfl := names rule (Array.mem_of_getElem? found) literal isLiteral
    exact ⟨_, rfl⟩
  · obtain ⟨captured, collects, ⟨_, none⟩ | rfl⟩ := single _ rfl rfl rfl name 3 gives
    · exact nomatch none
    · exact collects

end Grammatic
