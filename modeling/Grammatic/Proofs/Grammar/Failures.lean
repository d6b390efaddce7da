import Grammatic.Proofs.Evaluation.Blame
import Grammatic.Proofs.Grammar.Validation

/-!
# The failures of compiled rules

Failures lead back to terminals that the evaluation comes to, in any store. For the rules of a parser,
compilation has checked that each terminal takes some kind of token, so a failure also expects some
kind. With this, failures are faithful (`failures_faithful`): each points at a token that was looked at,
between the start and the end of the text, it expects kinds of terminals below the rule only, and it
expects all kinds of one that rejects the token.
-/

namespace Grammatic

open Relation (ReflTransGen)

variable {α ε : Type}

namespace Store

/-- A terminal that can be reached from a rule. -/
def HasTerminal (store : Store) (root : RuleId) (attempt : Rule) : Prop :=
  ∃ id, store.ReachableFrom root id ∧ store.rules[id]? = some attempt ∧ attempt.kind = .terminal

/-- A terminal that passes its check takes some kind of token. -/
theorem exists_kind_of_checkRule {store : Store} {known : Option StringSet} {id : RuleId} {rule : Rule}
    (checked : store.checkRule known id rule = .ok ()) (kind : rule.kind = .terminal) :
    ∃ taken, taken ∈ rule.kinds := by
  unfold checkRule at checked
  simp only [kind] at checked
  split at checked
  next => exact nomatch checked
  next some =>
    rw [StringSet.isEmpty, Bool.not_eq_true, List.isEmpty_eq_false_iff_exists_mem] at some
    exact some

end Store

namespace Setting

variable {setting : Setting α ε}

/-- A terminal that an evaluation comes to can be reached. -/
theorem Rejects.hasTerminal {entering reached : RuleId × Nat} {attempt : Rule}
    (rejects : Rejects setting reached attempt)
    (path : ReflTransGen (Enters setting) entering reached) :
    setting.store.HasTerminal entering.1 attempt :=
  ⟨reached.1, reachable_of_entered path, rejects.found, rejects.kind⟩

/-- A terminal rejects a token by its kind, or as a reserved word. -/
theorem not_mem_or_reserves_of_refused {attempt : Rule} {token : Token}
    (refused : setting.accepts attempt token = false) :
    token.kind ∉ attempt.kinds ∨ setting.reserves attempt.reserved token.text = true := by
  rw [accepts, Bool.and_eq_false_iff, Bool.not_eq_false'] at refused
  refine refused.imp_left fun other mem => ?_
  rw [StringSet.contains_iff.mpr mem] at other
  cases other

end Setting

section Compiled

variable {store compiled : Store} {id : GrammarId} {root : Argument} {lexer : Option Lexer}
  {parser : Parser}

/-- The terminals of a parser take some kind of token. -/
theorem exists_kind_of_compiled
    (run : (Building.compile id root lexer).run store = .ok parser compiled) {i : RuleId}
    (mem : i ∈ parser.rules) {rule : Rule} (found : compiled.rules[i]? = some rule)
    (kind : rule.kind = .terminal) : ∃ taken, taken ∈ rule.kinds := by
  obtain ⟨old, found', checked⟩ := exists_checked_of_compiled run mem
  obtain rfl := Option.some.inj (found'.symm.trans found)
  exact Store.exists_kind_of_checkRule checked kind

/-- The failures of the rules of a parser are faithful. A failure points at the token at its position,
which lies between the start and the first end token from there on. It expects some kind, and only
kinds of terminals that can be reached from the rule; one of these, of which it expects all kinds,
rejects the token, by its kind or as a word that is reserved for the terminal. -/
theorem failures_faithful (run : (Building.compile id root lexer).run store = .ok parser compiled)
    {i : RuleId} (reachable : store.ReachableFrom parser.root i) {setting : Setting α ε}
    (isCompiled : setting.store = compiled) {start next : Nat} {failure : Failure}
    (gives : setting.Gives i start (.failed failure next)) :
    setting.buffer.Reaches start failure.position ∧
      failure.token = setting.buffer.peek failure.position ∧
      (∃ kind, kind ∈ failure.expected) ∧
      (∀ kind ∈ failure.expected, ∃ attempt, compiled.HasTerminal i attempt ∧
        kind ∈ attempt.kinds) ∧
      ∃ attempt, compiled.HasTerminal i attempt ∧
        (∀ kind ∈ attempt.kinds, kind ∈ failure.expected) ∧
        (failure.token.kind ∉ attempt.kinds ∨
          setting.reserves attempt.reserved failure.token.text = true) := by
  subst isCompiled
  have mem := (mem_rules_iff_of_compiled run).mpr reachable
  obtain ⟨reached, attempt, path, rejects, covers⟩ := gives.exists_rejects
  obtain ⟨position, token, expected⟩ := covers
  simp only at position token expected
  rw [position, token]
  refine ⟨Setting.reaches_of_entered path, rfl, ?_, ?_, attempt, rejects.hasTerminal path, expected,
    Setting.not_mem_or_reserves_of_refused rejects.refused⟩
  · have mem' := mem_rules_of_entered run rfl path mem
    obtain ⟨taken, takes⟩ := exists_kind_of_compiled run mem' rejects.found rejects.kind
    exact ⟨taken, expected taken takes⟩
  · intro kind mem
    obtain ⟨_, other, path, rejects, takes⟩ := gives.exists_rejects_of_expected mem
    exact ⟨other, rejects.hasTerminal path, takes⟩

end Compiled

/-- Sums of names and of sums in brackets, where names are not reserved words. -/
def guardedSums : Store where
  rules := #[
    { kind := .expression, tag := some "sum", children := [1], table := some 0 },
    { kind := .alternation, children := [2, 5] },
    { kind := .sequence, children := [3, 0, 4] },
    { kind := .terminal, kinds := .ofList ["open"] },
    { kind := .terminal, kinds := .ofList ["close"] },
    { kind := .terminal, tag := some "name", kinds := .ofList ["name"], literal := some .name,
      reserved := .ofGrammar }]
  tables := #[⟨[("plus", ⟨4, .left⟩)], false⟩]
  grammars := #[{ words := .fixed (.ofList ["if"]), table := 0 }]
  closed := by decide

/-- Sums in brackets fail at a reserved word behind an operator: names and brackets are expected there,
and one of the terminals rejects the word although its kind is expected. -/
theorem guardedSums_fail :
    let parser : Parser := ⟨0, 0, none, none, [0, 1, 2, 3, 4, 5]⟩
    let compiled := guardedSums.freeze 0 parser.rules
    let setting : Setting Value Unit := ⟨compiled, { words := .fixed (.ofList ["if"]), table := 0 },
      .nodes, .ofTokens [.ofText "open" "(" 0, .ofText "name" "a" 1, .ofText "plus" "+" 2,
        .ofText "name" "if" 3, .ofText "close" ")" 5]⟩
    let failure : Failure := ⟨3, .ofText "name" "if" 3, .ofList ["name", "open"]⟩
    (Building.compile 0 (.item 0) none).run guardedSums = .ok parser compiled ∧
      setting.Gives 2 0 (.failed failure 0) ∧ setting.buffer.Reaches 0 3 ∧
      ∃ attempt, compiled.HasTerminal 2 attempt ∧
        (∀ kind ∈ attempt.kinds, kind ∈ failure.expected) ∧
        ("name" ∉ attempt.kinds ∨ setting.reserves attempt.reserved "if" = true) := by
  intro parser compiled setting failure
  have run : (Building.compile 0 (.item 0) none).run guardedSums = .ok parser compiled := by rfl
  have gives : setting.Gives 2 0 (.failed failure 0) := ⟨nofun, 8, by rfl⟩
  have reachable : guardedSums.ReachableFrom parser.root 2 :=
    (mem_rules_iff_of_compiled run).mp (by decide)
  obtain ⟨reaches, _, _, _, rejected⟩ :=
    failures_faithful run reachable (rfl : setting.store = compiled) gives
  exact ⟨run, gives, reaches, rejected⟩

end Grammatic
