import Grammatic.Factories
import Grammatic.Proofs.Evaluation.Settling

/-!
# When evaluation ends

A graph of rules is left-recursive if, on some list of tokens, one of its rules is entered at a
position where it is being evaluated. Without left recursion an evaluation ends, with one exception.
A repetition stops after an element that consumed nothing, but an expression has no such stop: where
an operator has the end kind, which is not passed, and its operand matches there, the chain never
ends. That is the exact condition (`evaluate_ends_iff_not_stalls`), and it can be met by a grammar
that compiles and is not left-recursive (`endOperator_never_ends`).

For one half, an evaluation that neither enters a rule inside itself nor stalls has budget enough. For
the other, an evaluation that ends has all that it enters end, within a smaller budget, and the chain of
an expression that ends has an end. So no evaluation that ends within any budget runs out of the one that
is computed for it (`evaluate_ne_exhausted_iff`).
-/

namespace Grammatic

open Relation (ReflTransGen TransGen)

variable {α ε : Type}

/-- A factory that refuses no node. -/
def Factory.Total (factory : Factory α ε) : Prop :=
  ∀ tag children, ∃ value, factory.node tag children = .ok value

theorem Factory.Total.makes {factory : Factory α ε} (total : factory.Total)
    (tag : Option NodeTag) : ∃ make : List α → α, ∀ children,
      factory.node tag children = .ok (make children) :=
  Classical.axiomOfChoice (total tag)

/-- A graph of rules is left-recursive: on some list of tokens, a rule that can be reached from the
root is entered at a position where it is being evaluated. -/
def LeftRecursive (store : Store) (grammar : Grammar) (factory : Factory α ε) (endKind : TokenKind)
    (root : RuleId) : Prop :=
  ∃ (buffer : TokenBuffer) (id : RuleId) (position : Nat), buffer.endKind = endKind ∧
    ReflTransGen (fun parent child => child ∈ store.childrenOf parent) root id ∧
    TransGen (Setting.Enters ⟨store, grammar, factory, buffer⟩) (id, position) (id, position)

/-- No graph in which all rules settle is left-recursive. -/
theorem not_leftRecursive_of_settled {store : Store} {grammar : Grammar} {factory : Factory α ε}
    {endKind : TokenKind} (settled : store.settled endKind = true) (root : RuleId) :
    ¬ LeftRecursive store grammar factory endKind root := by
  rintro ⟨buffer, id, position, rfl, _, cycle⟩
  exact Setting.acyclic_of_settled settled (id, position) cycle

namespace Setting

/-- The evaluation of a rule at a position comes to an expression that stalls. -/
def ComesToStall (setting : Setting α ε) (root : RuleId) (start : Nat) : Prop :=
  ∃ reached, ReflTransGen (Enters setting) (root, start) reached ∧ Stalls setting reached

variable {setting : Setting α ε}

/-- What is entered can be reached. -/
theorem reachable_of_entered {root reached : RuleId × Nat}
    (path : ReflTransGen (Enters setting) root reached) :
    ReflTransGen (fun parent child => child ∈ setting.store.childrenOf parent) root.1 reached.1 := by
  induction path with
  | refl => exact .refl
  | tail _ enters ih => exact ih.tail enters.mem_childrenOf

/-- An expression stalls only where an operator has the end kind. -/
theorem not_comesToStall_of_find? {root : RuleId} {start : Nat}
    (none : ∀ table ∈ setting.store.tables, table.find? setting.buffer.endKind = none) :
    ¬ ComesToStall setting root start := by
  rintro ⟨_, _, stalls⟩
  cases stalls with
  | @intro _ _ rule table _ _ _ stop _ _ _ _ _ _ _ table? _ _ _ atEnd follows _ =>
    have mem : table ∈ setting.store.tables := by
      obtain ⟨tableId, _, found⟩ := Option.bind_eq_some_iff.mp table?
      exact Array.mem_of_getElem? found
    rw [of_decide_eq_true atEnd, none table mem] at follows
    exact nomatch follows

/-- Where all rules settle and no operator has the end kind, every evaluation ends. -/
theorem evaluate_ends_of_settled (settled : setting.store.settled setting.buffer.endKind = true)
    (operators : ∀ table ∈ setting.store.tables, table.find? setting.buffer.endKind = none)
    (id : RuleId) (start : Nat) : setting.evaluate id start ≠ .exhausted := by
  apply evaluate_ends
  · intro reached _
    exact acyclic_of_settled settled reached
  · intro reached path stalls
    exact not_comesToStall_of_find? operators ⟨reached, path, stalls⟩

/-! ## What an evaluation that ends enters, ends -/

section Loops

variable {budget : Nat}

/-- Behind the components that have matched, a sequence goes on with the others. -/
theorem sequence_of_passed {rule : Rule} {outer start position : Nat} {components left : List RuleId}
    (passed : Passed setting.Matches components start left position) {captured : List α}
    (ended : setting.sequence (setting.evaluateWithin budget) rule outer components captured start ≠
      .exhausted) :
    ∃ values, setting.sequence (setting.evaluateWithin budget) rule outer components captured start =
      setting.sequence (setting.evaluateWithin budget) rule outer left values position := by
  induction passed generalizing captured with
  | none => exact ⟨captured, rfl⟩
  | component matched _ ih =>
    obtain ⟨value, gives⟩ := matched
    have first := gives.eq_of_ne fun stuck => ended (by rw [sequence, stuck])
    simp only [sequence, first] at ended ⊢
    exact ih ended

/-- Behind the alternatives that have failed, an alternation goes on with the others. -/
theorem alternation_of_failed {start : Nat} {earlier left : List RuleId}
    (failed : ∀ other ∈ earlier, setting.Fails other start)
    {expected : StringSet} {last : Option Failure}
    (ended : alternation (setting.evaluateWithin budget) start (earlier ++ left) expected last ≠
      .exhausted) :
    ∃ expected' last', alternation (setting.evaluateWithin budget) start (earlier ++ left) expected
      last = alternation (setting.evaluateWithin budget) start left expected' last' := by
  induction earlier generalizing expected last with
  | nil => exact ⟨expected, last, rfl⟩
  | cons other rest ih =>
    obtain ⟨failure, position, gives⟩ := failed other List.mem_cons_self
    have first := gives.eq_of_ne fun stuck => ended (by rw [List.cons_append, alternation, stuck])
    simp only [List.cons_append, alternation, first] at ended ⊢
    exact ih (fun another mem => failed another (List.mem_cons_of_mem _ mem)) ended

/-- Behind its rounds, a repetition goes on with the sub-rule. -/
theorem repetition_of_rounds {sub : RuleId} {start position rounds : Nat}
    (path : ReflTransGen (Round (setting.Matches sub)) start position) {elements : List α}
    (ended : setting.repetition (setting.evaluateWithin budget sub) rounds elements start ≠
      .exhausted) :
    ∃ left values, setting.repetition (setting.evaluateWithin budget sub) rounds elements start =
      setting.repetition (setting.evaluateWithin budget sub) (left + 1) values position := by
  induction path using ReflTransGen.head_induction_on generalizing elements rounds with
  | refl =>
    cases rounds with
    | zero => exact absurd rfl ended
    | succ rounds => exact ⟨rounds, elements, rfl⟩
  | head round _ ih =>
    obtain ⟨progress, value, gives⟩ := round
    cases rounds with
    | zero => exact absurd rfl ended
    | succ rounds =>
      have first := gives.eq_of_ne fun stuck => ended (by rw [repetition, stuck])
      simp only [repetition, first, if_neg progress] at ended ⊢
      exact ih ended

end Loops

/-- An expression that ends has a chain that ends. -/
theorem ReadsFlat.chain {operand : RuleId} {table : OperatorTable} {make : List α → α}
    {start next : Nat} {first : α} {outcome : Outcome α ε}
    (reads : ReadsFlat setting operand table make start outcome)
    (matched : setting.Gives operand start (.matched first next)) :
    ∃ links stop, Chain setting operand table next links stop ∧ EndsAt setting operand table stop := by
  cases reads with
  | grouped matched' chain ended _ _ =>
    obtain ⟨rfl, rfl⟩ := Outcome.matched.inj (matched.unique matched')
    exact ⟨_, _, chain, fun operator found => nomatch ended.symm.trans found⟩
  | lacksFirst gives lacking =>
    obtain rfl := matched.unique gives
    exact nomatch lacking
  | lacksLater matched' chain _ gives lacking =>
    obtain ⟨rfl, rfl⟩ := Outcome.matched.inj (matched.unique matched')
    exact ⟨_, _, chain, fun _ _ => ⟨_, gives, lacking⟩⟩

theorem EndsAt.stuck {operand : RuleId} {table : OperatorTable} {stop : Nat}
    (ends : EndsAt setting operand table stop) : Stuck setting operand table stop := by
  intro operator found value next gives
  obtain ⟨_, gives', lacking⟩ := ends operator found
  obtain rfl := gives.unique gives'
  exact nomatch lacking

/-- A chain goes on to where a longer one cannot. -/
theorem Chain.rest {operand : RuleId} {table : OperatorTable} {position stop stop' : Nat}
    {links links' : List (Link α)} (chain : Chain setting operand table position links stop)
    (chain' : Chain setting operand table position links' stop')
    (stuck : Stuck setting operand table stop') :
    ∃ rest, Chain setting operand table stop rest stop' := by
  induction chain generalizing links' with
  | done => exact ⟨links', chain'⟩
  | link found matched _ ih =>
    cases chain' with
    | done => exact absurd matched (stuck _ found _ _)
    | link _ matched' rest' =>
      obtain ⟨rfl, rfl⟩ := Outcome.matched.inj (matched.unique matched')
      exact ih rest'

/-- A chain that starts at the end of the tokens stays there. -/
theorem Chain.stop_eq {operand : RuleId} {table : OperatorTable} {position stop : Nat}
    {links : List (Link α)} (chain : Chain setting operand table position links stop)
    (atEnd : setting.buffer.atEnd position = true) : stop = position := by
  have reaches := chain.reaches
  exact Nat.le_antisymm
    (Nat.le_trans reaches.2 (TokenBuffer.endFrom_le (Nat.le_refl position) atEnd)) reaches.1

/-- The chain of an expression that ends. -/
theorem exists_chain_of_ends (total : setting.factory.Total) {id operand : RuleId} {rule : Rule}
    {rest : List RuleId} {table : OperatorTable} {start next : Nat} {first : α}
    (found : setting.store.rules[id]? = some rule) (kind : rule.kind = .expression)
    (table? : setting.store.tableOf? rule = some table) (children : rule.children = operand :: rest)
    (matched : setting.Gives operand start (.matched first next)) (ends : setting.Ends id start) :
    ∃ links stop, Chain setting operand table next links stop ∧ EndsAt setting operand table stop := by
  obtain ⟨make, makes⟩ := total.makes rule.tag
  obtain ⟨outcome, gives⟩ := ends
  exact (gives.readsFlat found kind children table? makes).chain matched

/-- The loop of an expression stops on its way along a chain, or it comes to the end of the chain and evaluates
the operand behind the token there. -/
theorem climb_comes_to {operand : RuleId} {tag : Option NodeTag} {table : OperatorTable}
    (total : setting.factory.Total) {budget rounds : Nat} {limit : Option Int} {left : α}
    {position stop : Nat} {links : List (Link α)}
    (chain : Chain setting operand table position links stop)
    (ended : setting.climb (setting.evaluateWithin budget operand) tag table rounds limit left
      position ≠ .exhausted) :
    setting.evaluateWithin budget operand (setting.buffer.advance stop) ≠ .exhausted ∨
      ∃ behind rest, StopsAt setting table limit behind ∧
        Chain setting operand table behind rest stop ∧
        ∃ value, setting.climb (setting.evaluateWithin budget operand) tag table rounds limit left
          position = .matched value behind := by
  induction rounds generalizing limit left position links with
  | zero => exact absurd rfl ended
  | succ rounds ih =>
    rcases stopsAt_or_takes setting table limit position with stops | ⟨taken, takes⟩
    · exact .inr ⟨position, links, stops, chain, left, climb_of_stopsAt stops⟩
    · rw [climb_of_takes takes] at ended ⊢
      cases chain with
      | done => exact .inl fun stuck => ended (by rw [stuck])
      | @link _ next _ _ first _ found matched rest =>
        have operandMatched := matched.eq_of_ne fun stuck => ended (by rw [stuck])
        simp only [operandMatched] at ended ⊢
        have nested : setting.climb (setting.evaluateWithin budget operand) tag table rounds
            (some taken.rightLimit) first next ≠ .exhausted := fun stuck => ended (by rw [stuck])
        rcases ih rest nested with reached | ⟨behind, rest', _, chain', right, climbed⟩
        · exact .inl reached
        · obtain ⟨folded, made⟩ := total tag
            [left, setting.factory.scalar (.text (setting.buffer.peek position).text), right]
          simp only [climbed, made] at ended ⊢
          exact ih chain' ended

/-- What an evaluation that ends within a budget enters, ends within a smaller one. -/
theorem Enters.ends_within (total : setting.factory.Total) {entering entered : RuleId × Nat}
    (enters : Enters setting entering entered) {budget : Nat}
    (ended : setting.evaluateWithin (budget + 1) entering.1 entering.2 ≠ .exhausted) :
    setting.evaluateWithin budget entered.1 entered.2 ≠ .exhausted := by
  intro stuck
  simp only [evaluateWithin] at ended
  cases enters with
  | component found kind passed =>
    simp only [found, evaluateRule_sequence kind] at ended
    obtain ⟨values, behind⟩ := sequence_of_passed passed ended
    exact ended (by rw [behind, sequence, stuck])
  | alternative found kind children failed =>
    simp only [found, evaluateRule_alternation kind, children] at ended
    obtain ⟨_, _, behind⟩ := alternation_of_failed failed ended
    exact ended (by rw [behind, alternation, stuck])
  | optional found kind children =>
    simp only [found, evaluateRule_optional kind children] at ended
    exact ended (by rw [Setting.optional, stuck])
  | element found kind children rounds =>
    simp only [found, evaluateRule_repetition kind children] at ended
    obtain ⟨_, _, behind⟩ := repetition_of_rounds rounds ended
    exact ended (by rw [behind, repetition, stuck])
  | capture found kind children =>
    simp only [found, evaluateRule_capture kind children] at ended
    exact ended stuck
  | operand found kind table? children =>
    simp only [found, evaluateRule_expression kind table? children] at ended
    exact ended (by rw [expression, stuck])
  | laterOperand found kind table? children matched chain follows =>
    simp only [found, evaluateRule_expression kind table? children] at ended
    have first := matched.eq_of_ne fun stuck => ended (by rw [expression, stuck])
    rw [expression_of_matched first] at ended
    have climbed := mt Outcome.backAt_eq_exhausted.mpr ended
    rcases climb_comes_to total chain climbed with reached | ⟨_, _, stops, rest, _⟩
    · exact reached stuck
    · -- without a limit the loop stops behind its chain, where no operator is
      have none := find?_eq_none_of_stopsAt stops
      cases rest with
      | done => cases none.symm.trans follows
      | link found _ _ => cases none.symm.trans found

/-- What an evaluation that ends enters, ends. -/
theorem Enters.ends (total : setting.factory.Total) {entering entered : RuleId × Nat}
    (enters : Enters setting entering entered) (ends : setting.Ends entering.1 entering.2) :
    setting.Ends entered.1 entered.2 := by
  obtain ⟨outcome, ended, budget, rfl⟩ := ends
  cases budget with
  | zero => exact absurd rfl ended
  | succ budget => exact ends_of_evaluateWithin (enters.ends_within total ended)

/-- An expression that stalls does not end. -/
theorem Stalls.not_ends (total : setting.factory.Total) {reached : RuleId × Nat}
    (stalls : Stalls setting reached) : ¬ setting.Ends reached.1 reached.2 := by
  intro ends
  cases stalls with
  | @intro _ _ _ _ _ _ _ stop _ _ _ _ _ found kind table? children matched chain atEnd follows again =>
    obtain ⟨_, stop', chain', endsAt⟩ :=
      exists_chain_of_ends total found kind table? children matched ends
    obtain ⟨_, rest⟩ := chain.rest chain' endsAt.stuck
    obtain rfl := rest.stop_eq atEnd
    rw [← (setting.buffer.advance_eq_self_iff _).mpr atEnd] at again
    exact endsAt.stuck _ follows _ _ again

theorem ends_of_reached (total : setting.factory.Total) {root reached : RuleId × Nat}
    (path : ReflTransGen (Enters setting) root reached) (ends : setting.Ends root.1 root.2) :
    setting.Ends reached.1 reached.2 := by
  induction path with
  | refl => exact ends
  | tail _ enters ih => exact enters.ends total ih

/-! ## The computed budget is enough -/

/-- What is entered by way of other rules ends within a smaller budget. -/
theorem ends_within_of_transGen (total : setting.factory.Total) {entering entered : RuleId × Nat}
    (path : TransGen (Enters setting) entering entered) {budget : Nat}
    (ended : setting.evaluateWithin budget entering.1 entering.2 ≠ .exhausted) :
    ∃ smaller < budget, setting.evaluateWithin smaller entered.1 entered.2 ≠ .exhausted := by
  induction path with
  | single enters =>
    cases budget with
    | zero => exact absurd rfl ended
    | succ budget => exact ⟨budget, Nat.lt_succ_self _, enters.ends_within total ended⟩
  | tail _ enters ih =>
    obtain ⟨smaller, less, ended'⟩ := ih
    cases smaller with
    | zero => exact absurd rfl ended'
    | succ smaller => exact ⟨smaller, by omega, enters.ends_within total ended'⟩

/-- A rule that is entered inside itself at one position does not end. -/
theorem not_cycle_of_ends (total : setting.factory.Total) {reached : RuleId × Nat}
    (ends : setting.Ends reached.1 reached.2) : ¬ TransGen (Enters setting) reached reached := by
  intro cycle
  obtain ⟨outcome, ended, budget, rfl⟩ := ends
  -- each turn of the cycle needs a smaller budget
  induction budget using Nat.strongRecOn with
  | ind budget ih =>
    obtain ⟨smaller, less, ended'⟩ := ends_within_of_transGen total cycle ended
    exact ih smaller less ended'

/-- An evaluation that ends within any budget ends within the one that is computed for it. -/
theorem evaluate_ne_exhausted_iff (total : setting.factory.Total) {id : RuleId} {start : Nat} :
    setting.evaluate id start ≠ .exhausted ↔ setting.Ends id start := by
  constructor
  · exact ends_of_evaluateWithin
  · intro ends
    have ended (reached) (path : ReflTransGen (Enters setting) (id, start) reached) :
        setting.Ends reached.1 reached.2 := ends_of_reached total path ends
    refine evaluate_ends ?_ ?_
    · intro reached path
      exact not_cycle_of_ends total (ended reached path)
    · intro reached path stalls
      exact stalls.not_ends total (ended reached path)

/-- What a rule gives within any budget, it gives within the one that is computed. -/
theorem Gives.evaluate_eq (total : setting.factory.Total) {id : RuleId} {start : Nat}
    {outcome : Outcome α ε} (gives : setting.Gives id start outcome) :
    setting.evaluate id start = outcome :=
  gives.eq_of_ne ((evaluate_ne_exhausted_iff total).mpr ⟨outcome, gives⟩)

end Setting

/-! ## The condition for ending -/

/-- Without left recursion the evaluation of a root ends, within the budget that is computed for it,
unless it comes to an expression that stalls. With a factory that refuses nothing, it then does not
end at all. -/
theorem evaluate_ends_iff_not_stalls {setting : Setting α ε} {root : RuleId}
    (notLeftRecursive : ¬ LeftRecursive setting.store setting.grammar setting.factory
      setting.buffer.endKind root) (start : Nat) :
    (¬ setting.ComesToStall root start → setting.evaluate root start ≠ .exhausted) ∧
      (setting.factory.Total → (setting.Ends root start ↔ ¬ setting.ComesToStall root start)) := by
  have sufficient (flows : ¬ setting.ComesToStall root start) :
      setting.evaluate root start ≠ .exhausted := by
    refine Setting.evaluate_ends ?_ fun reached path stalls => flows ⟨reached, path, stalls⟩
    rintro ⟨id, position⟩ path cycle
    exact notLeftRecursive ⟨setting.buffer, id, position, rfl, Setting.reachable_of_entered path, cycle⟩
  refine ⟨sufficient, fun total => ⟨?_, fun flows => ?_⟩⟩
  · rintro ends ⟨reached, path, stalls⟩
    exact stalls.not_ends total (Setting.ends_of_reached total path ends)
  · exact Setting.ends_of_evaluateWithin (sufficient flows)

/-- Sums of names and of sums in brackets. -/
def sums : Store where
  rules := #[
    { kind := .expression, tag := some "sum", children := [1], table := some 0 },
    { kind := .alternation, children := [2, 5] },
    { kind := .sequence, children := [3, 0, 4] },
    { kind := .terminal, kinds := .ofList ["open"] },
    { kind := .terminal, kinds := .ofList ["close"] },
    { kind := .terminal, tag := some "name", kinds := .ofList ["name"], literal := some .name }]
  tables := #[⟨[("plus", ⟨4, .left⟩)], false⟩]
  closed := by decide

/-- Sums refer to themselves, yet the evaluation of one ends, here at a missing operand. -/
theorem sums_end :
    let setting : Setting Value Unit :=
      ⟨sums, ⟨.within "", 0, "end_of_text", none⟩, .nodes, .ofTokens [.ofText "open" "(" 0,
        .ofText "name" "a" 1, .ofText "plus" "+" 2]⟩
    setting.evaluate 0 0 ≠ .exhausted ∧ setting.Ends 0 0 := by
  intro setting
  have settled : setting.store.settled setting.buffer.endKind = true := by decide +kernel
  have flows : ¬ setting.ComesToStall 0 0 := by
    refine Setting.not_comesToStall_of_find? ?_
    decide +kernel
  have total : setting.factory.Total := fun _ _ => ⟨_, rfl⟩
  obtain ⟨ends, iff⟩ := evaluate_ends_iff_not_stalls (not_leftRecursive_of_settled settled 0) 0
  exact ⟨ends flows, (iff total).mpr flows⟩

/-! ## An operator of the end kind -/

/-- A grammar whose one operator, to the right, has the end kind, and so has its operand. -/
def endOperator : Building Parser := do
  let table ← Building.newTable
    [("end_of_text", .scalar (.int 3), .assoc .right)]
  let grammar ← Building.newGrammar { words := .fixed .empty, table }
  let operand ← Building.newRule
  Building.null operand "Nothing" "end_of_text"
  let root ← Building.newRule
  Building.expression root "Chain" (.item operand) (.item table)
  Building.compile grammar (.item root)

/-- A grammar compiles, is not left-recursive, and never ends on the empty text. -/
theorem endOperator_never_ends : ∃ parser store grammar,
    endOperator.run {} = .ok parser store ∧ store.grammars[parser.grammar]? = some grammar ∧
      ¬ LeftRecursive store grammar (.nothing : Factory Value Unit) grammar.endKind parser.root ∧
      ∀ budget, Setting.evaluateWithin
        ⟨store, grammar, (.nothing : Factory Value Unit), .ofTokens [] none grammar.endKind⟩
        budget parser.root 0 = .exhausted := by
  refine ⟨_, _, _, rfl, rfl, ?_, ?_⟩
  · exact not_leftRecursive_of_settled (by decide +kernel) _
  · intro budget
    by_contra ended
    have total : (Factory.nothing : Factory Value Unit).Total := fun _ _ => ⟨_, rfl⟩
    have ends := Setting.ends_of_evaluateWithin ended
    have ends' := Setting.Enters.ends total (.component rfl rfl .none) ends
    refine Setting.Stalls.not_ends total (.intro rfl rfl rfl rfl
      (?_ : Setting.Gives _ 0 0 (.matched (Value.scalar .absent) 0)) .done rfl rfl
      (?_ : Setting.Gives _ 0 0 (.matched (Value.scalar .absent) 0))) ends'
    · exact ⟨nofun, 3, rfl⟩
    · exact ⟨nofun, 3, rfl⟩

end Grammatic
