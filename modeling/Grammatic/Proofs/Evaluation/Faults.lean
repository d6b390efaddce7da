import Grammatic.Proofs.Evaluation.Termination
import Grammatic.Proofs.Grammar.Reachability

/-!
# Where faults come from

A fault stops a whole evaluation. So it arises in a rule that the evaluation comes to, by what that
rule `Breaks` on there (`Gives.exists_breaks`): a part that its kind needs and that it lacks, a token
that cannot be read as what it denotes, or a node that is refused. And a fault of a rule that an
evaluation comes to is the outcome of that evaluation (`Enters.gives_fault`).

None arises where every rule has its parts, the tokens of literals can be read, and the factory
refuses none of the nodes that rules make (`Faultless`). Then each evaluation that ends is a match or a
failure (`Faultless.decides`).
-/

namespace Grammatic.Setting

open Relation (ReflTransGen)

variable {α ε : Type}

/-- The values that a rule makes nodes of: that of a literal, those that are captured under a tag, and
an operator between two operands. -/
inductive Makes (setting : Setting α ε) (rule : Rule) : List α → Prop
  | literal (kind : rule.kind = .terminal) (isLiteral : rule.literal ≠ none) (value : Scalar) :
      Makes setting rule [setting.factory.scalar value]
  | captured (kind : rule.kind = .sequence) (tagged : rule.tag ≠ none) (children : List α) :
      Makes setting rule children
  | operator (kind : rule.kind = .expression) (left right : α) (text : String) :
      Makes setting rule [left, setting.factory.scalar (.text text), right]

/-- A rule stops the evaluation at a position by a fault of its own. -/
inductive Breaks (setting : Setting α ε) : RuleId × Nat → Fault ε → Prop
  | unknownRule {id : RuleId} {start : Nat} (missing : setting.store.rules[id]? = none) :
      Breaks setting (id, start) .unknownRule
  | noSubRule {id : RuleId} {rule : Rule} {start : Nat}
      (found : setting.store.rules[id]? = some rule)
      (kind : rule.kind ≠ .terminal ∧ rule.kind ≠ .sequence) (children : rule.children = []) :
      Breaks setting (id, start) .noSubRule
  | noAlternatives {id : RuleId} {rule : Rule} {start : Nat}
      (found : setting.store.rules[id]? = some rule) (kind : rule.kind = .alternation)
      (children : rule.children = []) : Breaks setting (id, start) .noAlternatives
  | noTable {id : RuleId} {rule : Rule} {start : Nat} (found : setting.store.rules[id]? = some rule)
      (kind : rule.kind = .expression) (table? : setting.store.tableOf? rule = none) :
      Breaks setting (id, start) .noTable
  | literal {id : RuleId} {rule : Rule} {start : Nat} {literal : Literal} {error : NumeralError}
      (found : setting.store.rules[id]? = some rule) (kind : rule.kind = .terminal)
      (isLiteral : rule.literal = some literal)
      (accepted : setting.accepts rule (setting.buffer.peek start) = true)
      (unread : literal.value (setting.buffer.peek start) = .error error) :
      Breaks setting (id, start) (.literal error)
  | construction {id : RuleId} {rule : Rule} {start : Nat} {children : List α} {error : ε}
      (found : setting.store.rules[id]? = some rule) (makes : Makes setting rule children)
      (refused : setting.factory.node rule.tag children = .error error) :
      Breaks setting (id, start) (.construction error)

variable {setting : Setting α ε}

/-- A rule that has the parts that its kind needs breaks on a token or on a node. -/
theorem Breaks.of_complete {id : RuleId} {rule : Rule} {start : Nat} {cause : Fault ε}
    (breaks : Breaks setting (id, start) cause) (found : setting.store.rules[id]? = some rule)
    (complete : rule.kind = .terminal ∨ rule.kind = .sequence ∨
      rule.children ≠ [] ∧ (rule.kind = .expression → setting.store.tableOf? rule ≠ none)) :
    (∃ literal error, cause = .literal error ∧ rule.kind = .terminal ∧ rule.literal = some literal ∧
      setting.accepts rule (setting.buffer.peek start) = true ∧
        literal.value (setting.buffer.peek start) = .error error) ∨
      ∃ children error, cause = .construction error ∧ Makes setting rule children ∧
        setting.factory.node rule.tag children = .error error := by
  cases breaks with
  | unknownRule missing => exact nomatch missing.symm.trans found
  | noSubRule found' kind children =>
    obtain rfl := Option.some.inj (found'.symm.trans found)
    exact absurd children ((complete.resolve_left kind.1).resolve_left kind.2).1
  | noAlternatives found' kind children =>
    obtain rfl := Option.some.inj (found'.symm.trans found)
    rw [kind] at complete
    exact absurd children ((complete.resolve_left nofun).resolve_left nofun).1
  | noTable found' kind table? =>
    obtain rfl := Option.some.inj (found'.symm.trans found)
    rw [kind] at complete
    exact absurd table? (((complete.resolve_left nofun).resolve_left nofun).2 rfl)
  | literal found' kind isLiteral accepted unread =>
    obtain rfl := Option.some.inj (found'.symm.trans found)
    exact .inl ⟨_, _, rfl, kind, isLiteral, accepted, unread⟩
  | construction found' makes refused =>
    obtain rfl := Option.some.inj (found'.symm.trans found)
    exact .inr ⟨_, _, rfl, makes, refused⟩

/-! ## The fault of a loop is that of a part, or its own -/

section Loops

variable {part : RuleId → Nat → Outcome α ε} {rule : Rule} {outer start position next : Nat}
  {cause : Fault ε}

theorem construct_fault {tag : Option NodeTag} {children : List α}
    (evaluated : setting.construct tag children position = .fault cause next) :
    ∃ error, cause = .construction error ∧ setting.factory.node tag children = .error error := by
  unfold construct at evaluated
  split at evaluated
  next => exact nomatch evaluated
  next error refused => exact ⟨error, (Outcome.fault.inj evaluated).1.symm, refused⟩

theorem terminal_fault (evaluated : setting.terminal rule start = .fault cause next) :
    setting.accepts rule (setting.buffer.peek start) = true ∧
      ∃ literal, rule.literal = some literal ∧
        ((∃ error, cause = .literal error ∧
          literal.value (setting.buffer.peek start) = .error error) ∨
        ∃ value error, cause = .construction error ∧
          setting.factory.node rule.tag [setting.factory.scalar value] = .error error) := by
  unfold terminal at evaluated
  simp only at evaluated
  split at evaluated
  next accepted =>
    refine ⟨accepted, ?_⟩
    split at evaluated
    next => exact nomatch evaluated
    next literal isLiteral =>
      refine ⟨literal, isLiteral, ?_⟩
      split at evaluated
      next value _ =>
        obtain ⟨error, isCause, refused⟩ := construct_fault evaluated
        exact .inr ⟨value, error, isCause, refused⟩
      next error unread => exact .inl ⟨error, (Outcome.fault.inj evaluated).1.symm, unread⟩
  next => exact nomatch evaluated

theorem sequence_fault {components : List RuleId} {captured : List α}
    (evaluated : setting.sequence part rule outer components captured position = .fault cause next) :
    (∃ component rest behind, Passed (Took part) components position (component :: rest) behind ∧
      part component behind = .fault cause next) ∨
    rule.tag ≠ none ∧ ∃ children error, cause = .construction error ∧
      setting.factory.node rule.tag children = .error error := by
  induction components generalizing captured position with
  | nil =>
    simp only [sequence, closeSequence] at evaluated
    split at evaluated
    next tag tagged =>
      obtain ⟨error, isCause, refused⟩ := construct_fault evaluated
      rw [← tagged] at refused
      exact .inr ⟨by simp [tagged], _, error, isCause, refused⟩
    next => cases evaluated
  | cons component rest ih =>
    simp only [sequence] at evaluated
    cases outcome : part component position with
    | matched first behind =>
      rw [outcome] at evaluated
      refine (ih evaluated).imp_left ?_
      rintro ⟨other, left, further, passed, faulted⟩
      exact ⟨other, left, further, .component ⟨first, outcome⟩ passed, faulted⟩
    | fault other behind =>
      rw [outcome] at evaluated
      exact .inl ⟨component, rest, position, .none, outcome.trans evaluated⟩
    | failed _ _ | exhausted =>
      rw [outcome] at evaluated
      cases evaluated

theorem alternation_fault {alternatives : List RuleId} {expected : StringSet}
    {last : Option Failure}
    (evaluated : alternation part start alternatives expected last = .fault cause next) :
    (∃ earlier alternative later, alternatives = earlier ++ alternative :: later ∧
      (∀ other ∈ earlier, Refused part other start) ∧ part alternative start = .fault cause next) ∨
    alternatives = [] ∧ last = none ∧ cause = .noAlternatives := by
  induction alternatives generalizing expected last with
  | nil =>
    cases last with
    | some _ => cases evaluated
    | none => exact .inr ⟨rfl, rfl, (Outcome.fault.inj evaluated).1.symm⟩
  | cons alternative rest ih =>
    simp only [alternation] at evaluated
    cases outcome : part alternative start with
    | failed failure behind =>
      rw [outcome] at evaluated
      rcases ih evaluated with ⟨earlier, other, later, rfl, refused, faulted⟩ | ⟨_, none, _⟩
      · refine .inl ⟨alternative :: earlier, other, later, rfl, ?_, faulted⟩
        intro another mem
        rcases List.mem_cons.mp mem with rfl | mem
        · exact ⟨failure, behind, outcome⟩
        · exact refused another mem
      · cases none
    | fault other behind =>
      rw [outcome] at evaluated
      exact .inl ⟨[], alternative, rest, rfl, by simp, outcome.trans evaluated⟩
    | matched _ _ | exhausted =>
      rw [outcome] at evaluated
      cases evaluated

theorem optional_fault {sub : RuleId}
    (evaluated : setting.optional (part sub) start = .fault cause next) :
    part sub start = .fault cause next := by
  unfold optional at evaluated
  cases outcome : part sub start with
  | fault _ _ =>
    rw [outcome] at evaluated
    exact evaluated
  | matched _ _ | failed _ _ | exhausted =>
    rw [outcome] at evaluated
    exact nomatch evaluated

theorem repetition_fault {sub : RuleId} {rounds : Nat} {elements : List α}
    (evaluated : setting.repetition (part sub) rounds elements position = .fault cause next) :
    ∃ behind, ReflTransGen (Round (Took part sub)) position behind ∧
      part sub behind = .fault cause next := by
  induction rounds generalizing elements position with
  | zero => cases evaluated
  | succ rounds ih =>
    simp only [repetition] at evaluated
    cases outcome : part sub position with
    | matched first behind =>
      simp only [outcome] at evaluated
      split at evaluated
      next => cases evaluated
      next progress =>
        obtain ⟨further, path, faulted⟩ := ih evaluated
        exact ⟨further, .head ⟨progress, first, outcome⟩ path, faulted⟩
    | fault _ _ =>
      rw [outcome] at evaluated
      exact ⟨position, .refl, outcome.trans evaluated⟩
    | failed _ _ | exhausted =>
      rw [outcome] at evaluated
      cases evaluated

/-- Behind operators with their operands, an operator has a faulty operand. -/
def LaterFaults (setting : Setting α ε) (part : RuleId → Nat → Outcome α ε) (operand : RuleId)
    (table : OperatorTable) (position : Nat) (cause : Fault ε) (next : Nat) : Prop :=
  ∃ behind operator, ReflTransGen (setting.Operates table (Took part operand)) position behind ∧
    table.find? (setting.buffer.peek behind).kind = some operator ∧
      part operand (setting.buffer.advance behind) = .fault cause next

theorem LaterFaults.head {operand : RuleId} {table : OperatorTable} {middle : Nat}
    (path : ReflTransGen (setting.Operates table (Took part operand)) position middle)
    (later : LaterFaults setting part operand table middle cause next) :
    LaterFaults setting part operand table position cause next := by
  obtain ⟨behind, operator, path', found, faulted⟩ := later
  exact ⟨behind, operator, path.trans path', found, faulted⟩

theorem climb_fault {operand : RuleId} {tag : Option NodeTag} {table : OperatorTable}
    {rounds : Nat} {limit : Option Int} {left : α}
    (evaluated : setting.climb (part operand) tag table rounds limit left position =
      .fault cause next) :
    LaterFaults setting part operand table position cause next ∨
      ∃ left text right error, cause = .construction error ∧
        setting.factory.node tag [left, setting.factory.scalar (.text text), right] = .error error := by
  induction rounds generalizing limit left position with
  | zero => exact nomatch evaluated
  | succ rounds ih =>
    rcases stopsAt_or_takes setting table limit position with stops | ⟨operator, takes⟩
    · rw [climb_of_stopsAt stops] at evaluated
      exact nomatch evaluated
    · rw [climb_of_takes takes] at evaluated
      cases outcome : part operand (setting.buffer.advance position) with
      | fault _ _ =>
        rw [outcome] at evaluated
        exact .inl ⟨position, operator, .refl, takes.1, outcome.trans evaluated⟩
      | failed _ _ | exhausted =>
        rw [outcome] at evaluated
        exact nomatch evaluated
      | matched first behind =>
        simp only [outcome] at evaluated
        have step : setting.Operates table (Took part operand) position behind :=
          ⟨⟨operator, takes.1⟩, first, outcome⟩
        cases nested : setting.climb (part operand) tag table rounds (some operator.rightLimit)
            first behind with
        | matched right middle =>
          simp only [nested] at evaluated
          split at evaluated
          next => exact (ih evaluated).imp_left (.head (.head step (climb_matched nested)))
          next error refused =>
            exact .inr ⟨_, _, _, error, (Outcome.fault.inj evaluated).1.symm, refused⟩
        | fault _ _ =>
          rw [nested] at evaluated
          exact (ih (nested.trans evaluated)).imp_left (.head (.single step))
        | failed _ _ | exhausted =>
          rw [nested] at evaluated
          exact nomatch evaluated

theorem expression_fault {operand : RuleId} {tag : Option NodeTag} {table : OperatorTable}
    {rounds : Nat} (evaluated : setting.expression (part operand) tag table rounds start =
      .fault cause next) :
    part operand start = .fault cause next ∨
    (∃ first middle, part operand start = .matched first middle ∧
      LaterFaults setting part operand table middle cause next) ∨
    ∃ left text right error, cause = .construction error ∧
      setting.factory.node tag [left, setting.factory.scalar (.text text), right] = .error error := by
  cases outcome : part operand start with
  | matched first middle =>
    rw [expression_of_matched outcome] at evaluated
    have climbed : setting.climb (part operand) tag table rounds none first middle =
        .fault cause next := by
      cases climb : setting.climb (part operand) tag table rounds none first middle with
      | fault _ _ =>
        rw [climb] at evaluated
        exact evaluated
      | matched _ _ | failed _ _ | exhausted =>
        rw [climb] at evaluated
        exact nomatch evaluated
    exact .inr ((climb_fault climbed).imp_left fun later => ⟨first, middle, rfl, later⟩)
  | fault _ _ =>
    unfold expression at evaluated
    rw [outcome] at evaluated
    exact .inl evaluated
  | failed _ _ | exhausted =>
    unfold expression at evaluated
    rw [outcome] at evaluated
    exact nomatch evaluated

end Loops

/-! ## The fault of an evaluation is that of a rule that it comes to -/

/-- Operators with operands are the links of a chain. -/
theorem exists_chain_of_operates {operand : RuleId} {table : OperatorTable} {position stop : Nat}
    (path : ReflTransGen (setting.Operates table (setting.Matches operand)) position stop) :
    ∃ links, Chain setting operand table position links stop := by
  induction path using ReflTransGen.head_induction_on with
  | refl => exact ⟨[], .done⟩
  | head step _ ih =>
    obtain ⟨⟨operator, found⟩, value, gives⟩ := step
    obtain ⟨links, chain⟩ := ih
    exact ⟨_, .link found gives chain⟩

/-- The fault of a rule is its own, or that of a rule that it enters. -/
theorem evaluateRule_fault {budget : Nat} {id : RuleId} {rule : Rule} {start next : Nat}
    {cause : Fault ε} (found : setting.store.rules[id]? = some rule)
    (evaluated : setting.evaluateRule (setting.evaluateWithin budget) budget rule start =
      .fault cause next) :
    Breaks setting (id, start) cause ∨ ∃ entered, Enters setting (id, start) entered ∧
      setting.evaluateWithin budget entered.1 entered.2 = .fault cause next := by
  cases kind : rule.kind with
  | terminal =>
    rw [evaluateRule_terminal kind] at evaluated
    obtain ⟨accepted, literal, isLiteral, ⟨_, rfl, unread⟩ | ⟨value, _, rfl, refused⟩⟩ :=
      terminal_fault evaluated
    · exact .inl (.literal found kind isLiteral accepted unread)
    · exact .inl (.construction found (.literal kind (by simp [isLiteral]) value) refused)
  | sequence =>
    rw [evaluateRule_sequence kind] at evaluated
    rcases sequence_fault evaluated with
      ⟨_, _, _, passed, faulted⟩ | ⟨tagged, children, _, rfl, refused⟩
    · exact .inr ⟨_, .component found kind (passed.mono matches_of_took), faulted⟩
    · exact .inl (.construction found (.captured kind tagged children) refused)
  | alternation =>
    rw [evaluateRule_alternation kind] at evaluated
    rcases alternation_fault evaluated with
      ⟨_, _, _, children, refused, faulted⟩ | ⟨children, _, rfl⟩
    · exact .inr ⟨_, .alternative found kind children
        (fun other mem => fails_of_refused (refused other mem)), faulted⟩
    · exact .inl (.noAlternatives found kind children)
  | optional =>
    cases children : rule.children with
    | nil =>
      simp only [evaluateRule, kind, children] at evaluated
      obtain ⟨rfl, _⟩ := Outcome.fault.inj evaluated
      exact .inl (.noSubRule found (by simp [kind]) children)
    | cons sub rest =>
      rw [evaluateRule_optional kind children] at evaluated
      exact .inr ⟨_, .optional found kind children, optional_fault evaluated⟩
  | repetition =>
    cases children : rule.children with
    | nil =>
      simp only [evaluateRule, kind, children] at evaluated
      obtain ⟨rfl, _⟩ := Outcome.fault.inj evaluated
      exact .inl (.noSubRule found (by simp [kind]) children)
    | cons sub rest =>
      rw [evaluateRule_repetition kind children] at evaluated
      obtain ⟨behind, path, faulted⟩ := repetition_fault evaluated
      have weaker : Round (Took (setting.evaluateWithin budget) sub) ≤
          Round (setting.Matches sub) :=
        fun _ _ round => ⟨round.1, matches_of_took _ _ _ round.2⟩
      exact .inr ⟨_, .element found kind children (ReflTransGen.mono weaker _ _ path), faulted⟩
  | capture =>
    cases children : rule.children with
    | nil =>
      simp only [evaluateRule, kind, children] at evaluated
      obtain ⟨rfl, _⟩ := Outcome.fault.inj evaluated
      exact .inl (.noSubRule found (by simp [kind]) children)
    | cons sub rest =>
      rw [evaluateRule_capture kind children] at evaluated
      exact .inr ⟨_, .capture found kind children, evaluated⟩
  | expression =>
    cases table? : setting.store.tableOf? rule with
    | none =>
      simp only [evaluateRule, kind, table?] at evaluated
      obtain ⟨rfl, _⟩ := Outcome.fault.inj evaluated
      exact .inl (.noTable found kind table?)
    | some table =>
      cases children : rule.children with
      | nil =>
        simp only [evaluateRule, kind, table?, children] at evaluated
        obtain ⟨rfl, _⟩ := Outcome.fault.inj evaluated
        exact .inl (.noSubRule found (by simp [kind]) children)
      | cons operand rest =>
        rw [evaluateRule_expression kind table? children] at evaluated
        rcases expression_fault evaluated with
          faulted | ⟨first, middle, outcome, behind, operator, path, follows, faulted⟩ |
            ⟨left, text, right, _, rfl, refused⟩
        · exact .inr ⟨_, .operand found kind table? children, faulted⟩
        · have weaker : setting.Operates table (Took (setting.evaluateWithin budget) operand) ≤
              setting.Operates table (setting.Matches operand) :=
            fun _ _ step => ⟨step.1, matches_of_took _ _ _ step.2⟩
          have matched := gives_of_evaluateWithin outcome (by simp)
          obtain ⟨links, chain⟩ := exists_chain_of_operates (ReflTransGen.mono weaker _ _ path)
          exact .inr ⟨_, .laterOperand found kind table? children matched chain follows, faulted⟩
        · exact .inl (.construction found (.operator kind left right text) refused)

/-- A fault arises in a rule that the evaluation comes to. -/
theorem Gives.exists_breaks {id : RuleId} {start next : Nat} {cause : Fault ε}
    (gives : setting.Gives id start (.fault cause next)) :
    ∃ reached, ReflTransGen (Enters setting) (id, start) reached ∧ Breaks setting reached cause := by
  obtain ⟨_, budget, evaluated⟩ := gives
  induction budget generalizing id start with
  | zero => exact nomatch evaluated
  | succ budget ih =>
    simp only [evaluateWithin] at evaluated
    cases found : setting.store.rules[id]? with
    | none =>
      simp only [found] at evaluated
      obtain ⟨rfl, _⟩ := Outcome.fault.inj evaluated
      exact ⟨_, .refl, .unknownRule found⟩
    | some rule =>
      simp only [found] at evaluated
      rcases evaluateRule_fault found evaluated with breaks | ⟨entered, enters, faulted⟩
      · exact ⟨_, .refl, breaks⟩
      · obtain ⟨reached, path, breaks⟩ := ih faulted
        exact ⟨reached, .head enters path, breaks⟩

/-- The fault of a rule that is entered is the outcome of the rule that enters it, if that ends and the
operators on the way make nodes. -/
theorem Enters.gives_fault {entering entered : RuleId × Nat} (enters : Enters setting entering entered)
    (ends : setting.Ends entering.1 entering.2)
    (makes : ∀ rule ∈ setting.store.rules, rule.kind = .expression →
      ∀ children, ∃ node, setting.factory.node rule.tag children = .ok node)
    {cause : Fault ε} {next : Nat} (gives : setting.Gives entered.1 entered.2 (.fault cause next)) :
    setting.Gives entering.1 entering.2 (.fault cause next) := by
  obtain ⟨outcome, ended, budget, rfl⟩ := ends
  have ofSucc {budget : Nat} {id : RuleId} {rule : Rule} {start : Nat}
      (found : setting.store.rules[id]? = some rule)
      (evaluated : setting.evaluateRule (setting.evaluateWithin budget) budget rule start =
        .fault cause next) : setting.Gives id start (.fault cause next) := by
    have whole : setting.evaluateWithin (budget + 1) id start = .fault cause next := by
      simp only [evaluateWithin, found]
      exact evaluated
    exact gives_of_evaluateWithin whole (by simp)
  cases budget with
  | zero => exact absurd rfl ended
  | succ budget =>
    simp only [evaluateWithin] at ended
    cases enters with
    | component found kind passed =>
      simp only [found, evaluateRule_sequence kind] at ended
      obtain ⟨values, behind⟩ := sequence_of_passed passed ended
      have first := gives.eq_of_ne fun stuck => ended (by rw [behind, sequence, stuck])
      exact ofSucc found (by rw [evaluateRule_sequence kind, behind, sequence, first])
    | alternative found kind children failed =>
      simp only [found, evaluateRule_alternation kind, children] at ended
      obtain ⟨_, _, behind⟩ := alternation_of_failed failed ended
      have first := gives.eq_of_ne fun stuck => ended (by rw [behind, alternation, stuck])
      exact ofSucc found (by rw [evaluateRule_alternation kind, children, behind, alternation, first])
    | optional found kind children =>
      simp only [found, evaluateRule_optional kind children] at ended
      have first := gives.eq_of_ne fun stuck => ended (by rw [Setting.optional, stuck])
      exact ofSucc found (by rw [evaluateRule_optional kind children, Setting.optional, first])
    | element found kind children rounds =>
      simp only [found, evaluateRule_repetition kind children] at ended
      obtain ⟨_, _, behind⟩ := repetition_of_rounds rounds ended
      have first := gives.eq_of_ne fun stuck => ended (by rw [behind, repetition, stuck])
      exact ofSucc found (by rw [evaluateRule_repetition kind children, behind, repetition, first])
    | capture found kind children =>
      simp only [found, evaluateRule_capture kind children] at ended
      have first := gives.eq_of_ne ended
      exact ofSucc found (by rw [evaluateRule_capture kind children, first])
    | operand found kind table? children =>
      simp only [found, evaluateRule_expression kind table? children] at ended
      have first := gives.eq_of_ne fun stuck => ended (by rw [expression, stuck])
      exact ofSucc found (by rw [evaluateRule_expression kind table? children, expression, first])
    | laterOperand found kind table? children matched chain follows =>
      obtain ⟨make, makes⟩ :=
        Classical.axiomOfChoice (makes _ (Array.mem_of_getElem? found) kind)
      have reads : ReadsFlat setting _ _ make _ (.fault cause next) :=
        .lacksLater matched chain follows gives rfl
      exact reads.gives found kind children table? makes

/-- The fault of a rule that an evaluation comes to is the outcome of that evaluation, where all
evaluations end and operators make nodes. -/
theorem gives_fault_of_entered (ends : ∀ id start, setting.Ends id start)
    (makes : ∀ rule ∈ setting.store.rules, rule.kind = .expression →
      ∀ children, ∃ node, setting.factory.node rule.tag children = .ok node)
    {entering reached : RuleId × Nat} (path : ReflTransGen (Enters setting) entering reached)
    {cause : Fault ε} {next : Nat} (gives : setting.Gives reached.1 reached.2 (.fault cause next)) :
    setting.Gives entering.1 entering.2 (.fault cause next) := by
  induction path using ReflTransGen.head_induction_on with
  | refl => exact gives
  | head enters _ ih => exact enters.gives_fault (ends _ _) makes ih

/-- A token that is accepted and cannot be read is a fault. -/
theorem gives_fault_of_unread {id : RuleId} {rule : Rule} {start : Nat} {literal : Literal}
    {error : NumeralError} (found : setting.store.rules[id]? = some rule) (kind : rule.kind = .terminal)
    (isLiteral : rule.literal = some literal)
    (accepted : setting.accepts rule (setting.buffer.peek start) = true)
    (unread : literal.value (setting.buffer.peek start) = .error error) :
    setting.Gives id start (.fault (.literal error) (setting.buffer.advance start)) := by
  have evaluated : setting.evaluateWithin 1 id start =
      .fault (.literal error) (setting.buffer.advance start) := by
    simp only [evaluateWithin, found, evaluateRule_terminal kind, terminal, accepted, isLiteral, unread]
    rfl
  exact gives_of_evaluateWithin evaluated (by simp)

/-! ## Evaluations without faults -/

/-- The conditions under which no evaluation of a rule of the store stops with a fault. -/
structure Faultless (setting : Setting α ε) : Prop where
  /-- Every rule has the parts that its kind needs. -/
  complete : ∀ rule ∈ setting.store.rules, rule.kind = .terminal ∨ rule.kind = .sequence ∨
    rule.children ≠ [] ∧ (rule.kind = .expression → setting.store.tableOf? rule ≠ none)
  /-- The tokens that a literal takes can be read as what it denotes. -/
  readable : ∀ rule ∈ setting.store.rules, ∀ literal, rule.literal = some literal →
    ∀ position, setting.accepts rule (setting.buffer.peek position) = true →
      ∃ value, literal.value (setting.buffer.peek position) = .ok value
  /-- A node is made of the value of each literal. -/
  literals : ∀ rule ∈ setting.store.rules, rule.kind = .terminal → rule.literal ≠ none →
    ∀ value, ∃ node, setting.factory.node rule.tag [setting.factory.scalar value] = .ok node
  /-- A node is made of all values that a sequence captures under a tag. -/
  sequences : ∀ rule ∈ setting.store.rules, rule.kind = .sequence → rule.tag ≠ none →
    ∀ children, ∃ node, setting.factory.node rule.tag children = .ok node
  /-- A node is made of an operator and any two operands. -/
  expressions : ∀ rule ∈ setting.store.rules, rule.kind = .expression →
    ∀ children, ∃ node, setting.factory.node rule.tag children = .ok node

/-- What is entered from a rule of the store is in the store. -/
theorem lt_size_of_entered {root reached : RuleId × Nat}
    (path : ReflTransGen (Enters setting) root reached) (valid : root.1 < setting.store.rules.size) :
    reached.1 < setting.store.rules.size :=
  Store.ReachableFrom.lt_size (reachable_of_entered path) valid

/-- No rule breaks on a node that it makes. -/
theorem Faultless.exists_node (faultless : Faultless setting) {rule : Rule}
    (mem : rule ∈ setting.store.rules) {children : List α} (makes : Makes setting rule children) :
    ∃ node, setting.factory.node rule.tag children = .ok node := by
  cases makes with
  | literal kind isLiteral value => exact faultless.literals rule mem kind isLiteral value
  | captured kind tagged => exact faultless.sequences rule mem kind tagged children
  | operator kind left right text => exact faultless.expressions rule mem kind _

theorem Faultless.not_breaks (faultless : Faultless setting) {reached : RuleId × Nat}
    (valid : reached.1 < setting.store.rules.size) (cause : Fault ε) :
    ¬ Breaks setting reached cause := by
  intro breaks
  have found := Array.getElem?_eq_getElem valid
  have mem := Array.getElem_mem valid
  rcases breaks.of_complete found (faultless.complete _ mem) with
    ⟨literal, error, _, _, isLiteral, accepted, unread⟩ | ⟨children, error, _, makes, refused⟩
  · obtain ⟨value, read⟩ := faultless.readable _ mem literal isLiteral _ accepted
    exact nomatch unread.symm.trans read
  · obtain ⟨node, made⟩ := faultless.exists_node mem makes
    exact nomatch refused.symm.trans made

/-- Where no fault arises, an evaluation that ends is a match or a failure. -/
theorem Faultless.decides (faultless : Faultless setting) {id : RuleId}
    (valid : id < setting.store.rules.size) {start : Nat} (ends : setting.Ends id start) :
    (∃ next, setting.Matches id start next) ∨ setting.Fails id start := by
  obtain ⟨outcome, gives⟩ := ends
  cases outcome with
  | matched value next => exact .inl ⟨next, value, gives⟩
  | failed failure next => exact .inr ⟨failure, next, gives⟩
  | fault cause next =>
    obtain ⟨reached, path, breaks⟩ := gives.exists_breaks
    exact absurd breaks (faultless.not_breaks (lt_size_of_entered path valid) cause)
  | exhausted => exact absurd rfl gives.1

end Grammatic.Setting
