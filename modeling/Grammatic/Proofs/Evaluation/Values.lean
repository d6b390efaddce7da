import Grammatic.Proofs.Evaluation.Steps
import Grammatic.Proofs.Expression.Climbing

/-!
# What values are made of

The value that a rule matches with is made of the values of its parts: a sequence collects those that
it captures, a repetition lists those of its rounds, an expression folds operands and operators, and so
on. `MadeOf` says it with one constructor for each way to make a value, for any relation between the
parts and their values.

A statement about rules and the values that they match with, which holds of whatever is made of values
that it holds of, holds of all (`Gives.madeOf_induction`). The budget is gone then, and the loops with
it. Where it matters that earlier alternatives have failed, `Gives.chosen_induction` says so.
-/

namespace Grammatic.Setting

variable {α ε : Type}

/-! ## Ways to make values -/

/-- Components match one behind the other, and the values of those that are captured are collected. -/
inductive Collects (setting : Setting α ε) (yields : RuleId → Nat → α → Nat → Prop) :
    List RuleId → Nat → List α → Nat → Prop
  | none {position : Nat} : Collects setting yields [] position [] position
  | captured {component : RuleId} {rest : List RuleId} {start next stop : Nat} {value : α}
      {values : List α} (captures : setting.store.captures component = true)
      (yielded : yields component start value next)
      (more : Collects setting yields rest next values stop) :
      Collects setting yields (component :: rest) start (value :: values) stop
  | passed {component : RuleId} {rest : List RuleId} {start next stop : Nat} {value : α}
      {values : List α} (captures : setting.store.captures component = false)
      (yielded : yields component start value next)
      (more : Collects setting yields rest next values stop) :
      Collects setting yields (component :: rest) start values stop

/-- A part matches a number of times, one behind the other. -/
inductive Repeats (yields : Nat → α → Nat → Prop) : Nat → List α → Nat → Prop
  | none {position : Nat} : Repeats yields position [] position
  | element {start next stop : Nat} {value : α} {values : List α} (yielded : yields start value next)
      (more : Repeats yields next values stop) : Repeats yields start (value :: values) stop

/-- Operands, and nodes of an operator between two operands. -/
inductive Operated (setting : Setting α ε) (yields : Nat → α → Nat → Prop) (tag : Option NodeTag)
    (table : OperatorTable) : Nat → α → Nat → Prop
  | operand {start next : Nat} {value : α} (yielded : yields start value next) :
      Operated setting yields tag table start value next
  | operator {start middle next : Nat} {left right value : α} {operator : Operator}
      (before : Operated setting yields tag table start left middle)
      (found : table.find? (setting.buffer.peek middle).kind = some operator)
      (behind : Operated setting yields tag table (setting.buffer.advance middle) right next)
      (made : setting.factory.node tag
        [left, setting.factory.scalar (.text (setting.buffer.peek middle).text), right] = .ok value) :
      Operated setting yields tag table start value next

/-- The value of a rule is made of those that its parts yield. -/
inductive MadeOf (setting : Setting α ε) (yields : RuleId → Nat → α → Nat → Prop) (rule : Rule)
    (start : Nat) : α → Nat → Prop
  | delimiter (kind : rule.kind = .terminal) (isLiteral : rule.literal = none)
      (accepted : setting.accepts rule (setting.buffer.peek start) = true) :
      MadeOf setting yields rule start setting.factory.absent (setting.buffer.advance start)
  | literal {literal : Literal} {scalar : Scalar} {value : α} (kind : rule.kind = .terminal)
      (isLiteral : rule.literal = some literal)
      (accepted : setting.accepts rule (setting.buffer.peek start) = true)
      (read : literal.value (setting.buffer.peek start) = .ok scalar)
      (made : setting.factory.node rule.tag [setting.factory.scalar scalar] = .ok value) :
      MadeOf setting yields rule start value (setting.buffer.advance start)
  | tagged {values : List α} {value : α} {next : Nat} (kind : rule.kind = .sequence)
      (tagged : rule.tag ≠ none)
      (collects : Collects setting yields rule.children start values next)
      (made : setting.factory.node rule.tag values = .ok value) :
      MadeOf setting yields rule start value next
  | untagged {values : List α} {next : Nat} (kind : rule.kind = .sequence) (untagged : rule.tag = none)
      (collects : Collects setting yields rule.children start values next) :
      MadeOf setting yields rule start (values.head?.getD setting.factory.absent) next
  | alternative {alternative : RuleId} {value : α} {next : Nat} (kind : rule.kind = .alternation)
      (mem : alternative ∈ rule.children) (yielded : yields alternative start value next) :
      MadeOf setting yields rule start value next
  | present {sub : RuleId} {rest : List RuleId} {value : α} {next : Nat}
      (kind : rule.kind = .optional) (children : rule.children = sub :: rest)
      (yielded : yields sub start value next) : MadeOf setting yields rule start value next
  | absent (kind : rule.kind = .optional) :
      MadeOf setting yields rule start setting.factory.absent start
  | repeated {sub : RuleId} {rest : List RuleId} {values : List α} {next : Nat}
      (kind : rule.kind = .repetition) (children : rule.children = sub :: rest)
      (repeats : Repeats (yields sub) start values next) :
      MadeOf setting yields rule start (setting.factory.list values) next
  | capture {sub : RuleId} {rest : List RuleId} {value : α} {next : Nat}
      (kind : rule.kind = .capture) (children : rule.children = sub :: rest)
      (yielded : yields sub start value next) : MadeOf setting yields rule start value next
  | operated {operand : RuleId} {rest : List RuleId} {table : OperatorTable} {value : α} {next : Nat}
      (kind : rule.kind = .expression) (children : rule.children = operand :: rest)
      (table? : setting.store.tableOf? rule = some table)
      (operated : Operated setting (yields operand) rule.tag table start value next) :
      MadeOf setting yields rule start value next

variable {setting : Setting α ε}

section Mono

variable {yields yields' : RuleId → Nat → α → Nat → Prop}
  (imp : ∀ id start value next, yields id start value next → yields' id start value next)

include imp

theorem Collects.mono {components : List RuleId} {start next : Nat} {values : List α}
    (collects : Collects setting yields components start values next) :
    Collects setting yields' components start values next := by
  induction collects with
  | none => exact .none
  | captured captures yielded _ ih => exact .captured captures (imp _ _ _ _ yielded) ih
  | passed captures yielded _ ih => exact .passed captures (imp _ _ _ _ yielded) ih

theorem Repeats.mono {sub : RuleId} {start next : Nat} {values : List α}
    (repeats : Repeats (yields sub) start values next) :
    Repeats (yields' sub) start values next := by
  induction repeats with
  | none => exact .none
  | element yielded _ ih => exact .element (imp _ _ _ _ yielded) ih

theorem Operated.mono {operand : RuleId} {tag : Option NodeTag} {table : OperatorTable}
    {start next : Nat} {value : α}
    (operated : Operated setting (yields operand) tag table start value next) :
    Operated setting (yields' operand) tag table start value next := by
  induction operated with
  | operand yielded => exact .operand (imp _ _ _ _ yielded)
  | operator _ found _ made before behind => exact .operator before found behind made

end Mono

theorem MadeOf.mono {yields yields' : RuleId → Nat → α → Nat → Prop} {rule : Rule} {start next : Nat}
    {value : α} (made : MadeOf setting yields rule start value next)
    (imp : ∀ id start value next, yields id start value next → yields' id start value next) :
    MadeOf setting yields' rule start value next := by
  cases made with
  | delimiter kind isLiteral accepted => exact .delimiter kind isLiteral accepted
  | literal kind isLiteral accepted read made => exact .literal kind isLiteral accepted read made
  | tagged kind tagged collects made => exact .tagged kind tagged (collects.mono imp) made
  | untagged kind untagged collects => exact .untagged kind untagged (collects.mono imp)
  | alternative kind mem yielded => exact .alternative kind mem (imp _ _ _ _ yielded)
  | present kind children yielded => exact .present kind children (imp _ _ _ _ yielded)
  | absent kind => exact .absent kind
  | repeated kind children repeats => exact .repeated kind children (repeats.mono imp)
  | capture kind children yielded => exact .capture kind children (imp _ _ _ _ yielded)
  | operated kind children table? operated =>
    exact .operated kind children table? (operated.mono imp)

/-- An untagged sequence gives the first of the values that it collects, if there is one. -/
theorem MadeOf.of_untagged {yields : RuleId → Nat → α → Nat → Prop} {rule : Rule} {start next : Nat}
    {value : α} (made : MadeOf setting yields rule start value next) (kind : rule.kind = .sequence)
    (untagged : rule.tag = none) : ∃ values,
      Collects setting yields rule.children start values next ∧
        value = values.head?.getD setting.factory.absent := by
  cases made with
  | untagged _ _ collects => exact ⟨_, collects, rfl⟩
  | tagged _ tagged => exact absurd untagged tagged
  | delimiter other | literal other | alternative other | present other | absent other
  | repeated other | capture other | operated other => exact nomatch kind.symm.trans other

/-- A sequence collects no more values than it captures, and no fewer. -/
theorem Collects.length_eq {yields : RuleId → Nat → α → Nat → Prop} {components : List RuleId}
    {start next : Nat} {values : List α}
    (collects : Collects setting yields components start values next) :
    values.length = components.countP setting.store.captures := by
  induction collects with
  | none => rfl
  | captured captures _ _ ih => rw [List.length_cons, ih, List.countP_cons_of_pos captures]
  | passed captures _ _ ih =>
    rw [ih, List.countP_cons_of_neg (by rw [captures]; exact Bool.false_ne_true)]

/-! ## What the loops make -/

section Loops

variable {part : RuleId → Nat → Outcome α ε} {rule : Rule} {outer start position next : Nat}
  {value : α}

theorem terminal_madeOf {yields : RuleId → Nat → α → Nat → Prop} (kind : rule.kind = .terminal)
    (evaluated : setting.terminal rule start = .matched value next) :
    MadeOf setting yields rule start value next := by
  unfold terminal at evaluated
  simp only at evaluated
  split at evaluated
  next accepted =>
    split at evaluated
    next isLiteral =>
      obtain ⟨rfl, rfl⟩ := Outcome.matched.inj evaluated
      exact .delimiter kind isLiteral accepted
    next literal isLiteral =>
      split at evaluated
      next scalar read =>
        obtain ⟨rfl, made⟩ := construct_matched evaluated
        exact .literal kind isLiteral accepted read made
      next => exact nomatch evaluated
  next => exact nomatch evaluated

theorem sequence_collects {components : List RuleId} {captured : List α}
    (evaluated : setting.sequence part rule outer components captured position =
      .matched value next) :
    ∃ values stop,
      Collects setting (fun id start value next => part id start = .matched value next) components
        position values stop ∧
      setting.closeSequence rule (values.reverse ++ captured) stop = .matched value next := by
  induction components generalizing captured position with
  | nil => exact ⟨[], position, .none, evaluated⟩
  | cons component rest ih =>
    simp only [sequence] at evaluated
    cases outcome : part component position with
    | matched first behind =>
      simp only [outcome] at evaluated
      obtain ⟨values, stop, collects, closed⟩ := ih evaluated
      cases captures : setting.store.captures component with
      | true =>
        rw [captures, if_pos rfl] at closed
        refine ⟨first :: values, stop, .captured captures outcome collects, ?_⟩
        rwa [List.reverse_cons, List.append_assoc, List.singleton_append]
      | false =>
        rw [captures, if_neg Bool.false_ne_true] at closed
        exact ⟨values, stop, .passed captures outcome collects, closed⟩
    | failed _ _ | fault _ _ | exhausted =>
      rw [outcome] at evaluated
      cases evaluated

theorem repetition_repeats {sub : Nat → Outcome α ε} {rounds : Nat} {elements : List α}
    (evaluated : setting.repetition sub rounds elements position = .matched value next) :
    ∃ values, Repeats (fun start value next => sub start = .matched value next) position values next ∧
      value = setting.factory.list (elements.reverse ++ values) := by
  induction rounds generalizing elements position with
  | zero => cases evaluated
  | succ rounds ih =>
    simp only [repetition] at evaluated
    cases outcome : sub position with
    | matched first behind =>
      simp only [outcome] at evaluated
      split at evaluated
      next same =>
        subst same
        obtain ⟨rfl, rfl⟩ := Outcome.matched.inj evaluated
        exact ⟨[first], .element outcome .none, by rw [List.reverse_cons]⟩
      next =>
        obtain ⟨values, repeats, rfl⟩ := ih evaluated
        refine ⟨first :: values, .element outcome repeats, ?_⟩
        rw [List.reverse_cons, List.append_assoc, List.singleton_append]
    | failed _ _ =>
      rw [outcome] at evaluated
      obtain ⟨rfl, rfl⟩ := Outcome.matched.inj evaluated
      exact ⟨[], .none, by rw [List.append_nil]⟩
    | fault _ _ | exhausted =>
      rw [outcome] at evaluated
      cases evaluated

theorem climb_operated {sub : Nat → Outcome α ε} {tag : Option NodeTag} {table : OperatorTable}
    {rounds : Nat} {limit : Option Int} {left : α}
    (before : Operated setting (fun start value next => sub start = .matched value next) tag table
      start left position)
    (evaluated : setting.climb sub tag table rounds limit left position = .matched value next) :
    Operated setting (fun start value next => sub start = .matched value next) tag table start value
      next := by
  induction rounds generalizing limit start left position value next with
  | zero => exact nomatch evaluated
  | succ rounds ih =>
    rcases stopsAt_or_takes setting table limit position with stops | ⟨operator, takes⟩
    · rw [climb_of_stopsAt stops] at evaluated
      obtain ⟨rfl, rfl⟩ := Outcome.matched.inj evaluated
      exact before
    · rw [climb_of_takes takes] at evaluated
      cases outcome : sub (setting.buffer.advance position) with
      | matched first behind =>
        simp only [outcome] at evaluated
        cases nested : setting.climb sub tag table rounds (some operator.rightLimit) first behind with
        | matched right further =>
          simp only [nested] at evaluated
          have operand := ih (.operand outcome) nested
          split at evaluated
          next made => exact ih (.operator before takes.1 operand made) evaluated
          next => exact nomatch evaluated
        | failed _ _ | fault _ _ | exhausted =>
          rw [nested] at evaluated
          exact nomatch evaluated
      | failed _ _ | fault _ _ | exhausted =>
        rw [outcome] at evaluated
        exact nomatch evaluated

theorem expression_operated {sub : Nat → Outcome α ε} {tag : Option NodeTag} {table : OperatorTable}
    {rounds : Nat} (evaluated : setting.expression sub tag table rounds start = .matched value next) :
    Operated setting (fun start value next => sub start = .matched value next) tag table start value
      next := by
  cases outcome : sub start with
  | matched first middle =>
    rw [expression_of_matched outcome] at evaluated
    cases climbed : setting.climb sub tag table rounds none first middle with
    | matched _ _ =>
      rw [climbed] at evaluated
      exact climb_operated (.operand outcome) (climbed.trans evaluated)
    | failed _ _ | fault _ _ | exhausted =>
      rw [climbed] at evaluated
      exact nomatch evaluated
  | failed _ _ | fault _ _ | exhausted =>
    rw [expression_of_lacking (by rw [outcome]; rfl), outcome] at evaluated
    exact nomatch evaluated

theorem evaluateRule_madeOf {budget : Nat}
    (evaluated : setting.evaluateRule part budget rule start = .matched value next) :
    MadeOf setting (fun id start value next => part id start = .matched value next) rule start value
      next := by
  revert evaluated
  apply evaluateRule_cases (P := fun outcome => outcome = .matched value next →
    MadeOf setting (fun id start value next => part id start = .matched value next) rule start value
      next)
  case terminal =>
    intro kind evaluated
    exact terminal_madeOf kind evaluated
  case sequence =>
    intro kind evaluated
    obtain ⟨values, stop, collects, closed⟩ := sequence_collects evaluated
    rw [List.append_nil, closeSequence, List.reverse_reverse] at closed
    cases tag : rule.tag with
    | some tag' =>
      simp only [tag] at closed
      obtain ⟨rfl, made⟩ := construct_matched closed
      exact .tagged kind (by simp [tag]) collects (by rw [tag]; exact made)
    | none =>
      simp only [tag] at closed
      obtain ⟨rfl, rfl⟩ := Outcome.matched.inj closed
      exact .untagged kind tag collects
  case alternation =>
    intro kind evaluated
    obtain ⟨earlier, alternative, later, children, -, yielded⟩ := alternation_matched evaluated
    exact .alternative kind (by rw [children]; simp) yielded
  case optional =>
    intro sub rest kind children evaluated
    rcases optional_matched evaluated with yielded | ⟨-, rfl, rfl⟩
    · exact .present kind children yielded
    · exact .absent kind
  case repetition =>
    intro sub rest kind children evaluated
    obtain ⟨values, repeats, rfl⟩ := repetition_repeats evaluated
    exact .repeated kind children repeats
  case capture =>
    intro sub rest kind children evaluated
    exact .capture kind children evaluated
  case expression =>
    intro operand rest table kind table? children evaluated
    exact .operated kind children table? (expression_operated evaluated)
  case lacking => exact nofun

end Loops

/-! ## What evaluation makes -/

/-- The value that a rule matches with is made of values that other rules match with. -/
theorem Gives.madeOf {id : RuleId} {rule : Rule} {start next : Nat} {value : α}
    (gives : setting.Gives id start (.matched value next))
    (found : setting.store.rules[id]? = some rule) :
    MadeOf setting (fun id start value next => setting.Gives id start (.matched value next)) rule start
      value next := by
  obtain ⟨budget, evaluated⟩ := gives.exists_evaluateRule found
  exact (evaluateRule_madeOf evaluated).mono fun _ _ _ _ yielded =>
    gives_of_evaluateWithin yielded nofun

/-- What holds of values that are made of such that it holds of, holds of all values that rules match
with. -/
theorem Gives.madeOf_induction {holds : RuleId → Nat → α → Nat → Prop}
    (step : ∀ id rule start value next, setting.store.rules[id]? = some rule →
      MadeOf setting holds rule start value next → holds id start value next)
    {id : RuleId} {start next : Nat} {value : α}
    (gives : setting.Gives id start (.matched value next)) : holds id start value next := by
  obtain ⟨-, budget, evaluated⟩ := gives
  induction budget generalizing id start value next with
  | zero => cases evaluated
  | succ budget ih =>
    simp only [evaluateWithin] at evaluated
    split at evaluated
    next => cases evaluated
    next rule found =>
      exact step id rule start value next found
        ((evaluateRule_madeOf evaluated).mono fun _ _ _ _ yielded => ih yielded)

/-- The same for choices that are known to be the first that match: a value of an alternation is that of
an alternative, and those before it have failed. -/
theorem Gives.chosen_induction {motive : RuleId → Nat → α → Nat → Prop}
    (chosen : ∀ id rule start value next earlier alternative later,
      setting.store.rules[id]? = some rule → rule.kind = .alternation →
      rule.children = earlier ++ alternative :: later →
      (∀ other ∈ earlier, setting.Fails other start) → motive alternative start value next →
      motive id start value next)
    (step : ∀ id rule start value next, setting.store.rules[id]? = some rule →
      rule.kind ≠ .alternation → MadeOf setting motive rule start value next →
      motive id start value next)
    {id : RuleId} {start next : Nat} {value : α}
    (gives : setting.Gives id start (.matched value next)) : motive id start value next := by
  obtain ⟨-, budget, evaluated⟩ := gives
  induction budget generalizing id start value next with
  | zero => cases evaluated
  | succ budget ih =>
    simp only [evaluateWithin] at evaluated
    split at evaluated
    next => cases evaluated
    next rule found =>
      by_cases kind : rule.kind = .alternation
      · rw [evaluateRule_alternation kind] at evaluated
        obtain ⟨earlier, alternative, later, children, refused, matched⟩ :=
          alternation_matched evaluated
        exact chosen id rule start value next earlier alternative later found kind children
          (fun other mem => fails_of_refused (refused other mem)) (ih matched)
      · exact step id rule start value next found kind
          ((evaluateRule_madeOf evaluated).mono fun _ _ _ _ yielded => ih yielded)

end Grammatic.Setting
