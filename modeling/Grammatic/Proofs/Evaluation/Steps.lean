import Grammatic.Proofs.Evaluation.Budget
import Mathlib.Logic.Relation

/-!
# What comes of the parts of a rule

The evaluation of a rule says something about the evaluation of its parts: a sequence that matches has
passed all its components, an alternation that fails has had all its alternatives fail, and so on. The
lemmas are read off each loop for any evaluation of the parts, where `Took` and `Refused` say that a
part has matched and failed. For evaluations without a budget they become statements about `Matches`
and `Fails`.
-/

namespace Grammatic

open Relation (ReflTransGen)

variable {α ε : Type}

/-- Components are taken one behind the other, up to those that are left. -/
inductive Passed (takes : RuleId → Nat → Nat → Prop) :
    List RuleId → Nat → List RuleId → Nat → Prop
  | none {components : List RuleId} {position : Nat} :
      Passed takes components position components position
  | component {component : RuleId} {rest left : List RuleId} {start next position : Nat}
      (taken : takes component start next) (passed : Passed takes rest next left position) :
      Passed takes (component :: rest) start left position

namespace Passed

variable {takes : RuleId → Nat → Nat → Prop} {components rest left : List RuleId}
  {component : RuleId} {start position next : Nat}

theorem mono {takes' : RuleId → Nat → Nat → Prop}
    (imp : ∀ id start next, takes id start next → takes' id start next)
    (passed : Passed takes components start left position) :
    Passed takes' components start left position := by
  induction passed with
  | none => exact .none
  | component taken _ ih => exact .component (imp _ _ _ taken) ih

theorem mem (passed : Passed takes components start (component :: rest) position) :
    component ∈ components := by
  generalize remaining : component :: rest = left at passed
  induction passed with
  | none => subst remaining; exact List.mem_cons_self
  | component _ _ ih => exact List.mem_cons_of_mem _ (ih remaining)

/-- A component that is left is taken, if all components are in the end. -/
theorem taken_of_all (unique : ∀ {id start next next'}, takes id start next → takes id start next' →
      next = next')
    (passed : Passed takes components start (component :: rest) position)
    (all : Passed takes components start [] next) : ∃ behind, takes component position behind := by
  generalize remaining : component :: rest = left at passed
  induction passed with
  | none =>
    subst remaining
    cases all with
    | component taken _ => exact ⟨_, taken⟩
  | component taken _ ih =>
    cases all with
    | component taken' more =>
      obtain rfl := unique taken taken'
      exact ih more remaining

theorem unique (unique : ∀ {id start next next'}, takes id start next → takes id start next' →
      next = next')
    (passed : Passed takes components start [] position)
    (passed' : Passed takes components start [] next) : position = next := by
  generalize remaining : [] = left at passed
  induction passed with
  | none =>
    subst remaining
    cases passed'
    rfl
  | component taken _ ih =>
    cases passed' with
    | component taken' more =>
      obtain rfl := unique taken taken'
      exact ih more remaining

end Passed

namespace Setting

variable {setting : Setting α ε}

/-! ## Loops -/

/-- A part has matched. -/
def Took (part : RuleId → Nat → Outcome α ε) (id : RuleId) (start next : Nat) : Prop :=
  ∃ value, part id start = .matched value next

/-- A part has failed. -/
def Refused (part : RuleId → Nat → Outcome α ε) (id : RuleId) (start : Nat) : Prop :=
  ∃ failure position, part id start = .failed failure position

/-- One round of a repetition, which goes forward. -/
def Round (takes : Nat → Nat → Prop) (start next : Nat) : Prop :=
  next ≠ start ∧ takes start next

/-- An operator at a position, and its operand behind it. -/
def Operates (setting : Setting α ε) (table : OperatorTable) (takes : Nat → Nat → Prop)
    (position next : Nat) : Prop :=
  (∃ operator, table.find? (setting.buffer.peek position).kind = some operator) ∧
    takes (setting.buffer.advance position) next

section Loops

variable {part : RuleId → Nat → Outcome α ε} {rule : Rule} {outer start position next : Nat}
  {value : α} {failure : Failure}

theorem construct_matched {tag : Option NodeTag} {children : List α}
    (evaluated : setting.construct tag children position = .matched value next) :
    next = position ∧ setting.factory.node tag children = .ok value := by
  unfold construct at evaluated
  split at evaluated
  next made =>
    obtain ⟨rfl, rfl⟩ := Outcome.matched.inj evaluated
    exact ⟨rfl, made⟩
  next => cases evaluated

theorem construct_not_failed {tag : Option NodeTag} {children : List α} :
    setting.construct tag children position ≠ .failed failure next := by
  unfold construct
  split <;> exact nofun

theorem terminal_matched (evaluated : setting.terminal rule start = .matched value next) :
    setting.accepts rule (setting.buffer.peek start) = true ∧
      next = setting.buffer.advance start := by
  unfold terminal at evaluated
  simp only at evaluated
  split at evaluated
  next accepted =>
    refine ⟨accepted, ?_⟩
    split at evaluated
    next => exact (Outcome.matched.inj evaluated).2.symm
    next =>
      split at evaluated
      next => exact (construct_matched evaluated).1
      next => cases evaluated
  next => cases evaluated

theorem terminal_failed (evaluated : setting.terminal rule start = .failed failure next) :
    setting.accepts rule (setting.buffer.peek start) = false := by
  unfold terminal at evaluated
  simp only at evaluated
  split at evaluated
  next =>
    split at evaluated
    next => exact nomatch evaluated
    next =>
      split at evaluated
      next => exact absurd evaluated construct_not_failed
      next => exact nomatch evaluated
  next refused => exact eq_false_of_ne_true refused

theorem closeSequence_matched {captured : List α}
    (evaluated : setting.closeSequence rule captured position = .matched value next) :
    next = position := by
  unfold closeSequence at evaluated
  split at evaluated
  next => exact (construct_matched evaluated).1
  next => exact (Outcome.matched.inj evaluated).2.symm

theorem closeSequence_not_failed {captured : List α} :
    setting.closeSequence rule captured position ≠ .failed failure next := by
  unfold closeSequence
  split
  next => exact construct_not_failed
  next => exact nofun

/-- A sequence that matches has passed all its components. -/
theorem sequence_matched {components : List RuleId} {captured : List α}
    (evaluated : setting.sequence part rule outer components captured position =
      .matched value next) : Passed (Took part) components position [] next := by
  induction components generalizing captured position with
  | nil =>
    obtain rfl := closeSequence_matched evaluated
    exact .none
  | cons component rest ih =>
    simp only [sequence] at evaluated
    cases outcome : part component position with
    | matched first behind =>
      rw [outcome] at evaluated
      exact .component ⟨first, outcome⟩ (ih evaluated)
    | failed _ _ | fault _ _ | exhausted =>
      rw [outcome] at evaluated
      cases evaluated

/-- A sequence that fails has come to a component that does, with the same failure. -/
theorem sequence_failed {components : List RuleId} {captured : List α}
    (evaluated : setting.sequence part rule outer components captured position =
      .failed failure next) : ∃ component rest reached behind,
        Passed (Took part) components position (component :: rest) reached ∧
          part component reached = .failed failure behind := by
  induction components generalizing captured position with
  | nil => exact absurd evaluated closeSequence_not_failed
  | cons component rest ih =>
    simp only [sequence] at evaluated
    cases outcome : part component position with
    | matched first behind =>
      rw [outcome] at evaluated
      obtain ⟨other, left, reached, further, passed, failed⟩ := ih evaluated
      exact ⟨other, left, reached, further, .component ⟨first, outcome⟩ passed, failed⟩
    | failed own behind =>
      rw [outcome] at evaluated
      obtain ⟨rfl, -⟩ := Outcome.failed.inj evaluated
      exact ⟨component, rest, position, behind, .none, outcome⟩
    | fault _ _ | exhausted =>
      rw [outcome] at evaluated
      cases evaluated

/-- An alternation that matches does so by an alternative, and those before it have failed. -/
theorem alternation_matched {alternatives : List RuleId} {expected : StringSet}
    {last : Option Failure}
    (evaluated : alternation part start alternatives expected last = .matched value next) :
    ∃ earlier alternative later, alternatives = earlier ++ alternative :: later ∧
      (∀ other ∈ earlier, Refused part other start) ∧ part alternative start = .matched value next := by
  induction alternatives generalizing expected last with
  | nil => cases last <;> cases evaluated
  | cons alternative rest ih =>
    simp only [alternation] at evaluated
    cases outcome : part alternative start with
    | matched first behind =>
      rw [outcome] at evaluated
      exact ⟨[], alternative, rest, rfl, by simp, outcome.trans evaluated⟩
    | failed failure behind =>
      rw [outcome] at evaluated
      obtain ⟨earlier, other, later, rfl, refused, matched⟩ := ih evaluated
      refine ⟨alternative :: earlier, other, later, rfl, ?_, matched⟩
      intro another mem
      rcases List.mem_cons.mp mem with rfl | mem
      · exact ⟨failure, behind, outcome⟩
      · exact refused another mem
    | fault _ _ | exhausted =>
      rw [outcome] at evaluated
      cases evaluated

theorem alternation_failed {alternatives : List RuleId} {expected : StringSet}
    {last : Option Failure}
    (evaluated : alternation part start alternatives expected last = .failed failure next) :
    ∀ alternative ∈ alternatives, Refused part alternative start := by
  induction alternatives generalizing expected last with
  | nil => simp
  | cons alternative rest ih =>
    simp only [alternation] at evaluated
    cases outcome : part alternative start with
    | failed failure behind =>
      rw [outcome] at evaluated
      intro other mem
      rcases List.mem_cons.mp mem with rfl | mem
      · exact ⟨failure, behind, outcome⟩
      · exact ih evaluated other mem
    | matched _ _ | fault _ _ | exhausted =>
      rw [outcome] at evaluated
      cases evaluated

theorem optional_matched {sub : RuleId}
    (evaluated : setting.optional (part sub) start = .matched value next) :
    part sub start = .matched value next ∨
      Refused part sub start ∧ value = setting.factory.absent ∧ next = start := by
  unfold optional at evaluated
  cases outcome : part sub start with
  | matched first behind =>
    rw [outcome] at evaluated
    exact .inl evaluated
  | failed failure behind =>
    rw [outcome] at evaluated
    obtain ⟨rfl, rfl⟩ := Outcome.matched.inj evaluated
    exact .inr ⟨⟨failure, behind, outcome⟩, rfl, rfl⟩
  | fault _ _ | exhausted =>
    rw [outcome] at evaluated
    cases evaluated

theorem optional_not_failed {sub : RuleId} :
    setting.optional (part sub) start ≠ .failed failure next := by
  unfold optional
  cases part sub start <;> exact nofun

/-- A repetition that matches has gone forward for some rounds, and then its sub-rule has failed, or
has matched without going forward. -/
theorem repetition_matched {sub : RuleId} {rounds : Nat} {elements : List α}
    (evaluated : setting.repetition (part sub) rounds elements position = .matched value next) :
    ReflTransGen (Round (Took part sub)) position next ∧
      (Refused part sub next ∨ Took part sub next next) := by
  induction rounds generalizing elements position with
  | zero => cases evaluated
  | succ rounds ih =>
    simp only [repetition] at evaluated
    cases outcome : part sub position with
    | matched first behind =>
      simp only [outcome] at evaluated
      split at evaluated
      next same =>
        subst same
        obtain ⟨-, rfl⟩ := Outcome.matched.inj evaluated
        exact ⟨.refl, .inr ⟨first, outcome⟩⟩
      next progress =>
        obtain ⟨path, stopped⟩ := ih evaluated
        exact ⟨.head ⟨progress, first, outcome⟩ path, stopped⟩
    | failed failure behind =>
      rw [outcome] at evaluated
      obtain ⟨-, rfl⟩ := Outcome.matched.inj evaluated
      exact ⟨.refl, .inl ⟨failure, behind, outcome⟩⟩
    | fault _ _ | exhausted =>
      rw [outcome] at evaluated
      cases evaluated

theorem repetition_not_failed {sub : RuleId} {rounds : Nat} {elements : List α} :
    setting.repetition (part sub) rounds elements position ≠ .failed failure next := by
  induction rounds generalizing elements position with
  | zero => simp [repetition]
  | succ rounds ih =>
    simp only [repetition]
    cases part sub position with
    | matched first behind =>
      simp only
      split
      next => simp
      next => exact ih
    | failed _ _ | fault _ _ | exhausted => simp

theorem climb_matched {operand : RuleId} {tag : Option NodeTag} {table : OperatorTable}
    {rounds : Nat} {limit : Option Int} {left : α}
    (evaluated : setting.climb (part operand) tag table rounds limit left position =
      .matched value next) :
    ReflTransGen (setting.Operates table (Took part operand)) position next := by
  induction rounds generalizing limit left position value next with
  | zero => exact nomatch evaluated
  | succ rounds ih =>
    simp only [climb] at evaluated
    split at evaluated
    next =>
      obtain ⟨-, rfl⟩ := Outcome.matched.inj evaluated
      exact .refl
    next operator found =>
      split at evaluated
      next =>
        obtain ⟨-, rfl⟩ := Outcome.matched.inj evaluated
        exact .refl
      next =>
        cases outcome : part operand (setting.buffer.advance position) with
        | matched first behind =>
          simp only [outcome] at evaluated
          have step : setting.Operates table (Took part operand) position behind :=
            ⟨⟨operator, found⟩, first, outcome⟩
          cases nested : setting.climb (part operand) tag table rounds (some operator.rightLimit)
              first behind with
          | matched right further =>
            simp only [nested] at evaluated
            split at evaluated
            next => exact (ReflTransGen.head step (ih nested)).trans (ih evaluated)
            next => exact nomatch evaluated
          | failed _ _ | fault _ _ | exhausted =>
            rw [nested] at evaluated
            exact nomatch evaluated
        | failed _ _ | fault _ _ | exhausted =>
          rw [outcome] at evaluated
          exact nomatch evaluated

/-- An expression that matches has taken an operand, and operators with operands behind it. -/
theorem expression_matched {operand : RuleId} {tag : Option NodeTag} {table : OperatorTable}
    {rounds : Nat} (evaluated : setting.expression (part operand) tag table rounds start =
      .matched value next) :
    ∃ middle, Took part operand start middle ∧
      ReflTransGen (setting.Operates table (Took part operand)) middle next := by
  unfold expression at evaluated
  cases outcome : part operand start with
  | matched first middle =>
    simp only [outcome] at evaluated
    cases climbed : setting.climb (part operand) tag table rounds none first middle with
    | matched last behind =>
      rw [climbed] at evaluated
      obtain ⟨-, rfl⟩ := Outcome.matched.inj evaluated
      exact ⟨middle, ⟨first, outcome⟩, climb_matched climbed⟩
    | failed _ _ | fault _ _ | exhausted =>
      rw [climbed] at evaluated
      exact nomatch evaluated
  | failed _ _ | fault _ _ | exhausted =>
    rw [outcome] at evaluated
    exact nomatch evaluated

end Loops

/-! ## Without a budget -/

theorem matches_of_took {budget : Nat} (id : RuleId) (start next : Nat)
    (took : Took (setting.evaluateWithin budget) id start next) : setting.Matches id start next := by
  obtain ⟨value, evaluated⟩ := took
  exact ⟨value, gives_of_evaluateWithin evaluated nofun⟩

theorem fails_of_refused {budget : Nat} {id : RuleId} {start : Nat}
    (refused : Refused (setting.evaluateWithin budget) id start) : setting.Fails id start := by
  obtain ⟨failure, position, evaluated⟩ := refused
  exact ⟨failure, position, gives_of_evaluateWithin evaluated nofun⟩

/-- What a rule gives, it gives by the evaluation of its kind. -/
theorem Gives.exists_evaluateRule {id : RuleId} {start : Nat} {outcome : Outcome α ε} {rule : Rule}
    (gives : setting.Gives id start outcome) (found : setting.store.rules[id]? = some rule) :
    ∃ budget, setting.evaluateRule (setting.evaluateWithin budget) budget rule start = outcome := by
  obtain ⟨ended, budget, rfl⟩ := gives
  cases budget with
  | zero => exact absurd rfl ended
  | succ budget => exact ⟨budget, by simp only [evaluateWithin, found]⟩

section Parts

variable {id sub : RuleId} {rule : Rule} {rest : List RuleId} {start next : Nat}
  (found : setting.store.rules[id]? = some rule)

include found

theorem Matches.terminal (matched : setting.Matches id start next) (kind : rule.kind = .terminal) :
    setting.accepts rule (setting.buffer.peek start) = true ∧
      next = setting.buffer.advance start := by
  obtain ⟨value, gives⟩ := matched
  obtain ⟨budget, evaluated⟩ := gives.exists_evaluateRule found
  rw [evaluateRule_terminal kind] at evaluated
  exact terminal_matched evaluated

theorem Fails.terminal (fails : setting.Fails id start) (kind : rule.kind = .terminal) :
    setting.accepts rule (setting.buffer.peek start) = false := by
  obtain ⟨failure, position, gives⟩ := fails
  obtain ⟨budget, evaluated⟩ := gives.exists_evaluateRule found
  rw [evaluateRule_terminal kind] at evaluated
  exact terminal_failed evaluated

/-- A terminal fails exactly where it does not accept the token. -/
theorem fails_terminal_iff (kind : rule.kind = .terminal) :
    setting.Fails id start ↔ setting.accepts rule (setting.buffer.peek start) = false := by
  constructor
  · intro fails
    exact fails.terminal found kind
  · intro refused
    have evaluated : Refused (setting.evaluateWithin 1) id start :=
      ⟨⟨start, setting.buffer.peek start, rule.kinds⟩, start, by
        simp [evaluateWithin, found, evaluateRule_terminal kind, terminal, refused]⟩
    exact fails_of_refused evaluated

theorem Matches.sequence (matched : setting.Matches id start next) (kind : rule.kind = .sequence) :
    Passed setting.Matches rule.children start [] next := by
  obtain ⟨value, gives⟩ := matched
  obtain ⟨budget, evaluated⟩ := gives.exists_evaluateRule found
  rw [evaluateRule_sequence kind] at evaluated
  exact (sequence_matched evaluated).mono matches_of_took

theorem Fails.sequence (fails : setting.Fails id start) (kind : rule.kind = .sequence) :
    ∃ component rest position, Passed setting.Matches rule.children start (component :: rest) position ∧
      setting.Fails component position := by
  obtain ⟨failure, position, gives⟩ := fails
  obtain ⟨budget, evaluated⟩ := gives.exists_evaluateRule found
  rw [evaluateRule_sequence kind] at evaluated
  obtain ⟨component, rest, reached, behind, passed, failed⟩ := sequence_failed evaluated
  exact ⟨component, rest, reached, passed.mono matches_of_took, fails_of_refused ⟨_, behind, failed⟩⟩

theorem Matches.alternation (matched : setting.Matches id start next)
    (kind : rule.kind = .alternation) :
    ∃ earlier alternative later, rule.children = earlier ++ alternative :: later ∧
      (∀ other ∈ earlier, setting.Fails other start) ∧ setting.Matches alternative start next := by
  obtain ⟨value, gives⟩ := matched
  obtain ⟨budget, evaluated⟩ := gives.exists_evaluateRule found
  rw [evaluateRule_alternation kind] at evaluated
  obtain ⟨earlier, alternative, later, split, refused, matched⟩ := alternation_matched evaluated
  exact ⟨earlier, alternative, later, split, fun other mem => fails_of_refused (refused other mem),
    matches_of_took _ _ _ ⟨value, matched⟩⟩

theorem Fails.alternation (fails : setting.Fails id start) (kind : rule.kind = .alternation) :
    ∀ alternative ∈ rule.children, setting.Fails alternative start := by
  obtain ⟨failure, position, gives⟩ := fails
  obtain ⟨budget, evaluated⟩ := gives.exists_evaluateRule found
  rw [evaluateRule_alternation kind] at evaluated
  exact fun alternative mem => fails_of_refused (alternation_failed evaluated alternative mem)

theorem Matches.optional (matched : setting.Matches id start next) (kind : rule.kind = .optional)
    (children : rule.children = sub :: rest) :
    setting.Matches sub start next ∨ setting.Fails sub start ∧ next = start := by
  obtain ⟨value, gives⟩ := matched
  obtain ⟨budget, evaluated⟩ := gives.exists_evaluateRule found
  rw [evaluateRule_optional kind children] at evaluated
  rcases optional_matched evaluated with matched | ⟨refused, -, same⟩
  · exact .inl (matches_of_took _ _ _ ⟨value, matched⟩)
  · exact .inr ⟨fails_of_refused refused, same⟩

theorem not_fails_optional (kind : rule.kind = .optional) (children : rule.children = sub :: rest) :
    ¬ setting.Fails id start := by
  rintro ⟨failure, position, gives⟩
  obtain ⟨budget, evaluated⟩ := gives.exists_evaluateRule found
  rw [evaluateRule_optional kind children] at evaluated
  exact optional_not_failed evaluated

theorem Matches.repetition (matched : setting.Matches id start next)
    (kind : rule.kind = .repetition) (children : rule.children = sub :: rest) :
    ReflTransGen (Round (setting.Matches sub)) start next ∧
      (setting.Fails sub next ∨ setting.Matches sub next next) := by
  obtain ⟨value, gives⟩ := matched
  obtain ⟨budget, evaluated⟩ := gives.exists_evaluateRule found
  rw [evaluateRule_repetition kind children] at evaluated
  obtain ⟨path, stopped⟩ := repetition_matched evaluated
  have weaker : Round (Took (setting.evaluateWithin budget) sub) ≤ Round (setting.Matches sub) :=
    fun _ _ round => ⟨round.1, matches_of_took _ _ _ round.2⟩
  exact ⟨ReflTransGen.mono weaker _ _ path, stopped.imp fails_of_refused (matches_of_took _ _ _)⟩

theorem not_fails_repetition (kind : rule.kind = .repetition)
    (children : rule.children = sub :: rest) : ¬ setting.Fails id start := by
  rintro ⟨failure, position, gives⟩
  obtain ⟨budget, evaluated⟩ := gives.exists_evaluateRule found
  rw [evaluateRule_repetition kind children] at evaluated
  exact repetition_not_failed evaluated

theorem Matches.capture (matched : setting.Matches id start next) (kind : rule.kind = .capture)
    (children : rule.children = sub :: rest) : setting.Matches sub start next := by
  obtain ⟨value, gives⟩ := matched
  obtain ⟨budget, evaluated⟩ := gives.exists_evaluateRule found
  rw [evaluateRule_capture kind children] at evaluated
  exact matches_of_took _ _ _ ⟨value, evaluated⟩

theorem Fails.capture (fails : setting.Fails id start) (kind : rule.kind = .capture)
    (children : rule.children = sub :: rest) : setting.Fails sub start := by
  obtain ⟨failure, position, gives⟩ := fails
  obtain ⟨budget, evaluated⟩ := gives.exists_evaluateRule found
  rw [evaluateRule_capture kind children] at evaluated
  exact fails_of_refused ⟨failure, position, evaluated⟩

/-- An expression that matches has matched an operand, and operators with operands behind it. -/
theorem Matches.expression {table : OperatorTable} (matched : setting.Matches id start next)
    (kind : rule.kind = .expression) (table? : setting.store.tableOf? rule = some table)
    (children : rule.children = sub :: rest) :
    ∃ middle, setting.Matches sub start middle ∧
      ReflTransGen (setting.Operates table (setting.Matches sub)) middle next := by
  obtain ⟨value, gives⟩ := matched
  obtain ⟨budget, evaluated⟩ := gives.exists_evaluateRule found
  rw [evaluateRule_expression kind table? children] at evaluated
  obtain ⟨middle, took, path⟩ := expression_matched evaluated
  have weaker : setting.Operates table (Took (setting.evaluateWithin budget) sub) ≤
      setting.Operates table (setting.Matches sub) :=
    fun _ _ step => ⟨step.1, matches_of_took _ _ _ step.2⟩
  exact ⟨middle, matches_of_took _ _ _ took, ReflTransGen.mono weaker _ _ path⟩

theorem not_matches_of_no_table (kind : rule.kind = .expression)
    (table? : setting.store.tableOf? rule = none) : ¬ setting.Matches id start next := by
  rintro ⟨value, gives⟩
  obtain ⟨budget, evaluated⟩ := gives.exists_evaluateRule found
  simp only [evaluateRule, kind, table?] at evaluated
  cases evaluated

end Parts

end Setting

end Grammatic
