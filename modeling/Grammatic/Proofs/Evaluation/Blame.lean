import Grammatic.Proofs.Evaluation.Failures
import Grammatic.Proofs.Evaluation.Faults

/-!
# What a failure owes to terminals

Only terminals fail by themselves. A sequence, a capture and an expression hand on the failure of a rule
that they enter, also when they go back over tokens that they have taken. An alternation hands on the
place of its last alternative, and merges what all of them expect. An optional and a repetition do not
fail. So a failure `Inherits` from those of the rules that are entered, and by induction along them
(`Gives.failed_induction`) it leads back to terminals (`Gives.exists_rejects`): one is tried at the very
place of the failure, does not take the token there, and has all its kinds among those that are expected,
and each kind that is expected is one of a terminal that was tried and did not match.
-/

namespace Grammatic

open Relation (ReflTransGen)

variable {α ε : Type}

/-- A failure names the place of another, and expects what the other does. -/
structure Failure.Covers (failure own : Failure) : Prop where
  position : failure.position = own.position
  token : failure.token = own.token
  expected : ∀ kind ∈ own.expected, kind ∈ failure.expected

namespace Failure.Covers

variable {failure own first : Failure}

theorem refl (failure : Failure) : failure.Covers failure := ⟨rfl, rfl, fun _ mem => mem⟩

theorem trans (covers : failure.Covers own) (covers' : own.Covers first) : failure.Covers first where
  position := covers.position.trans covers'.position
  token := covers.token.trans covers'.token
  expected kind mem := covers.expected kind (covers'.expected kind mem)

end Failure.Covers

namespace Setting

variable {setting : Setting α ε}

/-- A terminal is tried at a position, and does not take the token there. -/
structure Rejects (setting : Setting α ε) (reached : RuleId × Nat) (attempt : Rule) : Prop where
  found : setting.store.rules[reached.1]? = some attempt
  kind : attempt.kind = .terminal
  refused : setting.accepts attempt (setting.buffer.peek reached.2) = false

/-- What the failure of a rule owes to the failures of the rules that it enters: the place of one of
them, and each kind that is expected. -/
structure Inherits (setting : Setting α ε) (part : RuleId → Nat → Outcome α ε)
    (entering : RuleId × Nat) (failure : Failure) : Prop where
  place : ∃ entered own behind, Enters setting entering entered ∧
    part entered.1 entered.2 = .failed own behind ∧ failure.Covers own
  kinds : ∀ kind ∈ failure.expected, ∃ entered own behind, Enters setting entering entered ∧
    part entered.1 entered.2 = .failed own behind ∧ kind ∈ own.expected

/-- A failure that is handed on as it is. -/
theorem Inherits.of_entered {part : RuleId → Nat → Outcome α ε} {entering entered : RuleId × Nat}
    {failure : Failure} {behind : Nat} (enters : Enters setting entering entered)
    (failed : part entered.1 entered.2 = .failed failure behind) :
    Inherits setting part entering failure where
  place := ⟨entered, failure, behind, enters, failed, .refl failure⟩
  kinds _ mem := ⟨entered, failure, behind, enters, failed, mem⟩

/-! ## The failure of a loop is that of a part -/

section Loops

variable {part : RuleId → Nat → Outcome α ε} {rule : Rule} {outer start position next : Nat}
  {failure : Failure}

/-- The failure of the loop of an expression is that of an operand behind an operator, behind any
operators that have their operands. -/
theorem climb_failed {operand : RuleId} {tag : Option NodeTag} {table : OperatorTable}
    {rounds : Nat} {limit : Option Int} {left : α}
    (evaluated : setting.climb (part operand) tag table rounds limit left position =
      .failed failure next) :
    ∃ reached operator behind,
      ReflTransGen (setting.Operates table (Took part operand)) position reached ∧
        table.find? (setting.buffer.peek reached).kind = some operator ∧
          part operand (setting.buffer.advance reached) = .failed failure behind := by
  induction rounds generalizing limit left position next with
  | zero => exact nomatch evaluated
  | succ rounds ih =>
    rcases stopsAt_or_takes setting table limit position with stops | ⟨operator, takes⟩
    · rw [climb_of_stopsAt stops] at evaluated
      exact nomatch evaluated
    · rw [climb_of_takes takes] at evaluated
      cases outcome : part operand (setting.buffer.advance position) with
      | failed own behind =>
        rw [outcome] at evaluated
        obtain ⟨rfl, -⟩ := Outcome.failed.inj evaluated
        exact ⟨position, operator, behind, .refl, takes.1, outcome⟩
      | fault _ _ | exhausted =>
        rw [outcome] at evaluated
        exact nomatch evaluated
      | matched first behind =>
        simp only [outcome] at evaluated
        have step : setting.Operates table (Took part operand) position behind :=
          ⟨⟨operator, takes.1⟩, first, outcome⟩
        -- The operator has its operand: the failure lies within its right side, or behind that.
        cases nested : setting.climb (part operand) tag table rounds (some operator.rightLimit)
            first behind with
        | failed own further =>
          rw [nested] at evaluated
          obtain ⟨rfl, -⟩ := Outcome.failed.inj evaluated
          obtain ⟨reached, later, last, path, follows, failed⟩ := ih nested
          exact ⟨reached, later, last, .head step path, follows, failed⟩
        | matched right middle =>
          simp only [nested] at evaluated
          split at evaluated
          next =>
            obtain ⟨reached, later, last, path, follows, failed⟩ := ih evaluated
            exact ⟨reached, later, last, .head step ((climb_matched nested).trans path), follows,
              failed⟩
          next => exact nomatch evaluated
        | fault _ _ | exhausted =>
          rw [nested] at evaluated
          exact nomatch evaluated

/-- The failure of an expression is that of its first operand, or of a later one. -/
theorem expression_failed {operand : RuleId} {tag : Option NodeTag} {table : OperatorTable}
    {rounds : Nat} (evaluated : setting.expression (part operand) tag table rounds start =
      .failed failure next) :
    (∃ behind, part operand start = .failed failure behind) ∨
      ∃ first middle reached operator behind, part operand start = .matched first middle ∧
        ReflTransGen (setting.Operates table (Took part operand)) middle reached ∧
          table.find? (setting.buffer.peek reached).kind = some operator ∧
            part operand (setting.buffer.advance reached) = .failed failure behind := by
  cases outcome : part operand start with
  | failed own behind =>
    rw [expression, outcome] at evaluated
    obtain ⟨rfl, -⟩ := Outcome.failed.inj evaluated
    exact .inl ⟨behind, rfl⟩
  | matched first middle =>
    rw [expression_of_matched outcome] at evaluated
    cases climbed : setting.climb (part operand) tag table rounds none first middle with
    | failed own behind =>
      rw [climbed] at evaluated
      obtain ⟨rfl, -⟩ := Outcome.failed.inj evaluated
      obtain ⟨reached, operator, last, path, follows, failed⟩ := climb_failed climbed
      exact .inr ⟨first, middle, reached, operator, last, rfl, path, follows, failed⟩
    | matched _ _ | fault _ _ | exhausted =>
      rw [climbed] at evaluated
      cases evaluated
  | fault _ _ | exhausted =>
    rw [expression, outcome] at evaluated
    cases evaluated

end Loops

/-! ## The failure of a rule is its own, or it inherits -/

/-- The failure of an alternation has its place from the last alternative, and its kinds from all. -/
theorem inherits_of_alternation {budget : Nat} {id : RuleId} {rule : Rule} {start next : Nat}
    {failure : Failure} (found : setting.store.rules[id]? = some rule)
    (kind : rule.kind = .alternation)
    (evaluated : alternation (setting.evaluateWithin budget) start rule.children .empty none =
      .failed failure next) :
    Inherits setting (setting.evaluateWithin budget) (id, start) failure := by
  have refused := alternation_failed evaluated
  have expects := alternation_failed_expects evaluated
  have enters {alternative : RuleId} (mem : alternative ∈ rule.children) :
      Enters setting (id, start) (alternative, start) := by
    obtain ⟨earlier, later, split⟩ := List.append_of_mem mem
    refine .alternative found kind split fun other before => fails_of_refused (refused other ?_)
    rw [split]
    exact List.mem_append_left _ before
  constructor
  · obtain ⟨own, position, token, ⟨-, none⟩ | ⟨alternative, isLast, behind, failed⟩⟩ :=
      alternation_failed_last evaluated
    · exact nomatch none
    · have mem := List.mem_of_getLast? isLast
      refine ⟨(alternative, start), own, behind, enters mem, failed, position, token, ?_⟩
      exact fun kind expected => (expects kind).mpr (.inr ⟨alternative, mem, own, behind, failed, expected⟩)
  · intro kind expected
    rcases (expects kind).mp expected with none | ⟨alternative, mem, own, behind, failed, expected⟩
    · exact absurd none (StringSet.not_mem_empty kind)
    · exact ⟨(alternative, start), own, behind, enters mem, failed, expected⟩

/-- A terminal fails by itself. Any other rule that fails inherits from rules that it enters. -/
theorem evaluateRule_failed {budget : Nat} {id : RuleId} {rule : Rule} {start next : Nat}
    {failure : Failure} (found : setting.store.rules[id]? = some rule)
    (evaluated : setting.evaluateRule (setting.evaluateWithin budget) budget rule start =
      .failed failure next) :
    (Rejects setting (id, start) rule ∧
        failure = ⟨start, setting.buffer.peek start, rule.kinds⟩) ∨
      Inherits setting (setting.evaluateWithin budget) (id, start) failure := by
  revert evaluated
  apply evaluateRule_cases (P := fun outcome => outcome = .failed failure next →
    (Rejects setting (id, start) rule ∧
        failure = ⟨start, setting.buffer.peek start, rule.kinds⟩) ∨
      Inherits setting (setting.evaluateWithin budget) (id, start) failure)
  case terminal =>
    intro kind evaluated
    exact .inl ⟨⟨found, kind, terminal_failed evaluated⟩, terminal_failed_eq evaluated⟩
  case sequence =>
    intro kind evaluated
    obtain ⟨_, _, _, _, passed, failed⟩ := sequence_failed evaluated
    exact .inr (.of_entered (.component found kind (passed.mono matches_of_took)) failed)
  case alternation =>
    intro kind evaluated
    exact .inr (inherits_of_alternation found kind evaluated)
  case optional =>
    intro _ _ _ _ evaluated
    exact absurd evaluated optional_not_failed
  case repetition =>
    intro _ _ _ _ evaluated
    exact absurd evaluated repetition_not_failed
  case capture =>
    intro _ _ kind children evaluated
    exact .inr (.of_entered (.capture found kind children) evaluated)
  case expression =>
    intro operand _ table kind table? children evaluated
    rcases expression_failed evaluated with
      ⟨_, failed⟩ | ⟨_, _, _, _, _, outcome, path, follows, failed⟩
    · exact .inr (.of_entered (.operand found kind table? children) failed)
    · have weaker : setting.Operates table (Took (setting.evaluateWithin budget) operand) ≤
          setting.Operates table (setting.Matches operand) :=
        fun _ _ step => ⟨step.1, matches_of_took _ _ _ step.2⟩
      obtain ⟨_, chain⟩ := exists_chain_of_operates (ReflTransGen.mono weaker _ _ path)
      have matched := gives_of_evaluateWithin outcome nofun
      exact .inr (.of_entered (.laterOperand found kind table? children matched chain follows) failed)
  case lacking =>
    intro _ _ evaluated
    exact nomatch evaluated

/-! ## Failures lead back to terminals -/

/-- What holds of the failures of terminals, and of a failure that inherits from failures of which it holds,
holds of every failure. -/
theorem Gives.failed_induction {motive : RuleId × Nat → Failure → Prop}
    (terminal : ∀ {reached attempt}, Rejects setting reached attempt →
      motive reached ⟨reached.2, setting.buffer.peek reached.2, attempt.kinds⟩)
    (inherited : ∀ {budget entering failure},
      Inherits setting (setting.evaluateWithin budget) entering failure →
      (∀ {entered own behind},
        setting.evaluateWithin budget entered.1 entered.2 = .failed own behind → motive entered own) →
      motive entering failure)
    {id : RuleId} {start next : Nat} {failure : Failure}
    (gives : setting.Gives id start (.failed failure next)) : motive (id, start) failure := by
  obtain ⟨ended, budget, evaluated⟩ := gives
  clear ended
  induction budget generalizing id start failure next with
  | zero => cases evaluated
  | succ budget ih =>
    simp only [evaluateWithin] at evaluated
    split at evaluated
    next => cases evaluated
    next rule found =>
      rcases evaluateRule_failed found evaluated with ⟨rejects, rfl⟩ | inherits
      · exact terminal rejects
      · exact inherited inherits fun failed => ih failed

/-- The kinds that a failure expects are kinds of terminals that were tried and did not match. -/
theorem Gives.exists_rejects_of_expected {id : RuleId} {start next : Nat} {failure : Failure}
    (gives : setting.Gives id start (.failed failure next)) {kind : TokenKind}
    (expected : kind ∈ failure.expected) :
    ∃ reached attempt, ReflTransGen (Enters setting) (id, start) reached ∧
      Rejects setting reached attempt ∧ kind ∈ attempt.kinds := by
  revert expected
  refine gives.failed_induction (motive := fun entering failure => kind ∈ failure.expected →
    ∃ reached attempt, ReflTransGen (Enters setting) entering reached ∧
      Rejects setting reached attempt ∧ kind ∈ attempt.kinds) ?_ ?_
  · intro reached attempt rejects expected
    exact ⟨reached, attempt, .refl, rejects, expected⟩
  · intro _ _ _ inherits each expected
    obtain ⟨entered, own, behind, enters, failed, expected⟩ := inherits.kinds kind expected
    obtain ⟨reached, attempt, path, rejects, mem⟩ := each failed expected
    exact ⟨reached, attempt, .head enters path, rejects, mem⟩

/-- At the place of a failure a terminal was tried that did not take the token there, and all its kinds
are expected. -/
theorem Gives.exists_rejects {id : RuleId} {start next : Nat} {failure : Failure}
    (gives : setting.Gives id start (.failed failure next)) :
    ∃ reached attempt, ReflTransGen (Enters setting) (id, start) reached ∧
      Rejects setting reached attempt ∧
        failure.Covers ⟨reached.2, setting.buffer.peek reached.2, attempt.kinds⟩ := by
  refine gives.failed_induction (motive := fun entering failure =>
    ∃ reached attempt, ReflTransGen (Enters setting) entering reached ∧
      Rejects setting reached attempt ∧
        failure.Covers ⟨reached.2, setting.buffer.peek reached.2, attempt.kinds⟩) ?_ ?_
  · intro reached attempt rejects
    exact ⟨reached, attempt, .refl, rejects, .refl _⟩
  · intro _ _ _ inherits each
    obtain ⟨entered, own, behind, enters, failed, covers⟩ := inherits.place
    obtain ⟨reached, attempt, path, rejects, place⟩ := each failed
    exact ⟨reached, attempt, .head enters path, rejects, covers.trans place⟩

end Setting

end Grammatic
