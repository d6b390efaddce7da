import Grammatic.Evaluation.Basic

/-!
# Budgets of evaluation

A budget bounds how deep an evaluation nests and how often its loops go round. It never decides what
comes out: an evaluation that ends within one budget ends in the same way within any larger one
(`evaluateWithin_mono`). So "the evaluation gives an outcome" is said without a budget, as `Gives`,
and an evaluation gives one outcome at most (`Gives.unique`).

Every loop takes the evaluation of its parts as an argument, so the induction is on the budget once,
and each loop has its own lemma for two evaluations of which one `Agrees` with the other.
-/

namespace Grammatic

variable {α ε : Type}

/-- `more` gives the outcomes of `part` wherever `part` has not run out of its budget. -/
def Agrees (more part : Nat → Outcome α ε) : Prop :=
  ∀ position, part position ≠ .exhausted → more position = part position

namespace Setting

variable {setting : Setting α ε}

section Loops

variable {more part : RuleId → Nat → Outcome α ε} {moreSub sub : Nat → Outcome α ε}

theorem sequence_agrees (agree : ∀ id, Agrees (more id) (part id)) (rule : Rule) (start : Nat)
    (components : List RuleId) (captured : List α) :
    Agrees (setting.sequence more rule start components captured)
      (setting.sequence part rule start components captured) := by
  induction components generalizing captured with
  | nil => intro position _; rfl
  | cons component rest ih =>
    intro position ended
    simp only [sequence] at ended ⊢
    have reached : part component position ≠ .exhausted := fun h => ended (by rw [h])
    rw [agree component position reached]
    cases outcome : part component position with
    | matched value next =>
      rw [outcome] at ended
      exact ih _ next ended
    | failed _ _ | fault _ _ | exhausted => rfl

theorem alternation_agrees (agree : ∀ id, Agrees (more id) (part id)) (start : Nat)
    (alternatives : List RuleId) (expected : StringSet) (last : Option Failure)
    (ended : alternation part start alternatives expected last ≠ .exhausted) :
    alternation more start alternatives expected last =
      alternation part start alternatives expected last := by
  induction alternatives generalizing expected last with
  | nil => cases last <;> rfl
  | cons alternative rest ih =>
    simp only [alternation] at ended ⊢
    have reached : part alternative start ≠ .exhausted := fun h => ended (by rw [h])
    rw [agree alternative start reached]
    cases outcome : part alternative start with
    | failed failure next =>
      rw [outcome] at ended
      exact ih _ _ ended
    | matched _ _ | fault _ _ | exhausted => rfl

theorem optional_agrees (agree : Agrees moreSub sub) :
    Agrees (setting.optional moreSub) (setting.optional sub) := by
  intro start ended
  unfold optional at ended ⊢
  have reached : sub start ≠ .exhausted := fun h => ended (by rw [h])
  rw [agree start reached]

theorem repetition_agrees (agree : Agrees moreSub sub) {budget larger : Nat}
    (le : budget ≤ larger) (elements : List α) :
    Agrees (setting.repetition moreSub larger elements)
      (setting.repetition sub budget elements) := by
  induction budget generalizing larger elements with
  | zero => intro start ended; exact absurd rfl ended
  | succ budget ih =>
    obtain ⟨larger, rfl⟩ := Nat.exists_eq_add_of_le' (Nat.lt_of_lt_of_le (Nat.succ_pos _) le)
    intro start ended
    simp only [repetition] at ended ⊢
    have reached : sub start ≠ .exhausted := fun h => ended (by rw [h])
    rw [agree start reached]
    cases outcome : sub start with
    | matched value next =>
      simp only [outcome] at ended ⊢
      by_cases same : next = start
      · rw [if_pos same, if_pos same]
      · rw [if_neg same] at ended
        rw [if_neg same, if_neg same]
        exact ih (Nat.le_of_succ_le_succ le) _ next ended
    | failed _ _ | fault _ _ | exhausted => rfl

theorem climb_agrees (agree : Agrees moreSub sub) (tag : Option NodeTag) (table : OperatorTable)
    {budget larger : Nat} (le : budget ≤ larger) (limit : Option Int) (left : α) :
    Agrees (setting.climb moreSub tag table larger limit left)
      (setting.climb sub tag table budget limit left) := by
  induction budget generalizing larger limit left with
  | zero => intro position ended; exact absurd rfl ended
  | succ budget ih =>
    obtain ⟨larger, rfl⟩ := Nat.exists_eq_add_of_le' (Nat.lt_of_lt_of_le (Nat.succ_pos _) le)
    have le := Nat.le_of_succ_le_succ le
    intro position ended
    simp only [climb] at ended ⊢
    cases found : table.find? (setting.buffer.peek position).kind with
    | none => rfl
    | some operator =>
      simp only [found] at ended ⊢
      split
      next => rfl
      next within =>
        rw [if_neg within] at ended
        have reached : sub (setting.buffer.advance position) ≠ .exhausted :=
          fun h => ended (by rw [h])
        rw [agree _ reached]
        cases first : sub (setting.buffer.advance position) with
        | matched value next =>
          simp only [first] at ended ⊢
          have nested : setting.climb sub tag table budget (some operator.rightLimit) value next ≠
              .exhausted := fun h => ended (by rw [h])
          rw [ih le _ value next nested]
          cases right : setting.climb sub tag table budget (some operator.rightLimit) value next with
          | matched rightValue behind =>
            simp only [right] at ended ⊢
            split
            next folded made =>
              simp only [made] at ended
              exact ih le limit folded behind ended
            next => rfl
          | failed _ _ | fault _ _ | exhausted => rfl
        | failed _ _ | fault _ _ | exhausted => rfl

theorem expression_agrees (agree : Agrees moreSub sub) (tag : Option NodeTag)
    (table : OperatorTable) {budget larger : Nat} (le : budget ≤ larger) :
    Agrees (setting.expression moreSub tag table larger)
      (setting.expression sub tag table budget) := by
  intro start ended
  simp only [expression] at ended ⊢
  have reached : sub start ≠ .exhausted := fun h => ended (by rw [h])
  rw [agree start reached]
  cases first : sub start with
  | matched value next =>
    simp only [first] at ended ⊢
    have climbed : setting.climb sub tag table budget none value next ≠ .exhausted :=
      fun h => ended (by rw [h])
    rw [climb_agrees agree tag table le none value next climbed]
  | failed _ _ | fault _ _ | exhausted => rfl

theorem evaluateRule_agrees (agree : ∀ id, Agrees (more id) (part id)) {budget larger : Nat}
    (le : budget ≤ larger) (rule : Rule) :
    Agrees (setting.evaluateRule more larger rule) (setting.evaluateRule part budget rule) := by
  intro start
  apply evaluateRule_cases (P := fun outcome => outcome ≠ .exhausted →
    setting.evaluateRule more larger rule start = outcome)
  case terminal =>
    intro kind _
    rw [evaluateRule_terminal kind]
  case sequence =>
    intro kind ended
    rw [evaluateRule_sequence kind]
    exact sequence_agrees agree rule start _ [] start ended
  case alternation =>
    intro kind ended
    rw [evaluateRule_alternation kind]
    exact alternation_agrees agree start _ _ _ ended
  case optional =>
    intro sub rest kind children ended
    rw [evaluateRule_optional kind children]
    exact optional_agrees (agree sub) start ended
  case repetition =>
    intro sub rest kind children ended
    rw [evaluateRule_repetition kind children]
    exact repetition_agrees (agree sub) le [] start ended
  case capture =>
    intro sub rest kind children ended
    rw [evaluateRule_capture kind children]
    exact agree sub start ended
  case expression =>
    intro operand rest table kind table? children ended
    rw [evaluateRule_expression kind table? children]
    exact expression_agrees (agree operand) _ _ le start ended
  case lacking =>
    intro cause stuck _
    exact stuck more larger

end Loops

/-- An evaluation that ends within a budget ends in the same way within a larger one. -/
theorem evaluateWithin_mono {budget larger : Nat} (le : budget ≤ larger) (id : RuleId) :
    Agrees (setting.evaluateWithin larger id) (setting.evaluateWithin budget id) := by
  induction budget generalizing larger id with
  | zero => intro start ended; exact absurd rfl ended
  | succ budget ih =>
    obtain ⟨larger, rfl⟩ := Nat.exists_eq_add_of_le' (Nat.lt_of_lt_of_le (Nat.succ_pos _) le)
    have le := Nat.le_of_succ_le_succ le
    intro start ended
    simp only [evaluateWithin] at ended ⊢
    cases found : setting.store.rules[id]? with
    | none => rfl
    | some rule =>
      simp only [found] at ended ⊢
      exact evaluateRule_agrees (fun id => ih le id) le rule start ended

/-- The evaluation of a rule at a position ends with an outcome, within some budget. -/
def Gives (setting : Setting α ε) (id : RuleId) (start : Nat) (outcome : Outcome α ε) : Prop :=
  outcome ≠ .exhausted ∧ ∃ budget, setting.evaluateWithin budget id start = outcome

/-- The evaluation of a rule at a position ends. -/
def Ends (setting : Setting α ε) (id : RuleId) (start : Nat) : Prop :=
  ∃ outcome, setting.Gives id start outcome

/-- The evaluation of a rule at a position ends in a match, with a position behind it. -/
def Matches (setting : Setting α ε) (id : RuleId) (start next : Nat) : Prop :=
  ∃ value, setting.Gives id start (.matched value next)

/-- The evaluation of a rule at a position ends in a failure. -/
def Fails (setting : Setting α ε) (id : RuleId) (start : Nat) : Prop :=
  ∃ failure position, setting.Gives id start (.failed failure position)

theorem gives_of_evaluateWithin {budget : Nat} {id : RuleId} {start : Nat}
    {outcome : Outcome α ε} (evaluated : setting.evaluateWithin budget id start = outcome)
    (ended : outcome ≠ .exhausted) : setting.Gives id start outcome :=
  ⟨ended, budget, evaluated⟩

theorem ends_of_evaluateWithin {budget : Nat} {id : RuleId} {start : Nat}
    (ended : setting.evaluateWithin budget id start ≠ .exhausted) : setting.Ends id start :=
  ⟨_, gives_of_evaluateWithin rfl ended⟩

/-- What a rule gives, it gives within any budget that it does not run out of. -/
theorem Gives.eq_of_ne {id : RuleId} {start : Nat} {outcome : Outcome α ε}
    (gives : setting.Gives id start outcome) {budget : Nat}
    (ended : setting.evaluateWithin budget id start ≠ .exhausted) :
    setting.evaluateWithin budget id start = outcome := by
  obtain ⟨notExhausted, other, rfl⟩ := gives
  rcases Nat.le_total budget other with le | le
  · exact (evaluateWithin_mono le id start ended).symm
  · exact evaluateWithin_mono le id start notExhausted

/-- An evaluation gives one outcome at most. -/
theorem Gives.unique {id : RuleId} {start : Nat} {outcome other : Outcome α ε}
    (gives : setting.Gives id start outcome) (gives' : setting.Gives id start other) :
    outcome = other := by
  obtain ⟨budget, evaluated⟩ := gives.2
  have ended : setting.evaluateWithin budget id start ≠ .exhausted := by
    rw [evaluated]; exact gives.1
  exact evaluated.symm.trans (gives'.eq_of_ne ended)

theorem Matches.unique {id : RuleId} {start next next' : Nat}
    (first : setting.Matches id start next) (second : setting.Matches id start next') :
    next = next' := by
  obtain ⟨_, gives⟩ := first
  obtain ⟨_, gives'⟩ := second
  exact (Outcome.matched.inj (gives.unique gives')).2

/-- What matches does not fail. -/
theorem Matches.not_fails {id : RuleId} {start next : Nat} (first : setting.Matches id start next) :
    ¬ setting.Fails id start := by
  rintro ⟨_, _, fails⟩
  obtain ⟨_, gives⟩ := first
  exact nomatch gives.unique fails

/-- Some budget is enough for an evaluation that ends, and so are all larger ones. -/
theorem Gives.eventually {id : RuleId} {start : Nat} {outcome : Outcome α ε}
    (gives : setting.Gives id start outcome) :
    ∃ budget, ∀ larger, budget ≤ larger → setting.evaluateWithin larger id start = outcome := by
  obtain ⟨ended, budget, rfl⟩ := gives
  exact ⟨budget, fun _ le => evaluateWithin_mono le id start ended⟩

/-- The evaluation that runs gives what it ends with. -/
theorem gives_of_evaluate {id : RuleId} {start : Nat} {outcome : Outcome α ε}
    (evaluated : setting.evaluate id start = outcome) (ended : outcome ≠ .exhausted) :
    setting.Gives id start outcome :=
  gives_of_evaluateWithin evaluated ended

end Setting

end Grammatic
