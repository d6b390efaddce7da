import Grammatic.Proofs.Evaluation.Repetition
import Grammatic.Proofs.Evaluation.Values

/-!
# Matches put together

What the parts of a rule give decides what the rule gives: a delimiter matches a token that it accepts, a
sequence the components one behind the other, an optional its sub-rule or nothing, and a repetition what
it lists. These are the converses of what a match says about the parts. Each part has a budget of its own
that is enough for it, so the loops are followed for all budgets from some one on (`gives_of_eventually`).
-/

namespace Grammatic.Setting

variable {α ε : Type} {setting : Setting α ε} {id sub : RuleId} {rule : Rule} {rest : List RuleId}
  {start next : Nat}

/-- What comes of a rule within all budgets from some one on, it gives. -/
theorem gives_of_eventually {outcome : Outcome α ε} (found : setting.store.rules[id]? = some rule)
    (ended : outcome ≠ .exhausted)
    (eventually : ∃ least, ∀ budget, least ≤ budget →
      setting.evaluateRule (setting.evaluateWithin budget) budget rule start = outcome) :
    setting.Gives id start outcome := by
  obtain ⟨least, eventually⟩ := eventually
  refine ⟨ended, least + 1, ?_⟩
  simp only [evaluateWithin, found]
  exact eventually least (Nat.le_refl least)

/-- A delimiter matches a token that it accepts. -/
theorem gives_delimiter (found : setting.store.rules[id]? = some rule) (kind : rule.kind = .terminal)
    (isLiteral : rule.literal = none)
    (accepted : setting.accepts rule (setting.buffer.peek start) = true) :
    setting.Gives id start (.matched setting.factory.absent (setting.buffer.advance start)) := by
  refine gives_of_eventually found nofun ⟨0, fun budget _ => ?_⟩
  simp only [evaluateRule_terminal kind, terminal, accepted, isLiteral, if_true]

/-! ## Sequences -/

/-- The components that are collected are passed, and then the sequence is closed. -/
theorem sequence_of_collects (rule : Rule) (outer : Nat) {components : List RuleId} {values : List α}
    (collects : Collects setting (fun id start value next => setting.Gives id start (.matched value next))
      components start values next) :
    ∃ least, ∀ budget, least ≤ budget → ∀ captured,
      setting.sequence (setting.evaluateWithin budget) rule outer components captured start =
        setting.closeSequence rule (values.reverse ++ captured) next := by
  induction collects with
  | none => exact ⟨0, fun _ _ _ => rfl⟩
  | captured captures gives _ ih =>
    obtain ⟨leastFirst, first⟩ := gives.eventually
    obtain ⟨least, behind⟩ := ih
    refine ⟨max leastFirst least, fun budget le captured => ?_⟩
    rw [sequence, first budget (by omega)]
    simp only [captures, if_true]
    rw [behind budget (by omega), List.reverse_cons, List.append_assoc, List.singleton_append]
  | passed captures gives _ ih =>
    obtain ⟨leastFirst, first⟩ := gives.eventually
    obtain ⟨least, behind⟩ := ih
    refine ⟨max leastFirst least, fun budget le captured => ?_⟩
    rw [sequence, first budget (by omega)]
    simp only [captures, Bool.false_eq_true, if_false]
    exact behind budget (by omega) captured

theorem gives_of_closed {values : List α} {outcome : Outcome α ε}
    (found : setting.store.rules[id]? = some rule) (kind : rule.kind = .sequence)
    (collects : Collects setting (fun id start value next => setting.Gives id start (.matched value next))
      rule.children start values next)
    (closed : setting.closeSequence rule values.reverse next = outcome) (ended : outcome ≠ .exhausted) :
    setting.Gives id start outcome := by
  obtain ⟨least, eventually⟩ := sequence_of_collects rule start collects
  refine gives_of_eventually found ended ⟨least, fun budget le => ?_⟩
  rw [evaluateRule_sequence kind, eventually budget le, List.append_nil, closed]

/-- A tagged sequence makes a node of what it collects. -/
theorem gives_tagged {tag : NodeTag} {values : List α} {value : α}
    (found : setting.store.rules[id]? = some rule) (kind : rule.kind = .sequence)
    (tagged : rule.tag = some tag)
    (collects : Collects setting (fun id start value next => setting.Gives id start (.matched value next))
      rule.children start values next)
    (made : setting.factory.node (some tag) values = .ok value) :
    setting.Gives id start (.matched value next) := by
  refine gives_of_closed found kind collects ?_ nofun
  simp only [closeSequence, tagged, construct, List.reverse_reverse, made]

/-- An untagged sequence gives the first value that it collects. -/
theorem gives_untagged {values : List α} (found : setting.store.rules[id]? = some rule)
    (kind : rule.kind = .sequence) (untagged : rule.tag = none)
    (collects : Collects setting (fun id start value next => setting.Gives id start (.matched value next))
      rule.children start values next) :
    setting.Gives id start (.matched (values.head?.getD setting.factory.absent) next) := by
  refine gives_of_closed found kind collects ?_ nofun
  simp only [closeSequence, untagged, List.reverse_reverse]

/-! ## Options and repetitions -/

/-- A sub-rule at a position, or nothing if it fails there. -/
inductive Attempted (setting : Setting α ε) (sub : RuleId) (start : Nat) : α → Nat → Prop
  | present {value : α} {next : Nat} (gives : setting.Gives sub start (.matched value next)) :
      Attempted setting sub start value next
  | absent (fails : setting.Fails sub start) :
      Attempted setting sub start setting.factory.absent start

theorem Attempted.le {value : α} (attempted : Attempted setting sub start value next) : start ≤ next := by
  cases attempted with
  | present gives =>
    have reaches : setting.buffer.Reaches start next := gives.keeps
    exact reaches.1
  | absent => exact Nat.le_refl start

/-- An optional matches what is attempted. -/
theorem gives_optional {value : α} (found : setting.store.rules[id]? = some rule)
    (kind : rule.kind = .optional) (children : rule.children = sub :: rest)
    (attempted : Attempted setting sub start value next) :
    setting.Gives id start (.matched value next) := by
  cases attempted with
  | present gives =>
    obtain ⟨least, eventually⟩ := gives.eventually
    refine gives_of_eventually found (by simp) ⟨least, fun budget le => ?_⟩
    rw [evaluateRule_optional kind children, Setting.optional, eventually budget le]
  | absent fails =>
    obtain ⟨failure, position, gives⟩ := fails
    obtain ⟨least, eventually⟩ := gives.eventually
    refine gives_of_eventually found (by simp) ⟨least, fun budget le => ?_⟩
    rw [evaluateRule_optional kind children, Setting.optional, eventually budget le]

/-- Where its rule fails, a repetition lists nothing. -/
theorem listed_of_fails (fails : setting.Fails sub start) : Listed setting sub start [] start := by
  obtain ⟨failure, position, gives⟩ := fails
  obtain rfl : position = start := gives.keeps
  exact .failed gives

/-- A repetition goes through the elements that it lists, one round each, and has one round to stop. -/
theorem repetition_of_listed {elements : List (α × Nat)}
    (listed : Listed setting sub start elements next) :
    ∃ least, ∀ budget rounds, least ≤ budget → elements.length < rounds → ∀ earlier,
      setting.repetition (setting.evaluateWithin budget sub) rounds earlier start =
        .matched (setting.factory.list (earlier.reverse ++ elements.map (·.1))) next := by
  induction listed with
  | failed gives =>
    obtain ⟨least, eventually⟩ := gives.eventually
    refine ⟨least, fun budget rounds le less earlier => ?_⟩
    obtain ⟨rounds, rfl⟩ := Nat.exists_eq_add_of_lt less
    rw [repetition, eventually budget le]
    simp
  | idle gives =>
    obtain ⟨least, eventually⟩ := gives.eventually
    refine ⟨least, fun budget rounds le less earlier => ?_⟩
    obtain ⟨rounds, rfl⟩ := Nat.exists_eq_add_of_lt less
    rw [repetition, eventually budget le]
    simp
  | element gives progress _ ih =>
    obtain ⟨leastFirst, first⟩ := gives.eventually
    obtain ⟨least, behind⟩ := ih
    refine ⟨max leastFirst least, fun budget rounds le less earlier => ?_⟩
    obtain ⟨rounds, rfl⟩ := Nat.exists_eq_add_of_lt less
    rw [repetition, first budget (by omega)]
    simp only [if_neg (Nat.ne_of_gt progress)]
    rw [List.length_cons] at less
    rw [behind budget _ (by omega) (by rw [List.length_cons]; omega)]
    simp

/-- A repetition matches with what it lists. -/
theorem gives_repetition {elements : List (α × Nat)} (found : setting.store.rules[id]? = some rule)
    (kind : rule.kind = .repetition) (children : rule.children = sub :: rest)
    (listed : Listed setting sub start elements next) :
    setting.Gives id start (.matched (setting.factory.list (elements.map (·.1))) next) := by
  obtain ⟨least, eventually⟩ := repetition_of_listed listed
  refine gives_of_eventually found nofun ⟨max least (elements.length + 1), fun budget le => ?_⟩
  rw [evaluateRule_repetition kind children, eventually budget budget (by omega) (by omega),
    List.reverse_nil, List.nil_append]

end Grammatic.Setting
