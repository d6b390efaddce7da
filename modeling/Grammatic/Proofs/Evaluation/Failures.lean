import Grammatic.Proofs.Evaluation.Steps
import Grammatic.Proofs.Evaluation.Units

/-!
# Where failures point

A failure names the token at which the last terminal that was tried did not match. A sequence that has
taken some components fails behind them, so the failure of an alternation can point at a token that lies
ahead of where the alternation starts, or at its first token, as its last alternative has it. The kinds
that it expects are those of all alternatives.

For a rule that tries a terminal last, before it has taken anything, the failure points at the first
token (`Gives.lastAttempt`). Which terminal that is can be read off the rules (`Store.lastAttempt?`).
-/

namespace Grammatic

variable {α ε : Type}

/-- The terminal that a rule tries last before it fails, if it can be told from the rules that it has taken
nothing by then. The number bounds the depth of the search. -/
def Store.lastAttempt? (store : Store) : Nat → RuleId → Option Rule
  | 0, _ => none
  | depth + 1, id =>
    match store.rules[id]? with
    | none => none
    | some rule =>
      match rule.kind, rule.children with
      | .terminal, _ => some rule
      | .sequence, [sub] | .capture, sub :: _ => store.lastAttempt? depth sub
      | .alternation, alternatives => alternatives.getLast?.bind (store.lastAttempt? depth)
      | _, _ => none

namespace Setting

variable {setting : Setting α ε}

/-! ## The failures of the loops -/

section Loops

variable {part : RuleId → Nat → Outcome α ε} {rule : Rule} {outer start position next : Nat}
  {failure : Failure}

theorem terminal_failed_eq (evaluated : setting.terminal rule start = .failed failure next) :
    failure = ⟨start, setting.buffer.peek start, rule.kinds⟩ := by
  have refused := terminal_failed evaluated
  simp only [terminal, refused, Bool.false_eq_true, if_false] at evaluated
  exact (Outcome.failed.inj evaluated).1.symm

/-- The failure of a sequence of one component is that of the component. -/
theorem sequence_single_failed {component : RuleId} {captured : List α}
    (evaluated : setting.sequence part rule outer [component] captured position =
      .failed failure next) : ∃ behind, part component position = .failed failure behind := by
  obtain ⟨_, _, _, behind, passed, failed⟩ := sequence_failed evaluated
  cases passed with
  | none => exact ⟨behind, failed⟩
  | component _ passed => cases passed

/-- The failure of an alternation expects what those of its alternatives do. -/
theorem alternation_failed_expects {alternatives : List RuleId} {expected : StringSet}
    {last : Option Failure}
    (evaluated : alternation part start alternatives expected last = .failed failure next)
    (kind : TokenKind) :
    kind ∈ failure.expected ↔ kind ∈ expected ∨ ∃ alternative ∈ alternatives, ∃ own behind,
      part alternative start = .failed own behind ∧ kind ∈ own.expected := by
  induction alternatives generalizing expected last with
  | nil =>
    cases last with
    | none => cases evaluated
    | some last =>
      obtain ⟨rfl, -⟩ := Outcome.failed.inj evaluated
      simp
  | cons alternative rest ih =>
    simp only [alternation] at evaluated
    cases outcome : part alternative start with
    | failed own behind =>
      rw [outcome] at evaluated
      rw [ih evaluated, StringSet.mem_union]
      simp [outcome, or_assoc]
    | matched _ _ | fault _ _ | exhausted =>
      rw [outcome] at evaluated
      cases evaluated

/-- The failure of an alternation points where that of its last alternative does. -/
theorem alternation_failed_last {alternatives : List RuleId} {expected : StringSet}
    {last : Option Failure}
    (evaluated : alternation part start alternatives expected last = .failed failure next) :
    ∃ own, failure.position = own.position ∧ failure.token = own.token ∧
      ((alternatives = [] ∧ last = some own) ∨ ∃ alternative ∈ alternatives.getLast?, ∃ behind,
        part alternative start = .failed own behind) := by
  induction alternatives generalizing expected last with
  | nil =>
    cases last with
    | none => cases evaluated
    | some last =>
      obtain ⟨rfl, -⟩ := Outcome.failed.inj evaluated
      exact ⟨last, rfl, rfl, .inl ⟨rfl, rfl⟩⟩
  | cons alternative rest ih =>
    simp only [alternation] at evaluated
    cases outcome : part alternative start with
    | failed first behind =>
      rw [outcome] at evaluated
      obtain ⟨own, position, token, source⟩ := ih evaluated
      refine ⟨own, position, token, .inr ?_⟩
      rcases source with ⟨rfl, isLast⟩ | ⟨later, isLast, failed⟩
      · obtain rfl := Option.some.inj isLast
        exact ⟨alternative, rfl, behind, outcome⟩
      · refine ⟨later, ?_, failed⟩
        rw [Option.mem_def] at isLast ⊢
        rw [List.getLast?_cons, isLast]
        rfl
    | matched _ _ | fault _ _ | exhausted =>
      rw [outcome] at evaluated
      cases evaluated

end Loops

/-! ## The last attempt -/

/-- Where a rule that tries a terminal last fails, the failure points at the first token, and the terminal's
kinds are expected. -/
theorem Gives.lastAttempt {depth : Nat} {id : RuleId} {attempt : Rule} {start next : Nat}
    {failure : Failure} (gives : setting.Gives id start (.failed failure next))
    (attempted : setting.store.lastAttempt? depth id = some attempt) :
    failure.position = start ∧ failure.token = setting.buffer.peek start ∧
      ∀ kind ∈ attempt.kinds, kind ∈ failure.expected := by
  induction depth generalizing id failure next with
  | zero => exact nomatch attempted
  | succ depth ih =>
    unfold Store.lastAttempt? at attempted
    split at attempted
    next => exact nomatch attempted
    next rule found =>
      obtain ⟨budget, evaluated⟩ := gives.exists_evaluateRule found
      have ofPart {sub : RuleId} {own : Failure} {behind : Nat}
          (failed : setting.evaluateWithin budget sub start = .failed own behind) :=
        ih (gives_of_evaluateWithin failed nofun)
      split at attempted
      next kind =>
        obtain rfl := Option.some.inj attempted
        rw [evaluateRule_terminal kind] at evaluated
        obtain rfl := terminal_failed_eq evaluated
        exact ⟨rfl, rfl, fun _ mem => mem⟩
      next sub kind children =>
        rw [evaluateRule_sequence kind, children] at evaluated
        obtain ⟨_, failed⟩ := sequence_single_failed evaluated
        exact ofPart failed attempted
      next sub rest kind children =>
        rw [evaluateRule_capture kind children] at evaluated
        exact ofPart evaluated attempted
      next alternatives kind =>
        rw [evaluateRule_alternation kind] at evaluated
        obtain ⟨alternative, isLast, attempted⟩ := Option.bind_eq_some_iff.mp attempted
        obtain ⟨own, position, token, ⟨none, -⟩ | ⟨other, isLast', behind, failed⟩⟩ :=
          alternation_failed_last evaluated
        · rw [none] at isLast
          exact nomatch isLast
        · obtain rfl := Option.some.inj (isLast.symm.trans isLast')
          obtain ⟨position', token', expected⟩ := ofPart failed attempted
          refine ⟨position.trans position', token.trans token', fun kind mem => ?_⟩
          exact (alternation_failed_expects evaluated kind).mpr
            (.inr ⟨alternative, List.mem_of_getLast? isLast, own, behind, failed, expected kind mem⟩)
      next => exact nomatch attempted

/-! ## The errors of a series -/

/-- If a rule always goes forward, then so do its units, and the only errors of a series of them are the
failures of the rule behind the last unit, where the series stays. -/
theorem Course.reports {root : RuleId} {position : Nat} {units : Units α ε}
    (forward : ∀ {start value next}, setting.Gives root start (.matched value next) → start < next)
    (course : Course setting root position units) :
    Units.EachFrom (fun start _ next => start < next) position units.values ∧
      ∀ error, units.stop = .error error → units.position = units.behind position ∧
        ∃ failure next, error = .ofFailure setting.buffer failure ∧
          setting.Gives root (units.behind position) (.failed failure next) := by
  induction course with
  | done | fault | exhausted => exact ⟨trivial, fun _ stop => nomatch stop⟩
  | @idle position _ _ evaluated =>
    exact absurd (forward (gives_of_evaluate evaluated nofun)) (Nat.lt_irrefl position)
  | @failed position next failure _ evaluated =>
    have gives := gives_of_evaluate evaluated nofun
    refine ⟨trivial, fun error stop => ⟨gives.keeps, failure, next, ?_, gives⟩⟩
    exact (Stop.error.inj stop).symm
  | unit _ evaluated _ _ ih =>
    obtain ⟨goes, reports⟩ := ih
    rw [Units.behind_cons]
    exact ⟨⟨forward (gives_of_evaluate evaluated nofun), goes⟩, reports⟩

end Setting

end Grammatic
