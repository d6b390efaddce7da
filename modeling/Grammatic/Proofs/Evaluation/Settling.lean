import Grammatic.Proofs.Evaluation.Entering

/-!
# Rules that settle

A check, of the store alone, that no rule is entered inside itself at one position. A rule `consumes`
if every match of it takes a token. The left sub-rules of a rule are those that can be entered at its
start: of a sequence, the components up to the first that consumes. A rule settles if every way down
along left sub-rules comes to an end.

Both are searches that a number bounds, so they can be evaluated. They err on one side only. What
settles is on no cycle, since the search from a rule on a cycle would find the rule again with less
of its number left (`not_settles_of_cycle`).
-/

namespace Grammatic

open Relation (ReflTransGen TransGen)

/-! ## The search -/

namespace Store

/-- Whether a rule takes a token whenever it matches, as far as a search of bounded depth can tell. A
terminal that takes the end token takes nothing. -/
def consumes (store : Store) (endKind : TokenKind) : Nat → RuleId → Bool
  | 0, _ => false
  | depth + 1, id =>
    match store.rules[id]? with
    | none => false
    | some rule =>
      match rule.kind with
      | .terminal => !rule.kinds.contains endKind
      | .sequence => rule.children.any (store.consumes endKind depth)
      | .alternation => rule.children.all (store.consumes endKind depth)
      | .optional | .repetition => false
      | .capture | .expression => rule.children.head?.any (store.consumes endKind depth)

/-- The members of a list up to the first that has a property. -/
def upTo (stops : RuleId → Bool) : List RuleId → List RuleId
  | [] => []
  | id :: rest => if stops id then [id] else id :: upTo stops rest

/-- The sub-rules that a rule can enter at its start. -/
def leftChildren (store : Store) (endKind : TokenKind) (rule : Rule) : List RuleId :=
  match rule.kind with
  | .sequence => upTo (store.consumes endKind store.rules.size) rule.children
  | .terminal | .alternation | .optional | .repetition | .capture | .expression => rule.children

/-- Whether every way down along left sub-rules ends within a number of steps. -/
def settles (store : Store) (endKind : TokenKind) : Nat → RuleId → Bool
  | 0, _ => false
  | steps + 1, id =>
    match store.rules[id]? with
    | none => true
    | some rule => (store.leftChildren endKind rule).all (store.settles endKind steps)

/-- Whether all rules of a store settle. -/
def settled (store : Store) (endKind : TokenKind) : Bool :=
  (List.range store.rules.size).all (store.settles endKind store.rules.size)

end Store

namespace Setting

variable {α ε : Type} {setting : Setting α ε}

/-! ## What consumes -/

/-- A sequence goes forward if one of its components does. -/
theorem progress_of_passed {components left : List RuleId} {start position : Nat}
    (passed : Passed setting.Matches components start left position) (all : left = [])
    {component : RuleId} (mem : component ∈ components)
    (forward : ∀ {start next}, setting.Matches component start next → start < next) :
    start < position := by
  induction passed with
  | none =>
    subst all
    exact absurd mem List.not_mem_nil
  | component matched more ih =>
    rcases List.mem_cons.mp mem with rfl | mem
    · exact Nat.lt_of_lt_of_le (forward matched) (reaches_of_passed more).1
    · exact Nat.lt_of_le_of_lt matched.reaches.1 (ih all mem)

theorem reaches_of_operates {operand : RuleId} {table : OperatorTable} {start next : Nat}
    (path : ReflTransGen (setting.Operates table (setting.Matches operand)) start next) :
    setting.buffer.Reaches start next := by
  induction path with
  | refl => exact .refl _ _
  | tail _ step ih => exact (ih.trans (.advance _ _)).trans step.2.reaches

/-- A terminal that does not take the end token goes forward. -/
theorem lt_advance_of_accepts {rule : Rule} {start : Nat}
    (takes : rule.kinds.contains setting.buffer.endKind = false)
    (accepted : setting.accepts rule (setting.buffer.peek start) = true) :
    start < setting.buffer.advance start := by
  have notEnd : (setting.buffer.peek start).kind ≠ setting.buffer.endKind := by
    intro same
    rw [accepts, same, takes] at accepted
    exact nomatch accepted
  rw [TokenBuffer.advance, if_neg notEnd]
  exact Nat.lt_succ_self start

/-- A rule that consumes goes forward when it matches. -/
theorem progress_of_consumes {depth : Nat} {id : RuleId}
    (consumes : setting.store.consumes setting.buffer.endKind depth id = true) {start next : Nat}
    (matched : setting.Matches id start next) : start < next := by
  induction depth generalizing id start next with
  | zero => exact nomatch consumes
  | succ depth ih =>
    simp only [Store.consumes] at consumes
    split at consumes
    next => exact nomatch consumes
    next rule found =>
      cases kind : rule.kind with
      | terminal =>
        rw [kind] at consumes
        obtain ⟨accepted, rfl⟩ := matched.terminal found kind
        exact lt_advance_of_accepts (Bool.not_eq_true' _ |>.mp consumes) accepted
      | sequence =>
        rw [kind] at consumes
        obtain ⟨component, mem, consuming⟩ := List.any_eq_true.mp consumes
        exact progress_of_passed (matched.sequence found kind) rfl mem fun matched =>
          ih consuming matched
      | alternation =>
        rw [kind] at consumes
        obtain ⟨_, alternative, _, split, _, matched⟩ := matched.alternation found kind
        have mem : alternative ∈ rule.children := by
          rw [split]
          exact List.mem_append_right _ List.mem_cons_self
        exact ih (List.all_eq_true.mp consumes alternative mem) matched
      | optional | repetition =>
        rw [kind] at consumes
        exact nomatch consumes
      | capture =>
        rw [kind] at consumes
        cases children : rule.children with
        | nil =>
          rw [children] at consumes
          exact nomatch consumes
        | cons sub rest =>
          rw [children] at consumes
          exact ih consumes (matched.capture found kind children)
      | expression =>
        rw [kind] at consumes
        cases children : rule.children with
        | nil =>
          rw [children] at consumes
          exact nomatch consumes
        | cons operand rest =>
          rw [children] at consumes
          cases table? : setting.store.tableOf? rule with
          | none => exact absurd matched (not_matches_of_no_table found kind table?)
          | some table =>
            obtain ⟨middle, first, path⟩ := matched.expression found kind table? children
            exact Nat.lt_of_lt_of_le (ih consumes first) (reaches_of_operates path).1

/-! ## What settles -/

theorem mem_upTo_of_passed {depth : Nat} {components rest : List RuleId} {component : RuleId}
    {start position : Nat} (passed : Passed setting.Matches components start (component :: rest) position)
    (same : position = start) :
    component ∈ Store.upTo (setting.store.consumes setting.buffer.endKind depth) components := by
  generalize left : component :: rest = remaining at passed
  induction passed with
  | none =>
    subst left
    unfold Store.upTo
    split <;> exact List.mem_cons_self
  | @component first others _ start next position matched more ih =>
    subst left
    have forward := matched.reaches
    have further := reaches_of_passed more
    have stays : next = start := Nat.le_antisymm (same ▸ further.1) forward.1
    unfold Store.upTo
    split
    next consuming => exact absurd (progress_of_consumes consuming matched) (by omega)
    next => exact List.mem_cons_of_mem _ (ih (same.trans stays.symm) rfl)

/-- What is entered at the start of a rule is one of its left sub-rules. -/
theorem Enters.mem_leftChildren {id child : RuleId} {position : Nat}
    (enters : Enters setting (id, position) (child, position)) :
    ∃ rule, setting.store.rules[id]? = some rule ∧
      child ∈ setting.store.leftChildren setting.buffer.endKind rule := by
  generalize entered : (child, position) = target at enters
  cases enters with
  | @component _ _ rule _ _ _ found kind passed =>
    obtain ⟨rfl, rfl⟩ := Prod.mk.inj entered
    refine ⟨rule, found, ?_⟩
    simp only [Store.leftChildren, kind]
    exact mem_upTo_of_passed passed rfl
  | @alternative _ _ rule _ _ _ found kind children _ =>
    obtain ⟨rfl, -⟩ := Prod.mk.inj entered
    refine ⟨rule, found, ?_⟩
    simp only [Store.leftChildren, kind, children]
    exact List.mem_append_right _ List.mem_cons_self
  | @optional _ _ rule _ _ found kind children | @capture _ _ rule _ _ found kind children
  | @element _ _ rule _ _ _ found kind children _ | @operand _ _ rule _ _ _ found kind _ children
  | @laterOperand _ _ rule _ _ _ _ _ _ _ _ found kind _ children =>
    obtain ⟨rfl, -⟩ := Prod.mk.inj entered
    refine ⟨rule, found, ?_⟩
    simp only [Store.leftChildren, kind, children]
    exact List.mem_cons_self

/-- Going down one left sub-rule leaves a step less to settle in. -/
theorem Enters.settles {entering entered : RuleId × Nat} (enters : Enters setting entering entered)
    (same : entered.2 = entering.2) {steps : Nat}
    (settles : setting.store.settles setting.buffer.endKind steps entering.1 = true) :
    ∃ fewer < steps, setting.store.settles setting.buffer.endKind fewer entered.1 = true := by
  obtain ⟨id, position⟩ := entering
  obtain ⟨child, position'⟩ := entered
  obtain rfl : position' = position := same
  obtain ⟨rule, found, mem⟩ := enters.mem_leftChildren
  cases steps with
  | zero => exact nomatch settles
  | succ steps =>
    simp only [Store.settles, found] at settles
    exact ⟨steps, Nat.lt_succ_self steps, List.all_eq_true.mp settles child mem⟩

theorem settles_of_transGen {entering entered : RuleId × Nat}
    (path : TransGen (Enters setting) entering entered) (same : entered.2 = entering.2) {steps : Nat}
    (settles : setting.store.settles setting.buffer.endKind steps entering.1 = true) :
    ∃ fewer < steps, setting.store.settles setting.buffer.endKind fewer entered.1 = true := by
  induction path with
  | single enters => exact enters.settles same settles
  | tail path enters ih =>
    have before := reaches_of_entered path.to_reflTransGen
    have after := enters.reaches
    obtain ⟨fewer, less, settles'⟩ := ih (Nat.le_antisymm (same ▸ after.1) before.1)
    obtain ⟨least, less', settles''⟩ :=
      enters.settles (Nat.le_antisymm (by have := before.1; omega) after.1) settles'
    exact ⟨least, Nat.lt_trans less' less, settles''⟩

/-- A rule that is entered inside itself at one position does not settle. -/
theorem not_settles_of_cycle {reached : RuleId × Nat}
    (cycle : TransGen (Enters setting) reached reached) (steps : Nat) :
    setting.store.settles setting.buffer.endKind steps reached.1 = false := by
  induction steps using Nat.strongRecOn with
  | ind steps ih =>
    cases settles : setting.store.settles setting.buffer.endKind steps reached.1 with
    | false => rfl
    | true =>
      obtain ⟨fewer, less, settles'⟩ := settles_of_transGen cycle rfl settles
      rw [ih fewer less] at settles'
      exact nomatch settles'

/-- In a store of rules that settle, no rule is entered inside itself at one position. -/
theorem acyclic_of_settled (settled : setting.store.settled setting.buffer.endKind = true)
    (reached : RuleId × Nat) : ¬ TransGen (Enters setting) reached reached := by
  intro cycle
  obtain ⟨_, enters, _⟩ := Relation.TransGen.head'_iff.mp cycle
  have mem := enters.mem_childrenOf
  have valid : reached.1 < setting.store.rules.size := by
    by_contra above
    rw [Store.childrenOf, Array.getElem?_eq_none (Nat.le_of_not_lt above)] at mem
    exact absurd mem List.not_mem_nil
  have settles := List.all_eq_true.mp settled reached.1 (List.mem_range.mpr valid)
  rw [not_settles_of_cycle cycle] at settles
  cases settles

end Setting

end Grammatic
