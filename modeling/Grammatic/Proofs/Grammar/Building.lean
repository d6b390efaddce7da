import Grammatic.Grammar.Parser

/-!
# Steps that read, and steps that fail as a whole

A step in the building of grammars either reads the store only, or it changes the store once, when all
its checks are done. So a step that fails leaves the store as it was: it is `Atomic`. This is read off
the form of a step, since checks that only read can stand before an atomic step (`Reads.bind_atomic`).
-/

namespace Grammatic.Building

variable {α β : Type}

/-- A step that never changes the store. -/
def Reads (step : Building α) : Prop :=
  ∀ store, (∃ value, step.run store = .ok value store) ∨ ∃ e, step.run store = .error e store

/-- A step that changes nothing if it fails. -/
def Atomic (step : Building α) : Prop :=
  ∀ store e after, step.run store = .error e after → after = store

/-- What has to have come out of the parts of a step that has succeeded. -/
theorem exists_of_bind_ok {first : Building α} {next : α → Building β} {store after : Store} {value : β}
    (run : (first >>= next).run store = .ok value after) :
    ∃ result between, first.run store = .ok result between ∧
      (next result).run between = .ok value after := by
  rw [EStateM.run_bind] at run
  cases ran : first.run store with
  | ok result between =>
    rw [ran] at run
    exact ⟨result, between, rfl, run⟩
  | error e between =>
    rw [ran] at run
    exact nomatch run

theorem reads_pure (value : α) : Reads (pure value) := fun _ => .inl ⟨value, rfl⟩

theorem reads_throw (e : DefinitionError) : Reads (throw e : Building α) := fun _ => .inr ⟨e, rfl⟩

theorem reads_get : Reads get := fun store => .inl ⟨store, rfl⟩

theorem Reads.bind {first : Building α} {next : α → Building β} (reads : Reads first)
    (rest : ∀ value, Reads (next value)) : Reads (first >>= next) := by
  intro store
  rw [EStateM.run_bind]
  rcases reads store with ⟨value, ran⟩ | ⟨e, ran⟩
  · rw [ran]
    exact rest value store
  · rw [ran]
    exact .inr ⟨e, rfl⟩

theorem reads_check (result : Except DefinitionError α) : Reads (check result) := by
  cases result with
  | ok value => exact reads_pure value
  | error e => exact reads_throw e

theorem reads_ruleOf (argument : Argument) : Reads (ruleOf argument) := by
  cases argument with
  | other value => exact reads_throw _
  | item id =>
    refine reads_get.bind fun store => ?_
    split
    next => exact reads_pure id
    next => exact reads_throw _

theorem reads_tableOf (argument : Argument) : Reads (tableOf argument) := by
  cases argument with
  | other value => exact reads_throw _
  | item id =>
    refine reads_get.bind fun store => ?_
    split
    next => exact reads_pure id
    next => exact reads_throw _

theorem Reads.mapM {step : α → Building β} (reads : ∀ value, Reads (step value)) (values : List α) :
    Reads (values.mapM step) := by
  induction values with
  | nil => exact reads_pure []
  | cons value rest ih =>
    rw [List.mapM_cons]
    exact (reads value).bind fun _ => ih.bind fun _ => reads_pure _

theorem Reads.atomic {step : Building α} (reads : Reads step) : Atomic step := by
  intro store e after run
  rcases reads store with ⟨value, ran⟩ | ⟨e', ran⟩
  · exact nomatch ran.symm.trans run
  · obtain ⟨_, same⟩ := EStateM.Result.error.inj (ran.symm.trans run)
    exact same.symm

/-- Checks that only read can stand before a step that fails as a whole. -/
theorem Reads.bind_atomic {first : Building α} {next : α → Building β} (reads : Reads first)
    (atomic : ∀ value, Atomic (next value)) : Atomic (first >>= next) := by
  intro store e after run
  rw [EStateM.run_bind] at run
  rcases reads store with ⟨value, ran⟩ | ⟨e', ran⟩
  · rw [ran] at run
    exact atomic value store e after run
  · rw [ran] at run
    obtain ⟨_, same⟩ := EStateM.Result.error.inj run
    exact same.symm

/-- A check that has succeeded. -/
theorem eq_ok_of_check {result : Except DefinitionError α} {store after : Store} {value : α}
    (run : (check result).run store = .ok value after) : result = .ok value ∧ after = store := by
  cases result with
  | ok other =>
    obtain ⟨same, same'⟩ := EStateM.Result.ok.inj run
    exact ⟨congrArg _ same, same'.symm⟩
  | error e => exact nomatch run

/-- A rule that was found is in the store. -/
theorem eq_item_of_ruleOf {argument : Argument} {store after : Store} {id : RuleId}
    (run : (ruleOf argument).run store = .ok id after) :
    argument = .item id ∧ id < store.rules.size ∧ after = store := by
  cases argument with
  | other value => exact nomatch run
  | item other =>
    obtain ⟨_, _, got, run⟩ := exists_of_bind_ok run
    obtain ⟨rfl, rfl⟩ := EStateM.Result.ok.inj got
    split at run
    next valid =>
      obtain ⟨rfl, same⟩ := EStateM.Result.ok.inj run
      exact ⟨rfl, valid, same.symm⟩
    next => exact nomatch run

/-- A rule goes into the store if what it refers to is there. -/
theorem run_addRule {rule : Rule} {store : Store} (within : rule.within store.rules.size store.tables.size) :
    (addRule rule).run store = .ok store.rules.size (store.pushRule rule within) :=
  dif_pos within

/-- A component is refused, or it goes to a sequence that is not frozen, and that can hold its value. -/
theorem run_append_cases (parent : RuleId) (component : Rule) (store : Store) :
    (∃ e, (append parent component).run store = .error e store) ∨
      ∃ rule, store.rules[parent]? = some rule ∧ rule.frozen = false ∧ rule.kind = .sequence ∧
        ¬ (component.captures = true ∧ rule.tag = none ∧ store.captureCount rule ≠ 0) ∧
          ∃ (within : component.within store.rules.size store.tables.size)
            (valid : store.rules.size < (store.pushRule component within).rules.size),
            (append parent component).run store =
              .ok () ((store.pushRule component within).addChild parent store.rules.size valid) := by
  simp only [append, EStateM.run]
  cases store.rules[parent]? with
  | none => exact .inl ⟨_, rfl⟩
  | some rule =>
    simp only
    split
    next => exact .inl ⟨_, rfl⟩
    next notFrozen =>
      split
      next => exact .inl ⟨_, rfl⟩
      next isSequence =>
        split
        next => exact .inl ⟨_, rfl⟩
        next single =>
          split
          next within =>
            exact .inr ⟨rule, rfl, Bool.eq_false_iff.mpr notFrozen,
              Decidable.not_not.mp isSequence, single, within, by simp [Store.pushRule], rfl⟩
          next => exact .inl ⟨_, rfl⟩

/-- A compilation that is refused changes nothing. -/
theorem atomic_compile (id : GrammarId) (root : Argument) (lexer : Option Lexer) :
    Atomic (compile id root lexer) := by
  refine (reads_ruleOf root).bind_atomic fun root => reads_get.bind_atomic fun store => ?_
  cases store.grammars[id]? with
  | none => exact (reads_throw _).atomic
  | some grammar =>
    simp only
    split
    next =>
      intro store e after run
      exact (EStateM.Result.error.inj run).2.symm
    next =>
      refine (reads_check _).bind_atomic fun _ => ?_
      intro store e after run
      exact nomatch run

end Grammatic.Building
