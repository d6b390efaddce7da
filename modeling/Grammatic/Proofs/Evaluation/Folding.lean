import Grammatic.Proofs.Evaluation.Simulation
import Grammatic.Proofs.Evaluation.Termination

/-!
# Values made by any factory

Evaluation never looks inside the values that it makes. So one evaluation tells all: the tagged nodes
that `Factory.nodes` makes can be folded afterwards, with each node made by another factory of its tag
and its folded children, and the outcome is what evaluation with that factory gives
(`evaluation_folds_nodes`).

The two evaluations are side by side, and the relation between their values is that one is the fold of
the other. Only scalars, lists and nodes arise, so a fold need not be defined on anything else.
-/

namespace Grammatic

variable {α ε : Type}

namespace Value

mutual
/-- A value of scalars, lists and nodes, made anew by a factory. -/
def fold? (factory : Factory α ε) : Value → Option α
  | .scalar s => some (factory.scalar s)
  | .list items => (foldItems? factory items).map factory.list
  | .node tag children => do (factory.node tag (← foldItems? factory children)).toOption
  | .token _ | .tuple _ | .tree _ _ => none

/-- Several values, each made anew. -/
def foldItems? (factory : Factory α ε) : List Value → Option (List α)
  | [] => some []
  | v :: rest => do return (← fold? factory v) :: (← foldItems? factory rest)
end

variable {factory : Factory α ε}

theorem foldItems?_of_forall₂ {items : List Value} {folded : List α}
    (folds : List.Forall₂ (fun value made => fold? factory value = some made) items folded) :
    foldItems? factory items = some folded := by
  induction folds with
  | nil => rfl
  | cons first _ ih => simp only [foldItems?, first, ih, Option.bind_eq_bind, Option.bind_some, pure]

end Value

namespace Factory

/-- Nodes go with what a factory that refuses none makes of their folds. -/
theorem related_fold {factory : Factory α ε} (total : factory.Total) :
    nodes.Related (fun value made => value.fold? factory = some made) factory where
  scalar _ := rfl
  list folds := by rw [nodes, Value.fold?, Value.foldItems?_of_forall₂ folds, Option.map_some]
  node tag children folded folds := by
    obtain ⟨made, isMade⟩ := total tag folded
    refine .inl ⟨.node tag children, made, rfl, isMade, ?_⟩
    simp only [Value.fold?, Value.foldItems?_of_forall₂ folds, Option.bind_eq_bind, Option.bind_some,
      isMade, Except.toOption]

end Factory

/-- Evaluation with a factory that refuses no node takes the course of evaluation with tagged nodes. It
ends where that ends, it fails with the same failure, and its value is the fold of the tagged nodes. -/
theorem evaluation_folds_nodes {store : Store} {grammar : Grammar} {buffer : TokenBuffer}
    {factory : Factory α ε} (total : factory.Total) (id : RuleId) (start : Nat) :
    let nodes : Setting Value ε := ⟨store, grammar, .nodes, buffer⟩
    let made : Setting α ε := ⟨store, grammar, factory, buffer⟩
    (made.Ends id start ↔ nodes.Ends id start) ∧
      (∀ value next, nodes.Gives id start (.matched value next) →
        ∃ folded, value.fold? factory = some folded ∧ made.Gives id start (.matched folded next)) ∧
      (∀ folded next, made.Gives id start (.matched folded next) →
        ∃ value, nodes.Gives id start (.matched value next) ∧ value.fold? factory = some folded) ∧
      (∀ failure next, made.Gives id start (.failed failure next) ↔
        nodes.Gives id start (.failed failure next)) ∧
      ∀ cause next, made.Gives id start (.fault cause next) ↔
        nodes.Gives id start (.fault cause next) := by
  intro nodes made
  have sim : nodes.Simulates made (fun _ => True) _ (· = ·) :=
    Setting.simulates_of_store (Factory.related_fold total) (.refl buffer)
  refine ⟨(sim.ends_iff trivial rfl).symm, ?_, ?_, fun _ _ => sim.gives_failed_iff trivial,
    fun _ _ => sim.gives_fault_iff trivial⟩
  · intro value next given
    obtain ⟨_, given', alike⟩ := sim.gives trivial rfl given
    cases alike with
    | matched folds same => exact ⟨_, folds, same ▸ given'⟩
  · intro folded next given
    obtain ⟨_, given', alike⟩ := sim.gives' trivial rfl given
    cases alike with
    | matched folds same => exact ⟨_, same ▸ given', folds⟩

/-- Series of sums of names, with a mark behind them or none. -/
def markedSums : Store where
  rules := #[
    { kind := .sequence, tag := some "sums", children := [1, 4] },
    { kind := .repetition, children := [2] },
    { kind := .expression, tag := some "sum", children := [3], table := some 0 },
    { kind := .terminal, tag := some "name", kinds := .ofList ["name"], literal := some .name },
    { kind := .optional, children := [5] },
    { kind := .terminal, tag := some "mark", kinds := .ofList ["mark"], literal := some .null }]
  tables := #[⟨[("plus", ⟨4, .left⟩)], false⟩]
  closed := by decide

/-- Two sums without a mark, as tagged nodes and as tuples. -/
theorem markedSums_folds :
    let buffer : TokenBuffer := .ofTokens [.ofText "name" "a" 0, .ofText "plus" "+" 1,
      .ofText "name" "b" 2, .ofText "name" "c" 3]
    let grammar : Grammar := { words := .within "", table := 0 }
    let nodes : Setting Value Unit := ⟨markedSums, grammar, .nodes, buffer⟩
    let tuples : Setting Value Unit := ⟨markedSums, grammar, .tuples, buffer⟩
    let node := fun tag => Value.node (some tag)
    let tuple := fun tag items => Value.tuple (.text tag :: items)
    @Factory.Total Value Unit .tuples ∧
      nodes.Gives 0 0 (.matched (node "sums" [.list [node "sum" [node "name" [.text "a"], .text "+",
        node "name" [.text "b"]], node "name" [.text "c"]], .absent]) 4) ∧
      tuples.Gives 0 0 (.matched (tuple "sums" [.list [tuple "sum" [tuple "name" [.text "a"],
        .text "+", tuple "name" [.text "b"]], tuple "name" [.text "c"]], .absent]) 4) := by
  intro buffer grammar nodes tuples node tuple
  have total : @Factory.Total Value Unit .tuples := fun _ _ => ⟨_, rfl⟩
  have given : nodes.Gives 0 0 (.matched (node "sums" [.list [node "sum" [node "name" [.text "a"],
      .text "+", node "name" [.text "b"]], node "name" [.text "c"]], .absent]) 4) :=
    ⟨nofun, 10, by rfl⟩
  obtain ⟨folded, folds, given'⟩ := (evaluation_folds_nodes total 0 0).2.1 _ _ given
  obtain rfl := Option.some.inj folds
  exact ⟨total, given, given'⟩

end Grammatic
