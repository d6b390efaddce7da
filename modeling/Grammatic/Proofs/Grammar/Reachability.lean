import Grammatic.Grammar.Parser
import Mathlib.Algebra.BigOperators.Group.Finset.Basic
import Mathlib.Data.Finset.Sum
import Mathlib.Logic.Relation

/-!
# Reachable rules

The walk that compilation makes visits exactly the rules that can be reached from the root
(`Store.mem_reachable_iff`), along any cycles that the graph has.

What a walk does is told by its course, without a count of its steps (`Store.Walks`), so that laws about
it are inductions on the course. The steps of the walk that compilation makes are counted before it
starts. They suffice for its course to come to an end (`Store.walks_reachable`), because what is on the
stack and what rules not visited yet will still put there get less by one in each step.
-/

namespace Grammatic

open Relation (ReflTransGen)

namespace Store

/-- A rule can be reached from another: it is the same rule, or a sub-rule of a rule that can be. -/
def ReachableFrom (store : Store) (root : RuleId) : RuleId → Prop :=
  ReflTransGen (fun parent child => child ∈ store.childrenOf parent) root

theorem childrenOf_of_getElem? {store : Store} {id : RuleId} {rule : Rule}
    (found : store.rules[id]? = some rule) : store.childrenOf id = rule.children := by
  rw [childrenOf, found, Option.map_some, Option.getD_some]

theorem childrenOf_of_size_le {store : Store} {id : RuleId} (le : store.rules.size ≤ id) :
    store.childrenOf id = [] := by
  rw [childrenOf, Array.getElem?_eq_none le, Option.map_none, Option.getD_none]

/-- Sub-rules are in the store. -/
theorem lt_size_of_mem_childrenOf {store : Store} {parent child : RuleId}
    (mem : child ∈ store.childrenOf parent) : child < store.rules.size := by
  rcases Nat.lt_or_ge parent store.rules.size with valid | beyond
  · have found := Array.getElem?_eq_getElem valid
    have within := store.closed _ (Array.getElem_mem valid)
    rw [childrenOf_of_getElem? found] at mem
    simp only [Rule.within, Bool.and_eq_true, List.all_eq_true, decide_eq_true_eq] at within
    exact within.1 child mem
  · rw [childrenOf_of_size_le beyond] at mem
    exact absurd mem List.not_mem_nil

theorem ReachableFrom.lt_size {store : Store} {root id : RuleId} (reached : store.ReachableFrom root id)
    (valid : root < store.rules.size) : id < store.rules.size := by
  cases reached with
  | refl => exact valid
  | tail _ mem => exact lt_size_of_mem_childrenOf mem

/-! ## The course of a walk -/

/-- The course of a walk, without a bound on its steps: from the rules on a stack, with those visited
before in the order of their visits, to the order in which all have been visited. -/
inductive Walks (store : Store) : List RuleId → List RuleId → List RuleId → Prop where
  | done {order : List RuleId} : Walks store [] order order
  | again {id : RuleId} {stack order result : List RuleId} (visited : id ∈ order)
      (rest : Walks store stack order result) : Walks store (id :: stack) order result
  | visit {id : RuleId} {stack order result : List RuleId} (fresh : id ∉ order)
      (rest : Walks store (store.childrenOf id ++ stack) (order ++ [id]) result) :
      Walks store (id :: stack) order result

/-- The sub-rules of the rules that were visited were visited, or they are on the stack. -/
def Covers (store : Store) (stack order : List RuleId) : Prop :=
  ∀ parent ∈ order, ∀ child ∈ store.childrenOf parent, child ∈ order ∨ child ∈ stack

/-- What a walk has visited or has still to visit. -/
def Visits (store : Store) (stack order : List RuleId) (id : RuleId) : Prop :=
  id ∈ order ∨ ∃ waiting ∈ stack, store.ReachableFrom waiting id

variable {store : Store} {stack order result : List RuleId} {next id : RuleId}

theorem Covers.visits_of_mem (covers : store.Covers stack order) (mem : next ∈ order)
    (reached : store.ReachableFrom next id) : store.Visits stack order id := by
  induction reached using ReflTransGen.head_induction_on with
  | refl => exact .inl mem
  | head child more ih =>
    rcases covers _ mem _ child with visited | waits
    · exact ih visited
    · exact .inr ⟨_, waits, more⟩

/-- A rule that was visited can be taken off the stack. -/
theorem Covers.drop (covers : store.Covers (next :: stack) order) (visited : next ∈ order) :
    store.Covers stack order := by
  intro parent mem child isChild
  rcases covers parent mem child isChild with before | waits
  · exact .inl before
  · rcases List.mem_cons.mp waits with rfl | waits
    · exact .inl visited
    · exact .inr waits

theorem visits_drop_iff (covers : store.Covers stack order) (visited : next ∈ order) :
    store.Visits stack order id ↔ store.Visits (next :: stack) order id := by
  constructor
  · rintro (before | ⟨waiting, waits, reached⟩)
    · exact .inl before
    · exact .inr ⟨waiting, List.mem_cons_of_mem _ waits, reached⟩
  · rintro (before | ⟨waiting, waits, reached⟩)
    · exact .inl before
    · rcases List.mem_cons.mp waits with rfl | waits
      · exact covers.visits_of_mem visited reached
      · exact .inr ⟨waiting, waits, reached⟩

/-- A rule is visited, and its sub-rules go on the stack. -/
theorem Covers.visit (covers : store.Covers (next :: stack) order) :
    store.Covers (store.childrenOf next ++ stack) (order ++ [next]) := by
  intro parent mem child isChild
  rcases List.mem_append.mp mem with mem | last
  · rcases covers parent mem child isChild with before | waits
    · exact .inl (List.mem_append_left _ before)
    · rcases List.mem_cons.mp waits with rfl | waits
      · exact .inl List.mem_concat_self
      · exact .inr (List.mem_append_right _ waits)
  · obtain rfl := List.mem_singleton.mp last
    exact .inr (List.mem_append_left _ isChild)

theorem visits_visit_iff : store.Visits (store.childrenOf next ++ stack) (order ++ [next]) id ↔
    store.Visits (next :: stack) order id := by
  constructor
  · rintro (before | ⟨waiting, waits, reached⟩)
    · rcases List.mem_append.mp before with before | last
      · exact .inl before
      · obtain rfl := List.mem_singleton.mp last
        exact .inr ⟨id, List.mem_cons_self, .refl⟩
    · rcases List.mem_append.mp waits with child | waits
      · exact .inr ⟨next, List.mem_cons_self, .head child reached⟩
      · exact .inr ⟨waiting, List.mem_cons_of_mem _ waits, reached⟩
  · rintro (before | ⟨waiting, waits, reached⟩)
    · exact .inl (List.mem_append_left _ before)
    · rcases List.mem_cons.mp waits with rfl | waits
      · rcases ReflTransGen.cases_head reached with rfl | ⟨child, isChild, more⟩
        · exact .inl List.mem_concat_self
        · exact .inr ⟨child, List.mem_append_left _ isChild, more⟩
      · exact .inr ⟨waiting, List.mem_append_right _ waits, reached⟩

/-- A walk visits what has been visited and all that can be reached from its stack. -/
theorem Walks.mem_iff (walks : store.Walks stack order result) (covers : store.Covers stack order) :
    id ∈ result ↔ store.Visits stack order id := by
  induction walks with
  | done => simp [Visits]
  | again visited _ ih =>
    have covers := covers.drop visited
    exact (ih covers).trans (visits_drop_iff covers visited)
  | visit _ _ ih => exact (ih covers.visit).trans visits_visit_iff

/-! ## Steps enough -/

/-- The number of references that rules not visited yet will put on the stack. -/
def pending (store : Store) (seen : List RuleId) : Nat :=
  ∑ id ∈ Finset.range store.rules.size \ seen.toFinset, (store.childrenOf id).length

/-- A visit takes the references of the rule from those that are pending. -/
theorem pending_cons {store : Store} {seen : List RuleId} {id : RuleId} (fresh : id ∉ seen) :
    (store.childrenOf id).length + store.pending (id :: seen) = store.pending seen := by
  unfold pending
  rw [List.toFinset_cons, Finset.sdiff_insert]
  by_cases valid : id < store.rules.size
  · exact Finset.add_sum_erase _ (fun id => (store.childrenOf id).length)
      (by simp [valid, fresh])
  · rw [childrenOf_of_size_le (Nat.le_of_not_lt valid), Finset.erase_eq_of_notMem (by simp [valid]),
      List.length_nil, Nat.zero_add]

theorem walkSteps_eq (store : Store) : store.walkSteps = store.pending [] + 2 := by
  have sums (rules : List Rule) (n : Nat) :
      rules.foldl (fun n rule => n + rule.children.length) n =
        (rules.map (·.children.length)).sum + n := by
    induction rules generalizing n with
    | nil => simp
    | cons rule rest ih => simp only [List.foldl_cons, ih, List.map_cons, List.sum_cons]; omega
  have lengths : store.rules.toList.map (·.children.length) =
      (List.range store.rules.size).map fun id => (store.childrenOf id).length := by
    refine List.ext_getElem (by simp) fun id valid _ => ?_
    simp only [List.length_map, Array.length_toList] at valid
    simp [childrenOf, valid]
  rw [walkSteps, ← Array.foldl_toList, sums, lengths, pending, List.toFinset_nil, Finset.sdiff_empty]
  rfl

/-- A walk with steps enough comes to the end of its course. -/
theorem walks_walk {steps : Nat} (stack seen : List RuleId)
    (enough : stack.length + store.pending seen < steps) :
    store.Walks stack seen.reverse (walk store.childrenOf steps stack seen) := by
  induction steps generalizing stack seen with
  | zero => exact absurd enough (Nat.not_lt_zero _)
  | succ steps ih =>
    cases stack with
    | nil => exact .done
    | cons next stack =>
      simp only [walk]
      rw [List.length_cons] at enough
      split
      next visited => exact .again (List.mem_reverse.mpr visited) (ih stack seen (by omega))
      next fresh =>
        have taken := store.pending_cons fresh
        have rest := ih (store.childrenOf next ++ stack) (next :: seen)
          (by rw [List.length_append]; omega)
        rw [List.reverse_cons] at rest
        exact .visit (mt List.mem_reverse.mp fresh) rest

/-- The steps counted for a root let the walk from it come to its end. -/
theorem walks_reachable {root : RuleId} : store.Walks [root] [] (store.reachable root) :=
  walks_walk [root] [] (by rw [walkSteps_eq, List.length_singleton]; omega)

/-- The rules that compilation visits are those that can be reached from the root. -/
theorem mem_reachable_iff {root : RuleId} : id ∈ store.reachable root ↔ store.ReachableFrom root id := by
  have covers : store.Covers [root] [] := fun _ mem => absurd mem List.not_mem_nil
  rw [walks_reachable.mem_iff covers]
  simp [Visits]

end Store

end Grammatic
