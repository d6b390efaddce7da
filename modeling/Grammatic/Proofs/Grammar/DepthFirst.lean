import Grammatic.Proofs.Grammar.Reachability
import Mathlib.Algebra.Order.BigOperators.Group.Finset

/-!
# The order of reachable rules

Compilation visits the reachable rules in the order of the recursive traversal (`Store.preorder`): a
rule comes before its sub-rules, which follow from left to right, and a rule that has been visited is
skipped.

The walk keeps a stack in place of the recursion and marks a rule when it comes off the stack, so a
rule may wait there any number of times. The law that relates the two is about the rest of the stack:
what the walk does with a rule on top of it is what it does with the rest alone, once the recursive
traversal of that rule is done (`Store.walks_of_traversal`). As a walk has one end only, the two end
with the same order.
-/

namespace Grammatic

namespace Store

/-! ## The recursive traversal -/

/-- What is pending does not depend on the order of the visits. -/
theorem pending_perm {store : Store} {seen seen' : List RuleId} (perm : seen.Perm seen') :
    store.pending seen = store.pending seen' := by
  rw [pending, pending, List.toFinset_eq_of_perm _ _ perm]

/-- Further visits put no more on the stack than was pending before them. -/
theorem pending_le_of_subset {store : Store} {seen seen' : List RuleId} (sub : seen ⊆ seen') :
    store.pending seen' ≤ store.pending seen :=
  Finset.sum_le_sum_of_subset
    (Finset.sdiff_subset_sdiff (Finset.Subset.refl _) fun _ mem =>
      List.mem_toFinset.mpr (sub (List.mem_toFinset.mp mem)))

theorem pending_concat {store : Store} {order : List RuleId} {id : RuleId} (fresh : id ∉ order) :
    (store.childrenOf id).length + store.pending (order ++ [id]) = store.pending order := by
  rw [pending_perm (List.perm_append_singleton id order), pending_cons fresh]

mutual

/-- Visits a rule behind the rules visited before it: nothing if it is one of them, else the rule and
then its sub-rules. -/
def visit (store : Store) (order : List RuleId) (id : RuleId) :
    { after : List RuleId // order <+: after } :=
  if id ∈ order then ⟨order, List.prefix_rfl⟩
  else
    let ⟨after, grows⟩ := store.visitEach (order ++ [id]) (store.childrenOf id)
    ⟨after, (List.prefix_append order [id]).trans grows⟩
termination_by 2 * store.pending order + 1
decreasing_by
  have taken := store.pending_concat ‹id ∉ order›
  omega

/-- Visits rules one after the other, from left to right. -/
def visitEach (store : Store) (order : List RuleId) : List RuleId →
    { after : List RuleId // order <+: after }
  | [] => ⟨order, List.prefix_rfl⟩
  | id :: rest =>
    let ⟨first, grows⟩ := store.visit order id
    let ⟨after, growsOn⟩ := store.visitEach first rest
    ⟨after, grows.trans growsOn⟩
termination_by ids => 2 * (store.pending order + ids.length)
decreasing_by
  · rw [List.length_cons]
    omega
  · have fewer := store.pending_le_of_subset grows.subset
    rw [List.length_cons]
    omega

end

variable {store : Store} {stack order result result' : List RuleId} {id : RuleId}

theorem visit_of_mem (visited : id ∈ order) : (store.visit order id).1 = order := by
  rw [visit, if_pos visited]

theorem visit_of_not_mem (fresh : id ∉ order) :
    (store.visit order id).1 = (store.visitEach (order ++ [id]) (store.childrenOf id)).1 := by
  rw [visit, if_neg fresh]

theorem visitEach_nil : (store.visitEach order []).1 = order := by
  rw [visitEach]

theorem visitEach_cons {ids : List RuleId} :
    (store.visitEach order (id :: ids)).1 = (store.visitEach (store.visit order id).1 ids).1 := by
  rw [visitEach]

/-- The rules that the recursive traversal visits from a root, in its order. -/
def preorder (store : Store) (root : RuleId) : List RuleId :=
  (store.visit [] root).1

/-! ## The walk and the traversal -/

/-- A walk has one end only. -/
theorem Walks.unique (walks : store.Walks stack order result) (walks' : store.Walks stack order result') :
    result = result' := by
  induction walks with
  | done => cases walks' with | done => rfl
  | again visited _ ih =>
    cases walks' with
    | again _ rest => exact ih rest
    | visit fresh _ => exact absurd visited fresh
  | visit fresh _ ih =>
    cases walks' with
    | again visited _ => exact absurd visited fresh
    | visit _ rest => exact ih rest

/-- No rule is visited twice. -/
theorem Walks.nodup (walks : store.Walks stack order result) (once : order.Nodup) : result.Nodup := by
  induction walks with
  | done => exact once
  | again _ _ ih => exact ih once
  | visit fresh _ ih =>
    exact ih (List.nodup_append_comm.mp (List.nodup_cons.mpr ⟨fresh, once⟩))

/-- A walk goes on behind the recursive traversal of what is on top of its stack. -/
theorem walks_of_traversal :
    (∀ order id {stack result}, store.Walks stack (store.visit order id).1 result →
        store.Walks (id :: stack) order result) ∧
      ∀ order ids {stack result}, store.Walks stack (store.visitEach order ids).1 result →
        store.Walks (ids ++ stack) order result := by
  -- By the recursion of the traversal, for any rest of the stack: a sub-rule is visited in front of the
  -- sub-rules to its right and of all that waits behind their parent.
  refine visit.mutual_induct store _ _ ?visited ?fresh ?nil ?cons
  case visited =>
    intro order id visited stack result rest
    rw [visit_of_mem visited] at rest
    exact .again visited rest
  case fresh =>
    intro order id fresh _ _ _ ofEach stack result rest
    rw [visit_of_not_mem fresh] at rest
    exact .visit fresh (ofEach rest)
  case nil =>
    intro order stack result rest
    rw [visitEach_nil] at rest
    exact rest
  case cons =>
    intro order id ids first grows first_eq _ _ _ ofFirst ofRest stack result rest
    rw [visitEach_cons, first_eq] at rest
    rw [first_eq] at ofFirst
    exact ofFirst (ofRest rest)

/-- The walk from a root visits the rules exactly as the recursive traversal does: it comes to its end,
each rule that can be reached is visited once and no other, and the order is that of the traversal. -/
theorem reachable_is_depthFirst (store : Store) (root : RuleId) :
    (∀ result, store.Walks [root] [] result ↔ result = store.reachable root) ∧
      (store.reachable root).Nodup ∧
      (∀ id, id ∈ store.reachable root ↔ store.ReachableFrom root id) ∧
      store.reachable root = store.preorder root := by
  have walks : store.Walks [root] [] (store.reachable root) := walks_reachable
  have traversed : store.Walks [root] [] (store.preorder root) := walks_of_traversal.1 [] root .done
  refine ⟨fun result => ⟨fun other => other.unique walks, ?_⟩, walks.nodup List.nodup_nil,
    fun id => mem_reachable_iff, walks.unique traversed⟩
  rintro rfl
  exact walks

/-- A cycle of rules, with one rule that refers to itself twice and one that two others refer to. -/
def tangledRules : Store where
  rules := #[
    { kind := .alternation, children := [1, 2, 3] },
    { kind := .alternation, children := [3] },
    { kind := .alternation, children := [2, 2] },
    { kind := .alternation, children := [0] }]
  closed := by decide

/-- The last sub-rule of the root is visited below the first one, before the second. -/
example : tangledRules.reachable 0 = [0, 1, 3, 2] := by decide

end Store

end Grammatic
