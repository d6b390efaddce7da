import Grammatic.Evaluation.Outcome
import Grammatic.Grammar.Operators

/-!
# Grouping of operator chains

A chain is an operand and the operators behind it, each with the operand to its right. It is grouped
by a binary tree that reads as the chain from left to right. A tree is `Grouped` when every operator
in it may stand where it does: below another on the left if it binds tighter, or as tight and to the
left, and below another on the right if it binds tighter, or as tight and the other to the right.

Of two neighbours in a chain exactly one may stand below the other (`binds_before_or_after`), however
associativities are mixed within a precedence. So a chain has exactly one grouping
(`exists_unique_grouping`): `group` makes it by putting one operator after the other on the right
spine, and every grouped tree is made in this way from its own chain.
-/

namespace Grammatic

/-- An operator of a chain, with its token and the operand to its right. -/
structure Link (α : Type) where
  token : Token
  operator : Operator
  operand : α

/-- A binary tree of operators over operands. -/
inductive OperatorTree (α : Type) where
  | leaf (value : α)
  | node (left : OperatorTree α) (token : Token) (operator : Operator) (right : OperatorTree α)

/-! ## Operators side by side and below each other -/

namespace Operator

/-- An operator may stand below another on its left: it binds tighter, or as tight and to the left. -/
def LeftBelow (lower upper : Operator) : Prop :=
  lower.precedence < upper.precedence ∨
    lower.precedence = upper.precedence ∧ lower.assoc = .left

/-- An operator may stand below another on its right: it binds tighter, or as tight and the other to
the right. -/
def RightBelow (lower upper : Operator) : Prop :=
  lower.precedence < upper.precedence ∨
    lower.precedence = upper.precedence ∧ upper.assoc = .right

theorem leftBelow_iff {lower upper : Operator} :
    lower.LeftBelow upper ↔ lower.rightLimit < upper.precedence := by
  unfold LeftBelow rightLimit
  cases lower.assoc with
  | left => simp only [and_true]; omega
  | right => simp only [reduceCtorEq, and_false, or_false]

theorem rightBelow_iff {lower upper : Operator} :
    lower.RightBelow upper ↔ lower.precedence ≤ upper.rightLimit := by
  unfold RightBelow rightLimit
  cases upper.assoc with
  | left => simp only [reduceCtorEq, and_false, or_false]; omega
  | right => simp only [and_true]; omega

theorem rightLimit_le (operator : Operator) : operator.rightLimit ≤ operator.precedence := by
  unfold rightLimit
  split <;> omega

/-- Of two neighbours, the earlier may stand below the later, or else the later below the earlier. -/
theorem binds_before_or_after (earlier later : Operator) :
    later.RightBelow earlier ↔ ¬ earlier.LeftBelow later := by
  rw [leftBelow_iff, rightBelow_iff]
  omega

theorem LeftBelow.precedence_le {lower upper : Operator} (below : lower.LeftBelow upper) :
    lower.precedence ≤ upper.precedence := by
  rcases below with less | ⟨same, _⟩ <;> omega

theorem RightBelow.precedence_le {lower upper : Operator} (below : lower.RightBelow upper) :
    lower.precedence ≤ upper.precedence :=
  Int.le_trans (rightBelow_iff.mp below) upper.rightLimit_le

instance (earlier later : Operator) : Decidable (earlier.LeftBelow later) :=
  inferInstanceAs (Decidable (_ ∨ _))

end Operator

namespace OperatorTree

variable {α : Type}

/-! ## Trees and what they read as -/

/-- The leftmost operand of a tree. -/
def first : OperatorTree α → α
  | leaf value => value
  | node left _ _ _ => left.first

/-- The operators of a tree from left to right, each with the operand behind it. -/
def links : OperatorTree α → List (Link α)
  | leaf _ => []
  | node left token operator right => left.links ++ ⟨token, operator, right.first⟩ :: right.links

/-- The operator at the top of a tree. -/
def top? : OperatorTree α → Option Operator
  | leaf _ => none
  | node _ _ operator _ => some operator

/-- The operator at the top of a tree keeps to a limit. -/
def Under (limit : Option Int) (tree : OperatorTree α) : Prop :=
  ∀ upper ∈ tree.top?, ∀ loosest ∈ limit, upper.precedence ≤ loosest

/-- Every operator may stand below the one above it. -/
def Grouped : OperatorTree α → Prop
  | leaf _ => True
  | node left _ operator right =>
    left.Grouped ∧ right.Grouped ∧ (∀ lower ∈ left.top?, lower.LeftBelow operator) ∧
      ∀ lower ∈ right.top?, lower.RightBelow operator

/-- The value of a tree, whose nodes are made of the two operands and the text of the operator. -/
def fold (scalar : Scalar → α) (make : List α → α) : OperatorTree α → α
  | leaf value => value
  | node left token _ right =>
    make [left.fold scalar make, scalar (.text token.text), right.fold scalar make]

/-- No operator of a grouped tree binds more loosely than the one at its top. -/
theorem Grouped.precedence_le {tree : OperatorTree α} (grouped : tree.Grouped) {upper : Operator}
    (atTop : tree.top? = some upper) {link : Link α} (mem : link ∈ tree.links) :
    link.operator.precedence ≤ upper.precedence := by
  induction tree generalizing upper with
  | leaf _ => exact absurd mem List.not_mem_nil
  | node left token operator right ihl ihr =>
    obtain ⟨groupedLeft, groupedRight, leftBelow, rightBelow⟩ := grouped
    obtain rfl : operator = upper := Option.some.inj atTop
    rcases List.mem_append.mp mem with inLeft | inRight
    · cases left with
      | leaf _ => exact absurd inLeft List.not_mem_nil
      | node _ _ lower _ =>
        exact Int.le_trans (ihl groupedLeft rfl inLeft) (leftBelow lower rfl).precedence_le
    · rcases List.mem_cons.mp inRight with rfl | inRight
      · exact Int.le_refl _
      · cases right with
        | leaf _ => exact absurd inRight List.not_mem_nil
        | node _ _ lower _ =>
          exact Int.le_trans (ihr groupedRight rfl inRight) (rightBelow lower rfl).precedence_le

/-- Every operator on the right of a grouped node may stand below the operator of the node. -/
theorem Grouped.rightBelow {left right : OperatorTree α} {token : Token} {operator : Operator}
    (grouped : (node left token operator right).Grouped) {link : Link α}
    (mem : link ∈ right.links) : link.operator.RightBelow operator := by
  obtain ⟨_, groupedRight, _, rightBelow⟩ := grouped
  cases right with
  | leaf _ => exact absurd mem List.not_mem_nil
  | node _ _ lower _ =>
    have loosest := groupedRight.precedence_le rfl mem
    rw [Operator.rightBelow_iff]
    exact Int.le_trans loosest (Operator.rightBelow_iff.mp (rightBelow lower rfl))

/-! ## Making the grouping of a chain -/

/-- A tree with one more operator and operand behind it. The operator goes down the right spine, below
every operator that it may stand below. -/
def snoc : OperatorTree α → Link α → OperatorTree α
  | leaf value, link => node (leaf value) link.token link.operator (leaf link.operand)
  | node left token operator right, link =>
    if operator.LeftBelow link.operator then
      node (node left token operator right) link.token link.operator (leaf link.operand)
    else node left token operator (right.snoc link)

/-- The tree of a chain. -/
def group (first : α) (links : List (Link α)) : OperatorTree α :=
  links.foldl snoc (leaf first)

@[simp] theorem first_snoc (tree : OperatorTree α) (link : Link α) :
    (tree.snoc link).first = tree.first := by
  cases tree with
  | leaf _ => rfl
  | node left token operator right =>
    simp only [snoc]
    split <;> rfl

@[simp] theorem links_snoc (tree : OperatorTree α) (link : Link α) :
    (tree.snoc link).links = tree.links ++ [link] := by
  induction tree with
  | leaf _ => rfl
  | node left token operator right _ ih =>
    simp only [snoc]
    split
    next => rfl
    next => simp only [links, ih, first_snoc, List.append_assoc, List.cons_append]

/-- The operator at the top of a longer tree is the new one, or is the one that was there. -/
theorem top?_snoc (tree : OperatorTree α) (link : Link α) :
    (tree.snoc link).top? = some link.operator ∨ (tree.snoc link).top? = tree.top? := by
  cases tree with
  | leaf _ => exact .inl rfl
  | node left token operator right =>
    simp only [snoc]
    split
    next => exact .inl rfl
    next => exact .inr rfl

theorem Grouped.snoc {tree : OperatorTree α} (grouped : tree.Grouped) (link : Link α) :
    (tree.snoc link).Grouped := by
  induction tree with
  | leaf _ => exact ⟨trivial, trivial, nofun, nofun⟩
  | node left token operator right _ ih =>
    obtain ⟨groupedLeft, groupedRight, leftBelow, rightBelow⟩ := grouped
    simp only [OperatorTree.snoc]
    split
    next before =>
      refine ⟨⟨groupedLeft, groupedRight, leftBelow, rightBelow⟩, trivial, ?_, nofun⟩
      intro lower atTop
      obtain rfl := Option.some.inj atTop
      exact before
    next after =>
      refine ⟨groupedLeft, ih groupedRight, leftBelow, ?_⟩
      intro lower atTop
      rcases right.top?_snoc link with new | old
      · obtain rfl := Option.some.inj (new.symm.trans atTop)
        exact (Operator.binds_before_or_after _ _).mpr after
      · exact rightBelow lower (old ▸ atTop)

theorem first_foldl_snoc (tree : OperatorTree α) (links : List (Link α)) :
    (links.foldl snoc tree).first = tree.first := by
  induction links generalizing tree with
  | nil => rfl
  | cons link rest ih => rw [List.foldl_cons, ih, first_snoc]

theorem links_foldl_snoc (tree : OperatorTree α) (links : List (Link α)) :
    (links.foldl snoc tree).links = tree.links ++ links := by
  induction links generalizing tree with
  | nil => exact (List.append_nil _).symm
  | cons link rest ih => rw [List.foldl_cons, ih, links_snoc, List.append_assoc, List.singleton_append]

theorem Grouped.foldl_snoc {tree : OperatorTree α} (grouped : tree.Grouped)
    (links : List (Link α)) : (links.foldl OperatorTree.snoc tree).Grouped := by
  induction links generalizing tree with
  | nil => exact grouped
  | cons link rest ih => exact ih (grouped.snoc link)

theorem grouped_group (first : α) (links : List (Link α)) : (group first links).Grouped := by
  have single : (leaf first).Grouped := trivial
  exact single.foldl_snoc links

@[simp] theorem first_group (first : α) (links : List (Link α)) :
    (group first links).first = first :=
  first_foldl_snoc (leaf first) links

@[simp] theorem links_group (first : α) (links : List (Link α)) :
    (group first links).links = links :=
  links_foldl_snoc (leaf first) links

/-! ## There is no other grouping -/

/-- Operators that may stand below the one at the top all go to its right. -/
theorem foldl_snoc_node (left right : OperatorTree α) (token : Token) (operator : Operator)
    {links : List (Link α)} (below : ∀ link ∈ links, link.operator.RightBelow operator) :
    links.foldl snoc (node left token operator right) =
      node left token operator (links.foldl snoc right) := by
  induction links generalizing right with
  | nil => rfl
  | cons link rest ih =>
    have after := (Operator.binds_before_or_after _ _).mp (below link List.mem_cons_self)
    rw [List.foldl_cons, snoc, if_neg after]
    exact ih (right.snoc link) fun other mem => below other (List.mem_cons_of_mem _ mem)

/-- A grouped tree is the one that is made of its chain. -/
theorem Grouped.eq_group {tree : OperatorTree α} (grouped : tree.Grouped) :
    tree = group tree.first tree.links := by
  induction tree with
  | leaf _ => rfl
  | node left token operator right ihl ihr =>
    have below : ∀ link ∈ right.links, link.operator.RightBelow operator :=
      fun _ mem => grouped.rightBelow mem
    obtain ⟨groupedLeft, groupedRight, leftBelow, _⟩ := grouped
    have placed : left.snoc ⟨token, operator, right.first⟩ =
        node left token operator (leaf right.first) := by
      cases left with
      | leaf _ => rfl
      | node _ _ lower _ => rw [OperatorTree.snoc, if_pos (leftBelow lower rfl)]
    symm
    calc
      (left.links ++ ⟨token, operator, right.first⟩ :: right.links).foldl OperatorTree.snoc
          (leaf left.first)
        = right.links.foldl OperatorTree.snoc
            ((group left.first left.links).snoc ⟨token, operator, right.first⟩) := by
          rw [List.foldl_append, List.foldl_cons]
          rfl
      _ = right.links.foldl OperatorTree.snoc (node left token operator (leaf right.first)) := by
          rw [← ihl groupedLeft, placed]
      _ = node left token operator (group right.first right.links) :=
          foldl_snoc_node left (leaf right.first) token operator below
      _ = node left token operator right := by rw [← ihr groupedRight]

/-- A chain has exactly one grouping. -/
theorem exists_unique_grouping (first : α) (links : List (Link α)) :
    ∃ tree : OperatorTree α, (tree.first = first ∧ tree.links = links ∧ tree.Grouped) ∧
      ∀ other : OperatorTree α, other.first = first ∧ other.links = links ∧ other.Grouped →
        other = tree := by
  refine ⟨group first links, ⟨first_group _ _, links_group _ _, grouped_group _ _⟩, ?_⟩
  rintro other ⟨rfl, rfl, grouped⟩
  exact grouped.eq_group

end OperatorTree

end Grammatic
