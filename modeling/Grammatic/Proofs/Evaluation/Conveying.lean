import Grammatic.Proofs.Evaluation.Leading

/-!
# Values that are passed on

Some rules do no more than pass on the value of a part: an alternation that of the alternative which matches, a
capture that of its sub-rule, and a sequence that of its one component, unless its tag makes a node of it. So does
an expression behind whose operand no operator comes. A check of the store alone tells, for a token of one kind
with a token of another kind behind its match, that this goes on down to some rule (`Store.conveys`). What that
rule gives is then what the whole gives (`evaluateWithin_of_conveys`).
-/

namespace Grammatic

/-- Whether a rule gives what a target gives at a token of a kind, if a token of another kind is behind it, as far
as a search of bounded depth can tell. A node with one of some tags has to be what its one child is. -/
def Store.conveys (store : Store) (kind behind : TokenKind) (tags : List NodeTag) (target : RuleId) :
    Nat → RuleId → Bool
  | 0, _ => false
  | depth + 1, id =>
    id = target || store.rules[id]?.any fun rule =>
      match rule.kind with
      | .alternation =>
        (rule.children.find? fun child => !store.refuses kind depth child).any
          (store.conveys kind behind tags target depth)
      | .capture => rule.children.head?.any (store.conveys kind behind tags target depth)
      | .sequence =>
        rule.tag.all (· ∈ tags) && rule.children.length = 1 && rule.children.all fun child =>
          store.captures child && store.conveys kind behind tags target depth child
      | .expression =>
        (store.tableOf? rule).any (fun table => (table.find? behind).isNone) &&
          rule.children.head?.any (store.conveys kind behind tags target depth)
      | .terminal | .optional | .repetition => false

namespace Setting

variable {α ε : Type} {setting : Setting α ε} {kind behind : TokenKind} {tags : List NodeTag} {target : RuleId}
  {start next : Nat} {value : α}

/-- An alternation gives what its first alternative gives that does not fail. -/
theorem alternation_of_find {part : RuleId → Nat → Outcome α ε} {alternatives : List RuleId}
    {refuses : RuleId → Bool} {child : RuleId} {expected : StringSet} {last : Option Failure}
    (first : alternatives.find? (fun child => !refuses child) = some child)
    (refused : ∀ other, refuses other = true → Refused part other start)
    (given : part child start = .matched value next) :
    alternation part start alternatives expected last = .matched value next := by
  induction alternatives generalizing expected last with
  | nil => cases first
  | cons other rest ih =>
    rw [List.find?_cons] at first
    split at first
    next =>
      obtain rfl := Option.some.inj first
      rw [alternation, given]
    next no =>
      obtain ⟨failure, position, outcome⟩ := refused other (by simpa using no)
      rw [alternation, outcome]
      exact ih first

/-- A rule that conveys what a target gives gives it, whatever the value is. -/
theorem evaluateWithin_of_conveys {depth : Nat} {id : RuleId}
    (conveys : setting.store.conveys kind behind tags target depth id = true)
    (isKind : (setting.buffer.peek start).kind = kind) (isBehind : (setting.buffer.peek next).kind = behind)
    (given : ∀ depth, setting.evaluateWithin (depth + 1) target start = .matched value next)
    (same : ∀ tag ∈ tags, setting.factory.node (some tag) [value] = .ok value) :
    setting.evaluateWithin depth id start = .matched value next := by
  induction depth generalizing id with
  | zero => cases conveys
  | succ depth ih =>
    rw [Store.conveys, Bool.or_eq_true, decide_eq_true_eq, Option.any_eq_true] at conveys
    rcases conveys with rfl | ⟨rule, found, conveys⟩
    · exact given depth
    · have head {children : List RuleId}
          (conveys : children.head?.any (setting.store.conveys kind behind tags target depth) = true) :
          ∃ sub rest, children = sub :: rest ∧ setting.evaluateWithin depth sub start = .matched value next := by
        obtain ⟨sub, isHead, conveys⟩ := (Option.any_eq_true _ _).mp conveys
        obtain ⟨rest, children⟩ := List.head?_eq_some_iff.mp isHead
        exact ⟨sub, rest, children, ih conveys⟩
      rw [evaluateWithin, found]
      simp only
      cases form : rule.kind with
      | terminal | optional | repetition => simp only [form, Bool.false_eq_true] at conveys
      | alternation =>
        simp only [form] at conveys
        obtain ⟨child, first, conveys⟩ := (Option.any_eq_true _ _).mp conveys
        rw [evaluateRule_alternation form]
        exact alternation_of_find first (fun other refuses => refused_of_refuses refuses isKind) (ih conveys)
      | capture =>
        simp only [form] at conveys
        obtain ⟨sub, rest, children, given⟩ := head conveys
        rw [evaluateRule_capture form children, given]
      | sequence =>
        simp only [form, Bool.and_eq_true, decide_eq_true_eq] at conveys
        obtain ⟨⟨plain, one⟩, conveys⟩ := conveys
        obtain ⟨child, children⟩ := List.length_eq_one_iff.mp one
        rw [children, List.all_cons, List.all_nil, Bool.and_true, Bool.and_eq_true] at conveys
        rw [evaluateRule_sequence form, children, sequence, ih conveys.2]
        simp only [sequence, conveys.1, if_true, closeSequence]
        split
        next tag isTag =>
          have listed : tag ∈ tags := by simpa [isTag] using plain
          rw [construct, List.reverse_singleton, same tag listed]
        next => rfl
      | expression =>
        simp only [form, Bool.and_eq_true] at conveys
        obtain ⟨table, table?, noOperator⟩ := (Option.any_eq_true _ _).mp conveys.1
        obtain ⟨sub, rest, children, given⟩ := head conveys.2
        rw [evaluateRule_expression form table? children, expression, given]
        cases depth with
        | zero => cases given
        | succ depth => simp only [climb, isBehind, Option.isNone_iff_eq_none.mp noOperator]

end Setting

end Grammatic
