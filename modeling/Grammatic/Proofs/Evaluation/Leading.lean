import Grammatic.Proofs.Evaluation.Faults
import Grammatic.Proofs.Evaluation.Settling

/-!
# Where the next token leads

Checks of the store alone, that tell from the kind of the next token where an evaluation goes. A rule
`refuses` a kind if it fails at every token of that kind, whatever stands behind it (`fails_of_refuses`). It
`leadsTo` another rule if its evaluation comes to that rule at the same token, past nothing but alternatives
that refuse the kind (`entered_of_leadsTo`).

A third check finds rules that fail at no token at all (`not_fails_of_neverFails`), and a fourth the kinds of
token that a match can start with (`mem_of_startsWithin`). Rules that are told apart by the first token are
exclusive: at no position do two of them match (`exclusive_of_tellsApart`).

All are searches that a number bounds, so they can be evaluated. They err on one side only: what they say
holds for all tokens, and of a rule that needs a second token to be decided they say nothing.
-/

namespace Grammatic

open Relation (ReflTransGen)

/-! ## The search -/

namespace Store

/-- Whether a rule fails at every token of a kind, as far as a search of bounded depth can tell. -/
def refuses (store : Store) (kind : TokenKind) : Nat → RuleId → Bool
  | 0, _ => false
  | depth + 1, id =>
    match store.rules[id]? with
    | none => false
    | some rule =>
      match rule.kind with
      | .terminal => !rule.kinds.contains kind
      | .alternation => !rule.children.isEmpty && rule.children.all (store.refuses kind depth)
      | .optional | .repetition => false
      | .sequence | .capture => rule.children.head?.any (store.refuses kind depth)
      | .expression =>
        (store.tableOf? rule).isSome && rule.children.head?.any (store.refuses kind depth)

/-- Whether a rule can be told never to fail, by a search of bounded depth. -/
def neverFails (store : Store) : Nat → RuleId → Bool
  | 0, _ => false
  | depth + 1, id =>
    match store.rules[id]? with
    | none => false
    | some rule =>
      match rule.kind with
      | .optional | .repetition => !rule.children.isEmpty
      | .sequence => rule.children.all (store.neverFails depth)
      | .alternation => rule.children.any (store.neverFails depth)
      | .capture => rule.children.head?.any (store.neverFails depth)
      | .terminal | .expression => false

/-- Whether every match of a rule starts with a token of one of some kinds, as far as a search of bounded
depth can tell. -/
def startsWithin (store : Store) (kinds : List TokenKind) : Nat → RuleId → Bool
  | 0, _ => false
  | depth + 1, id =>
    match store.rules[id]? with
    | none => false
    | some rule =>
      match rule.kind with
      | .terminal => rule.kinds.toList.all kinds.contains
      | .alternation => rule.children.all (store.startsWithin kinds depth)
      | .sequence | .capture | .expression => rule.children.head?.any (store.startsWithin kinds depth)
      | .optional | .repetition => false

/-- Whether some rules start with tokens of some kinds only, and each kind is refused by all but one of the
rules. -/
def tellsApart (store : Store) (kinds : List TokenKind) (ids : List RuleId) : Bool :=
  ids.all (store.startsWithin kinds store.rules.size) &&
    kinds.all fun kind => ids.countP (fun id => !store.refuses kind store.rules.size id) ≤ 1

/-- The sub-rules that a rule enters at a token of a kind, whatever stands behind it. -/
def firstChildren (store : Store) (kind : TokenKind) (rule : Rule) : List RuleId :=
  match rule.kind with
  | .terminal => []
  | .alternation => upTo (fun id => !store.refuses kind store.rules.size id) rule.children
  | .sequence | .optional | .repetition | .capture => rule.children.head?.toList
  | .expression => if (store.tableOf? rule).isSome then rule.children.head?.toList else []

/-- Whether a rule comes to a target at a token of a kind, within a number of steps. -/
def leadsTo (store : Store) (kind : TokenKind) (target : RuleId) : Nat → RuleId → Bool
  | 0, id => id = target
  | steps + 1, id =>
    id = target || store.rules[id]?.any fun rule =>
      (store.firstChildren kind rule).any (store.leadsTo kind target steps)

theorem mem_upTo_append {stops : RuleId → Bool} {earlier later : List RuleId} {id : RuleId}
    (goOn : ∀ other ∈ earlier, stops other = false) :
    id ∈ upTo stops (earlier ++ id :: later) := by
  induction earlier with
  | nil =>
    rw [List.nil_append, upTo]
    split <;> exact List.mem_cons_self
  | cons other rest ih =>
    rw [List.cons_append, upTo, goOn other List.mem_cons_self, if_neg Bool.false_ne_true]
    exact List.mem_cons_of_mem _ (ih fun another mem => goOn another (List.mem_cons_of_mem _ mem))

/-- Before a member of what is taken up to a property, none has it. -/
theorem exists_split_of_mem_upTo {stops : RuleId → Bool} {ids : List RuleId} {id : RuleId}
    (mem : id ∈ upTo stops ids) :
    ∃ earlier later, ids = earlier ++ id :: later ∧ ∀ other ∈ earlier, stops other = false := by
  induction ids with
  | nil => cases mem
  | cons first rest ih =>
    unfold upTo at mem
    split at mem
    next =>
      obtain rfl := List.mem_singleton.mp mem
      exact ⟨[], rest, rfl, by simp⟩
    next goesOn =>
      rcases List.mem_cons.mp mem with rfl | mem
      · exact ⟨[], rest, rfl, by simp⟩
      · obtain ⟨earlier, later, rfl, none⟩ := ih mem
        refine ⟨first :: earlier, later, rfl, ?_⟩
        intro other among
        rcases List.mem_cons.mp among with rfl | among
        · exact eq_false_of_ne_true goesOn
        · exact none other among

end Store

namespace Setting

variable {α ε : Type} {setting : Setting α ε} {kind : TokenKind} {start : Nat}

/-! ## What fails -/

theorem alternation_of_refused {part : RuleId → Nat → Outcome α ε} {alternatives : List RuleId}
    {expected : StringSet} {last : Option Failure}
    (all : ∀ alternative ∈ alternatives, Refused part alternative start)
    (some : alternatives ≠ [] ∨ last ≠ none) :
    ∃ failure position, alternation part start alternatives expected last = .failed failure position := by
  induction alternatives generalizing expected last with
  | nil =>
    cases last with
    | none => simp at some
    | some failure => exact ⟨_, _, rfl⟩
  | cons alternative rest ih =>
    obtain ⟨failure, position, outcome⟩ := all alternative List.mem_cons_self
    rw [alternation, outcome]
    exact ih (fun other mem => all other (List.mem_cons_of_mem _ mem)) (.inr (by simp))

/-- A rule that refuses a kind fails at every token of the kind. -/
theorem refused_of_refuses {depth : Nat} {id : RuleId} (refuses : setting.store.refuses kind depth id = true)
    (next : (setting.buffer.peek start).kind = kind) : Refused (setting.evaluateWithin depth) id start := by
  induction depth generalizing id with
  | zero => cases refuses
  | succ depth ih =>
    simp only [Store.refuses] at refuses
    split at refuses
    next => cases refuses
    next rule found =>
      have first {children : List RuleId}
          (refuses : children.head?.any (setting.store.refuses kind depth) = true) :
          ∃ sub rest failure position, children = sub :: rest ∧
            setting.evaluateWithin depth sub start = .failed failure position := by
        cases children with
        | nil => cases refuses
        | cons sub rest =>
          obtain ⟨failure, position, outcome⟩ : Refused _ sub start := ih refuses
          exact ⟨sub, rest, failure, position, rfl, outcome⟩
      simp only [Refused, evaluateWithin, found]
      cases form : rule.kind with
      | terminal =>
        simp only [form, Bool.not_eq_true'] at refuses
        have unaccepted : setting.accepts rule (setting.buffer.peek start) = false := by
          rw [accepts, next, refuses, Bool.false_and]
        rw [evaluateRule_terminal form]
        simp only [terminal, unaccepted]
        exact ⟨_, _, rfl⟩
      | alternation =>
        simp only [form, Bool.and_eq_true, Bool.not_eq_true', List.isEmpty_eq_false_iff,
          List.all_eq_true] at refuses
        rw [evaluateRule_alternation form]
        exact alternation_of_refused (fun other mem => ih (refuses.2 other mem)) (.inl refuses.1)
      | optional | repetition => simp only [form, Bool.false_eq_true] at refuses
      | sequence =>
        simp only [form] at refuses
        obtain ⟨sub, rest, failure, position, children, outcome⟩ := first refuses
        rw [evaluateRule_sequence form, children, sequence, outcome]
        exact ⟨_, _, rfl⟩
      | capture =>
        simp only [form] at refuses
        obtain ⟨sub, rest, failure, position, children, outcome⟩ := first refuses
        rw [evaluateRule_capture form children, outcome]
        exact ⟨_, _, rfl⟩
      | expression =>
        simp only [form, Bool.and_eq_true, Option.isSome_iff_exists] at refuses
        obtain ⟨⟨table, table?⟩, refuses⟩ := refuses
        obtain ⟨sub, rest, failure, position, children, outcome⟩ := first refuses
        rw [evaluateRule_expression form table? children, expression, outcome]
        exact ⟨_, _, rfl⟩

theorem fails_of_refuses {depth : Nat} {id : RuleId} (refuses : setting.store.refuses kind depth id = true)
    (next : (setting.buffer.peek start).kind = kind) : setting.Fails id start :=
  fails_of_refused (refused_of_refuses refuses next)

theorem not_fails_of_neverFails {depth : Nat} {id : RuleId}
    (never : setting.store.neverFails depth id = true) : ¬ setting.Fails id start := by
  induction depth generalizing id start with
  | zero => cases never
  | succ depth ih =>
    intro fails
    simp only [Store.neverFails] at never
    split at never
    next => cases never
    next rule found =>
      cases kind : rule.kind with
      | optional =>
        simp only [kind, Bool.not_eq_true', List.isEmpty_eq_false_iff] at never
        obtain ⟨sub, rest, children⟩ := List.exists_cons_of_ne_nil never
        exact not_fails_optional found kind children fails
      | repetition =>
        simp only [kind, Bool.not_eq_true', List.isEmpty_eq_false_iff] at never
        obtain ⟨sub, rest, children⟩ := List.exists_cons_of_ne_nil never
        exact not_fails_repetition found kind children fails
      | sequence =>
        simp only [kind, List.all_eq_true] at never
        obtain ⟨component, rest, position, passed, fails⟩ := fails.sequence found kind
        exact ih (never component passed.mem) fails
      | alternation =>
        simp only [kind, List.any_eq_true] at never
        obtain ⟨alternative, mem, never⟩ := never
        exact ih never (fails.alternation found kind alternative mem)
      | capture =>
        simp only [kind] at never
        obtain ⟨sub, isHead, never⟩ := (Option.any_eq_true _ _).mp never
        obtain ⟨rest, children⟩ := List.head?_eq_some_iff.mp isHead
        exact ih never (fails.capture found kind children)
      | terminal | expression => simp only [kind, Bool.false_eq_true] at never

/-! ## What matches -/

/-- A match of a rule starts with a token of the kinds that it starts within. -/
theorem mem_of_startsWithin {kinds : List TokenKind} {depth : Nat} {id : RuleId} {next : Nat}
    (within : setting.store.startsWithin kinds depth id = true)
    (matched : setting.Matches id start next) : (setting.buffer.peek start).kind ∈ kinds := by
  induction depth generalizing id next with
  | zero => cases within
  | succ depth ih =>
    simp only [Store.startsWithin] at within
    split at within
    next => cases within
    next rule found =>
      have first {children : List RuleId}
          (within : children.head?.any (setting.store.startsWithin kinds depth) = true) :
          ∃ sub rest, children = sub :: rest ∧ setting.store.startsWithin kinds depth sub = true := by
        obtain ⟨sub, isHead, within⟩ := (Option.any_eq_true _ _).mp within
        obtain ⟨rest, children⟩ := List.head?_eq_some_iff.mp isHead
        exact ⟨sub, rest, children, within⟩
      cases kind : rule.kind with
      | terminal =>
        simp only [kind, List.all_eq_true, List.contains_iff_mem] at within
        have accepted := (matched.terminal found kind).1
        rw [accepts, Bool.and_eq_true] at accepted
        exact within _ (StringSet.contains_iff.mp accepted.1)
      | alternation =>
        simp only [kind, List.all_eq_true] at within
        obtain ⟨earlier, alternative, later, children, _, matched⟩ := matched.alternation found kind
        have mem : alternative ∈ rule.children := by
          rw [children]
          exact List.mem_append_right _ List.mem_cons_self
        exact ih (within alternative mem) matched
      | optional | repetition => simp only [kind, Bool.false_eq_true] at within
      | sequence =>
        simp only [kind] at within
        obtain ⟨sub, rest, children, within⟩ := first within
        have passed := matched.sequence found kind
        rw [children] at passed
        cases passed with
        | component matched _ => exact ih within matched
      | capture =>
        simp only [kind] at within
        obtain ⟨sub, rest, children, within⟩ := first within
        exact ih within (matched.capture found kind children)
      | expression =>
        simp only [kind] at within
        obtain ⟨sub, rest, children, within⟩ := first within
        cases table? : setting.store.tableOf? rule with
        | none => exact absurd matched (not_matches_of_no_table found kind table?)
        | some table =>
          obtain ⟨_, matched, _⟩ := matched.expression found kind table? children
          exact ih within matched

/-- At no position do two of some rules match. -/
def Exclusive (setting : Setting α ε) (ids : List RuleId) : Prop :=
  ∀ id ∈ ids, ∀ other ∈ ids, ∀ start next next',
    setting.Matches id start next → setting.Matches other start next' → id = other

theorem eq_of_countP_le_one {p : RuleId → Bool} {ids : List RuleId} (one : ids.countP p ≤ 1)
    {id other : RuleId} (mem : id ∈ ids) (has : p id = true) (mem' : other ∈ ids) (has' : p other = true) :
    id = other := by
  have among : id ∈ ids.filter p := List.mem_filter.mpr ⟨mem, has⟩
  have among' : other ∈ ids.filter p := List.mem_filter.mpr ⟨mem', has'⟩
  rw [List.countP_eq_length_filter] at one
  match ids.filter p, among, among', one with
  | [_], among, among', _ => rw [List.mem_singleton.mp among, List.mem_singleton.mp among']

/-- Rules that are told apart by the first token are exclusive. -/
theorem exclusive_of_tellsApart {kinds : List TokenKind} {ids : List RuleId}
    (apart : setting.store.tellsApart kinds ids = true) : setting.Exclusive ids := by
  simp only [Store.tellsApart, Bool.and_eq_true, List.all_eq_true, decide_eq_true_eq] at apart
  obtain ⟨within, one⟩ := apart
  intro id mem other mem' start next next' matched matched'
  have takes {id : RuleId} {next : Nat} (matched : setting.Matches id start next) :
      (!setting.store.refuses (setting.buffer.peek start).kind setting.store.rules.size id) = true := by
    rw [Bool.not_eq_true']
    exact eq_false_of_ne_true fun refuses => matched.not_fails (fails_of_refuses refuses rfl)
  have listed := mem_of_startsWithin (within id mem) matched
  exact eq_of_countP_le_one (one _ listed) mem (takes matched) mem' (takes matched')

/-! ## What is entered -/

/-- The first sub-rules of a rule are entered from it. -/
theorem enters_of_mem_firstChildren {id child : RuleId} {rule : Rule}
    (found : setting.store.rules[id]? = some rule) (mem : child ∈ setting.store.firstChildren kind rule)
    (next : (setting.buffer.peek start).kind = kind) : Enters setting (id, start) (child, start) := by
  have head {children : List RuleId} (mem : child ∈ children.head?.toList) :
      ∃ rest, children = child :: rest := by
    cases children with
    | nil => cases mem
    | cons sub rest =>
      obtain rfl := List.mem_singleton.mp mem
      exact ⟨rest, rfl⟩
  cases form : rule.kind with
  | terminal =>
    simp only [Store.firstChildren, form] at mem
    cases mem
  | alternation =>
    simp only [Store.firstChildren, form] at mem
    obtain ⟨earlier, later, children, refuse⟩ := Store.exists_split_of_mem_upTo mem
    refine .alternative found form children ?_
    intro other among
    exact fails_of_refuses (by simpa using refuse other among) next
  | sequence =>
    simp only [Store.firstChildren, form] at mem
    obtain ⟨rest, children⟩ := head mem
    have passed : Passed setting.Matches rule.children start (child :: rest) start := by
      rw [children]
      exact .none
    exact .component found form passed
  | optional =>
    simp only [Store.firstChildren, form] at mem
    obtain ⟨rest, children⟩ := head mem
    exact .optional found form children
  | repetition =>
    simp only [Store.firstChildren, form] at mem
    obtain ⟨rest, children⟩ := head mem
    exact .element found form children .refl
  | capture =>
    simp only [Store.firstChildren, form] at mem
    obtain ⟨rest, children⟩ := head mem
    exact .capture found form children
  | expression =>
    simp only [Store.firstChildren, form] at mem
    split at mem
    next isSome =>
      obtain ⟨table, table?⟩ := Option.isSome_iff_exists.mp isSome
      obtain ⟨rest, children⟩ := head mem
      exact .operand found form table? children
    next => cases mem

/-- A rule that leads to another at a kind comes to it at every token of the kind. -/
theorem entered_of_leadsTo {steps : Nat} {id target : RuleId}
    (leads : setting.store.leadsTo kind target steps id = true)
    (next : (setting.buffer.peek start).kind = kind) :
    ReflTransGen (Enters setting) (id, start) (target, start) := by
  induction steps generalizing id with
  | zero =>
    obtain rfl := of_decide_eq_true leads
    exact .refl
  | succ steps ih =>
    rw [Store.leadsTo, Bool.or_eq_true, decide_eq_true_eq] at leads
    rcases leads with rfl | leads
    · exact .refl
    · obtain ⟨rule, found, leads⟩ := (Option.any_eq_true _ _).mp leads
      obtain ⟨child, mem, leads⟩ := List.any_eq_true.mp leads
      exact .head (enters_of_mem_firstChildren found mem next) (ih leads)

end Setting

end Grammatic
