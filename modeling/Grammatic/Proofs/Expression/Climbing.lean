import Grammatic.Factories
import Grammatic.Proofs.Evaluation.Budget
import Grammatic.Proofs.Expression.Grouping

/-!
# Precedence climbing reads a chain and groups it

An expression is evaluated by a loop that calls itself with a limit, and folds as it goes. It gives
what two passes give: read the chain flat, operand by operand, for as long as an operator follows;
then group the chain, which has one grouping (`expression_gives_iff`).

`Climbs` is the loop without its budget: what it ends with, and by which steps. The proof that the
loop groups is an induction on these steps, with an invariant of the tree on the left. The operator
at its top keeps to the limit, and may stand below the operator that follows in the tokens. The
second half is what a nested loop leaves behind: it stops at an operator beyond its limit, and an
operator beyond the right limit of another is one that the other may stand below.
-/

namespace Grammatic

variable {α ε : Type}

/-- Whether an outcome is a match. -/
def Outcome.isMatch : Outcome α ε → Bool
  | .matched _ _ => true
  | .failed _ _ | .fault _ _ | .exhausted => false

/-- An outcome whose failure goes back to a position. -/
def Outcome.backAt (start : Nat) : Outcome α ε → Outcome α ε
  | .failed failure _ => .failed failure start
  | .matched value position => .matched value position
  | .fault cause position => .fault cause position
  | .exhausted => .exhausted

theorem Outcome.backAt_eq_exhausted {start : Nat} {outcome : Outcome α ε} :
    outcome.backAt start = .exhausted ↔ outcome = .exhausted := by
  cases outcome <;> simp [backAt]

namespace Setting

/-- An expression whose first operand matches goes on with the loop, and goes back if that fails. -/
theorem expression_of_matched {setting : Setting α ε} {sub : Nat → Outcome α ε} {first : α}
    {next start : Nat} (matched : sub start = .matched first next) (tag : Option NodeTag)
    (table : OperatorTable) (budget : Nat) :
    setting.expression sub tag table budget start =
      (setting.climb sub tag table budget none first next).backAt start := by
  unfold expression
  rw [matched]
  simp only
  cases setting.climb sub tag table budget none first next <;> rfl

theorem expression_of_lacking {setting : Setting α ε} {sub : Nat → Outcome α ε} {start : Nat}
    (lacking : (sub start).isMatch = false) (tag : Option NodeTag) (table : OperatorTable)
    (budget : Nat) : setting.expression sub tag table budget start = (sub start).backAt start := by
  unfold expression
  cases outcome : sub start with
  | matched _ _ =>
    rw [outcome] at lacking
    exact nomatch lacking
  | failed _ _ | fault _ _ | exhausted => rfl

/-! ## Reading a chain flat -/

/-- Operators of a table from a position on, each with an operand that matches behind it, up to
another position. -/
inductive Chain (setting : Setting α ε) (operand : RuleId) (table : OperatorTable) :
    Nat → List (Link α) → Nat → Prop
  | done {position : Nat} : Chain setting operand table position [] position
  | link {position next stop : Nat} {operator : Operator} {value : α} {links : List (Link α)}
      (found : table.find? (setting.buffer.peek position).kind = some operator)
      (matched : setting.Gives operand (setting.buffer.advance position) (.matched value next))
      (rest : Chain setting operand table next links stop) :
      Chain setting operand table position
        (⟨setting.buffer.peek position, operator, value⟩ :: links) stop

/-- What comes of reading a chain flat and grouping it: one operand, and more for as long as an
operator follows. A chain that lacks an operand gives what the operand does, back at the start. -/
inductive ReadsFlat (setting : Setting α ε) (operand : RuleId) (table : OperatorTable)
    (make : List α → α) (start : Nat) : Outcome α ε → Prop
  | grouped {first : α} {next position : Nat} {links : List (Link α)} {tree : OperatorTree α}
      (matched : setting.Gives operand start (.matched first next))
      (chain : Chain setting operand table next links position)
      (ended : table.find? (setting.buffer.peek position).kind = none)
      (reads : tree.first = first ∧ tree.links = links) (grouped : tree.Grouped) :
      ReadsFlat setting operand table make start
        (.matched (tree.fold setting.factory.scalar make) position)
  | lacksFirst {outcome : Outcome α ε} (gives : setting.Gives operand start outcome)
      (lacking : outcome.isMatch = false) :
      ReadsFlat setting operand table make start (outcome.backAt start)
  | lacksLater {first : α} {next stop : Nat} {links : List (Link α)} {operator : Operator}
      {outcome : Outcome α ε}
      (matched : setting.Gives operand start (.matched first next))
      (chain : Chain setting operand table next links stop)
      (found : table.find? (setting.buffer.peek stop).kind = some operator)
      (gives : setting.Gives operand (setting.buffer.advance stop) outcome)
      (lacking : outcome.isMatch = false) :
      ReadsFlat setting operand table make start (outcome.backAt start)

section

variable {setting : Setting α ε} {operand : RuleId} {tag : Option NodeTag} {table : OperatorTable}
  {make : List α → α}

theorem Chain.append {position middle stop : Nat} {links more : List (Link α)}
    (first : Chain setting operand table position links middle)
    (second : Chain setting operand table middle more stop) :
    Chain setting operand table position (links ++ more) stop := by
  induction first with
  | done => exact second
  | link found matched _ ih => exact .link found matched (ih second)

/-- Nothing can be added to a chain that ends at a position. -/
def Stuck (setting : Setting α ε) (operand : RuleId) (table : OperatorTable) (stop : Nat) : Prop :=
  ∀ operator, table.find? (setting.buffer.peek stop).kind = some operator →
    ∀ value next, ¬ setting.Gives operand (setting.buffer.advance stop) (.matched value next)

theorem stuck_of_none {stop : Nat} (ended : table.find? (setting.buffer.peek stop).kind = none) :
    Stuck setting operand table stop := by
  intro operator found
  rw [ended] at found
  exact nomatch found

theorem stuck_of_lacking {stop : Nat} {outcome : Outcome α ε}
    (gives : setting.Gives operand (setting.buffer.advance stop) outcome)
    (lacking : outcome.isMatch = false) : Stuck setting operand table stop := by
  intro _ _ value next matched
  obtain rfl := gives.unique matched
  exact nomatch lacking

/-- From one position there is one chain to which nothing can be added. -/
theorem Chain.unique {position stop stop' : Nat} {links links' : List (Link α)}
    (chain : Chain setting operand table position links stop)
    (stuck : Stuck setting operand table stop)
    (chain' : Chain setting operand table position links' stop')
    (stuck' : Stuck setting operand table stop') : links = links' ∧ stop = stop' := by
  induction chain generalizing links' with
  | done =>
    cases chain' with
    | done => exact ⟨rfl, rfl⟩
    | link found matched _ => exact absurd matched (stuck _ found _ _)
  | link found matched _ ih =>
    cases chain' with
    | done => exact absurd matched (stuck' _ found _ _)
    | link found' matched' rest' =>
      obtain rfl := Option.some.inj (found.symm.trans found')
      obtain ⟨rfl, rfl⟩ := Outcome.matched.inj (matched.unique matched')
      obtain ⟨rfl, rfl⟩ := ih stuck rest'
      exact ⟨rfl, rfl⟩

/-- Reading flat and grouping has one result at most. -/
theorem ReadsFlat.unique {start : Nat} {outcome outcome' : Outcome α ε}
    (reads : ReadsFlat setting operand table make start outcome)
    (reads' : ReadsFlat setting operand table make start outcome') : outcome = outcome' := by
  cases reads with
  | grouped matched chain ended reads grouped =>
    cases reads' with
    | grouped matched' chain' ended' reads' grouped' =>
      obtain ⟨rfl, rfl⟩ := Outcome.matched.inj (matched.unique matched')
      obtain ⟨rfl, rfl⟩ := chain.unique (stuck_of_none ended) chain' (stuck_of_none ended')
      rw [grouped.eq_group, grouped'.eq_group, reads.1, reads.2, reads'.1, reads'.2]
    | lacksFirst gives lacking =>
      obtain rfl := matched.unique gives
      exact nomatch lacking
    | lacksLater matched' chain' found gives lacking =>
      obtain ⟨rfl, rfl⟩ := Outcome.matched.inj (matched.unique matched')
      obtain ⟨_, rfl⟩ := chain.unique (stuck_of_none ended) chain' (stuck_of_lacking gives lacking)
      exact nomatch ended.symm.trans found
  | lacksFirst gives lacking =>
    cases reads' with
    | lacksFirst gives' _ => rw [gives.unique gives']
    | grouped matched _ _ _ _ | lacksLater matched _ _ _ _ =>
      obtain rfl := gives.unique matched
      exact nomatch lacking
  | lacksLater matched chain found gives lacking =>
    cases reads' with
    | grouped matched' chain' ended _ _ =>
      obtain ⟨rfl, rfl⟩ := Outcome.matched.inj (matched.unique matched')
      obtain ⟨_, rfl⟩ := chain.unique (stuck_of_lacking gives lacking) chain' (stuck_of_none ended)
      exact nomatch ended.symm.trans found
    | lacksFirst gives' lacking' =>
      obtain rfl := matched.unique gives'
      exact nomatch lacking'
    | lacksLater matched' chain' _ gives' lacking' =>
      obtain ⟨rfl, rfl⟩ := Outcome.matched.inj (matched.unique matched')
      obtain ⟨_, rfl⟩ := chain.unique (stuck_of_lacking gives lacking) chain'
        (stuck_of_lacking gives' lacking')
      rw [gives.unique gives']

/-! ## Climbing without a budget -/

/-- The loop takes the operator at a position: it binds no more loosely than the limit. -/
def Takes (setting : Setting α ε) (table : OperatorTable) (limit : Option Int) (position : Nat)
    (operator : Operator) : Prop :=
  table.find? (setting.buffer.peek position).kind = some operator ∧
    ∀ loosest ∈ limit, operator.precedence ≤ loosest

/-- The loop stops at a position: no operator is there, or one beyond the limit. -/
def StopsAt (setting : Setting α ε) (table : OperatorTable) (limit : Option Int)
    (position : Nat) : Prop :=
  ∀ operator, table.find? (setting.buffer.peek position).kind = some operator →
    ∃ loosest ∈ limit, loosest < operator.precedence

theorem not_any_lt_iff {limit : Option Int} {precedence : Int} :
    limit.any (· < precedence) = false ↔ ∀ loosest ∈ limit, precedence ≤ loosest := by
  cases limit with
  | none => simp
  | some loosest => simp

theorem any_lt_iff {limit : Option Int} {precedence : Int} :
    limit.any (· < precedence) = true ↔ ∃ loosest ∈ limit, loosest < precedence := by
  cases limit with
  | none => simp
  | some loosest => simp

theorem stopsAt_or_takes (setting : Setting α ε) (table : OperatorTable) (limit : Option Int)
    (position : Nat) :
    StopsAt setting table limit position ∨ ∃ operator, Takes setting table limit position operator := by
  cases found : table.find? (setting.buffer.peek position).kind with
  | none => exact .inl fun _ other => nomatch found.symm.trans other
  | some operator =>
    cases beyond : limit.any (· < operator.precedence) with
    | true =>
      refine .inl fun other found' => ?_
      obtain rfl := Option.some.inj (found.symm.trans found')
      exact any_lt_iff.mp beyond
    | false => exact .inr ⟨operator, found, not_any_lt_iff.mp beyond⟩

/-- Without a limit the loop stops only where no operator is. -/
theorem find?_eq_none_of_stopsAt {position : Nat} (stops : StopsAt setting table none position) :
    table.find? (setting.buffer.peek position).kind = none := by
  cases found : table.find? (setting.buffer.peek position).kind with
  | none => rfl
  | some operator =>
    obtain ⟨_, limited, _⟩ := stops operator found
    exact nomatch limited

theorem climb_of_stopsAt {sub : Nat → Outcome α ε} {rounds : Nat} {limit : Option Int} {left : α}
    {position : Nat} (stops : StopsAt setting table limit position) :
    setting.climb sub tag table (rounds + 1) limit left position = .matched left position := by
  simp only [climb]
  cases found : table.find? (setting.buffer.peek position).kind with
  | none => rfl
  | some operator =>
    simp only
    rw [if_pos (any_lt_iff.mpr (stops operator found))]

/-- One round of the loop, at an operator that it takes. -/
theorem climb_of_takes {sub : Nat → Outcome α ε} {rounds : Nat} {limit : Option Int} {left : α}
    {position : Nat} {operator : Operator} (takes : Takes setting table limit position operator) :
    setting.climb sub tag table (rounds + 1) limit left position =
      match sub (setting.buffer.advance position) with
      | .matched first next =>
        match setting.climb sub tag table rounds (some operator.rightLimit) first next with
        | .matched right behind =>
          match setting.factory.node tag
              [left, setting.factory.scalar (.text (setting.buffer.peek position).text), right] with
          | .ok value => setting.climb sub tag table rounds limit value behind
          | .error e => .fault (.construction e) behind
        | .failed failure behind => .failed failure behind
        | .fault cause behind => .fault cause behind
        | .exhausted => .exhausted
      | .failed failure next => .failed failure next
      | .fault cause next => .fault cause next
      | .exhausted => .exhausted := by
  obtain ⟨found, within⟩ := takes
  simp only [climb, found]
  exact if_neg (by rw [not_any_lt_iff.mpr within]; exact Bool.false_ne_true)

/-- The steps by which the loop ends, folding from a left operand on, with an outcome. -/
inductive Climbs (setting : Setting α ε) (operand : RuleId) (table : OperatorTable)
    (make : List α → α) : Option Int → α → Nat → Outcome α ε → Prop
  | stops {limit : Option Int} {left : α} {position : Nat}
      (stops : StopsAt setting table limit position) :
      Climbs setting operand table make limit left position (.matched left position)
  | folds {limit : Option Int} {left first right : α} {position next behind : Nat}
      {operator : Operator} {outcome : Outcome α ε}
      (takes : Takes setting table limit position operator)
      (matched : setting.Gives operand (setting.buffer.advance position) (.matched first next))
      (nested : Climbs setting operand table make (some operator.rightLimit) first next
        (.matched right behind))
      (rest : Climbs setting operand table make limit
        (make [left, setting.factory.scalar (.text (setting.buffer.peek position).text), right])
        behind outcome) :
      Climbs setting operand table make limit left position outcome
  | lacks {limit : Option Int} {left : α} {position : Nat} {operator : Operator}
      {outcome : Outcome α ε}
      (takes : Takes setting table limit position operator)
      (gives : setting.Gives operand (setting.buffer.advance position) outcome)
      (lacking : outcome.isMatch = false) :
      Climbs setting operand table make limit left position outcome
  | breaks {limit : Option Int} {left first : α} {position next : Nat} {operator : Operator}
      {outcome : Outcome α ε}
      (takes : Takes setting table limit position operator)
      (matched : setting.Gives operand (setting.buffer.advance position) (.matched first next))
      (nested : Climbs setting operand table make (some operator.rightLimit) first next outcome)
      (lacking : outcome.isMatch = false) :
      Climbs setting operand table make limit left position outcome

/-- The loop ends by steps with an outcome only. -/
theorem Climbs.ne_exhausted {limit : Option Int} {left : α} {position : Nat}
    {outcome : Outcome α ε}
    (climbs : Climbs setting operand table make limit left position outcome) :
    outcome ≠ .exhausted := by
  induction climbs with
  | stops _ => exact nofun
  | folds _ _ _ _ _ ih => exact ih
  | lacks _ gives _ => exact gives.1
  | breaks _ _ _ _ ih => exact ih

/-! ## The loop and its steps -/

section Loop

variable (makes : ∀ children, setting.factory.node tag children = .ok (make children))

include makes

/-- What the loop ends with, it ends with by steps. -/
theorem climbs_of_climb {budget rounds : Nat} {limit : Option Int} {left : α} {position : Nat}
    (ended : setting.climb (setting.evaluateWithin budget operand) tag table rounds limit left
      position ≠ .exhausted) :
    Climbs setting operand table make limit left position
      (setting.climb (setting.evaluateWithin budget operand) tag table rounds limit left position) := by
  induction rounds generalizing limit left position with
  | zero => exact absurd rfl ended
  | succ rounds ih =>
    rcases stopsAt_or_takes setting table limit position with stops | ⟨operator, takes⟩
    · rw [climb_of_stopsAt stops]
      exact .stops stops
    · rw [climb_of_takes takes] at ended ⊢
      cases first : setting.evaluateWithin budget operand (setting.buffer.advance position) with
      | matched value next =>
        have matched := gives_of_evaluateWithin first nofun
        simp only [first] at ended ⊢
        cases right : setting.climb (setting.evaluateWithin budget operand) tag table rounds
            (some operator.rightLimit) value next with
        | matched rightValue behind =>
          have nested := ih (by rw [right]; exact nofun)
          rw [right] at nested
          simp only [right, makes] at ended ⊢
          exact .folds takes matched nested (ih ended)
        | failed _ _ | fault _ _ =>
          have nested := ih (by rw [right]; exact nofun)
          rw [right] at nested
          exact .breaks takes matched nested rfl
        | exhausted =>
          rw [right] at ended
          exact absurd rfl ended
      | failed _ _ | fault _ _ => exact .lacks takes (gives_of_evaluateWithin first nofun) rfl
      | exhausted =>
        rw [first] at ended
        exact absurd rfl ended

/-- What there are steps to, the loop ends with, within every budget that is large enough. -/
theorem climb_of_climbs {limit : Option Int} {left : α} {position : Nat} {outcome : Outcome α ε}
    (climbs : Climbs setting operand table make limit left position outcome) :
    ∃ least, ∀ budget rounds, least ≤ budget → least ≤ rounds →
      setting.climb (setting.evaluateWithin budget operand) tag table rounds limit left position =
        outcome := by
  induction climbs with
  | stops stops =>
    refine ⟨1, fun budget rounds _ enough => ?_⟩
    obtain ⟨rounds, rfl⟩ := Nat.exists_eq_add_of_le' enough
    exact climb_of_stopsAt stops
  | folds takes matched _ _ ihNested ihRest =>
    obtain ⟨leastFirst, first⟩ := matched.eventually
    obtain ⟨leastNested, nested⟩ := ihNested
    obtain ⟨leastRest, rest⟩ := ihRest
    refine ⟨leastFirst + leastNested + leastRest + 1, fun budget rounds enough enough' => ?_⟩
    obtain ⟨rounds, rfl⟩ := Nat.exists_eq_add_of_le' (Nat.le_trans (Nat.le_add_left 1 _) enough')
    rw [climb_of_takes takes, first budget (by omega)]
    simp only
    rw [nested budget rounds (by omega) (by omega)]
    simp only [makes]
    exact rest budget rounds (by omega) (by omega)
  | @lacks _ _ _ _ outcome takes gives lacking =>
    obtain ⟨least, eventually⟩ := gives.eventually
    refine ⟨least + 1, fun budget rounds enough enough' => ?_⟩
    obtain ⟨rounds, rfl⟩ := Nat.exists_eq_add_of_le' (Nat.le_trans (Nat.le_add_left 1 _) enough')
    rw [climb_of_takes takes, eventually budget (by omega)]
    cases outcome with
    | matched _ _ => exact nomatch lacking
    | failed _ _ | fault _ _ | exhausted => rfl
  | @breaks _ _ _ _ _ _ outcome takes matched _ lacking ih =>
    obtain ⟨leastFirst, first⟩ := matched.eventually
    obtain ⟨leastNested, nested⟩ := ih
    refine ⟨leastFirst + leastNested + 1, fun budget rounds enough enough' => ?_⟩
    obtain ⟨rounds, rfl⟩ := Nat.exists_eq_add_of_le' (Nat.le_trans (Nat.le_add_left 1 _) enough')
    rw [climb_of_takes takes, first budget (by omega)]
    simp only
    rw [nested budget rounds (by omega) (by omega)]
    cases outcome with
    | matched _ _ => exact nomatch lacking
    | failed _ _ | fault _ _ | exhausted => rfl

end Loop

/-! ## The steps group the chain -/

/-- A tree that the loop can go on from: it is grouped, the operator at its top keeps to the limit, and
may stand below the operator at the position. -/
structure Ready (setting : Setting α ε) (table : OperatorTable) (limit : Option Int)
    (tree : OperatorTree α) (position : Nat) : Prop where
  grouped : tree.Grouped
  under : tree.Under limit
  below : ∀ upper ∈ tree.top?, ∀ operator,
    table.find? (setting.buffer.peek position).kind = some operator → upper.LeftBelow operator

theorem ready_leaf (value : α) (limit : Option Int) (position : Nat) :
    Ready setting table limit (.leaf value) position :=
  ⟨trivial, nofun, nofun⟩

/-- The loop can go on from a node whose right operand has stopped at the limit of its operator. -/
theorem Ready.node {limit : Option Int} {tree right : OperatorTree α} {position behind : Nat}
    {operator : Operator} (ready : Ready setting table limit tree position)
    (takes : Takes setting table limit position operator) (groupedRight : right.Grouped)
    (underRight : right.Under (some operator.rightLimit))
    (stops : StopsAt setting table (some operator.rightLimit) behind) :
    Ready setting table limit (.node tree (setting.buffer.peek position) operator right) behind := by
  obtain ⟨grouped, _, below⟩ := ready
  obtain ⟨found, within⟩ := takes
  refine ⟨⟨grouped, groupedRight, ?_, ?_⟩, ?_, ?_⟩
  · intro upper atTop
    exact below upper atTop operator found
  · intro lower atTop
    exact Operator.rightBelow_iff.mpr (underRight lower atTop _ rfl)
  · rintro upper ⟨⟩
    exact within
  · rintro upper ⟨⟩ other found'
    obtain ⟨_, ⟨⟩, beyond⟩ := stops other found'
    exact Operator.leftBelow_iff.mpr beyond

/-- What the loop makes of a tree and of the chain behind it. -/
inductive Folds (setting : Setting α ε) (operand : RuleId) (table : OperatorTable)
    (make : List α → α) (limit : Option Int) (tree : OperatorTree α) (position : Nat) :
    Outcome α ε → Prop
  | grouped {whole : OperatorTree α} {links : List (Link α)} {stop : Nat}
      (grouped : whole.Grouped) (under : whole.Under limit)
      (reads : whole.first = tree.first ∧ whole.links = tree.links ++ links)
      (chain : Chain setting operand table position links stop)
      (stops : StopsAt setting table limit stop) :
      Folds setting operand table make limit tree position
        (.matched (whole.fold setting.factory.scalar make) stop)
  | lacks {links : List (Link α)} {stop : Nat} {operator : Operator} {outcome : Outcome α ε}
      (chain : Chain setting operand table position links stop)
      (found : table.find? (setting.buffer.peek stop).kind = some operator)
      (gives : setting.Gives operand (setting.buffer.advance stop) outcome)
      (lacking : outcome.isMatch = false) :
      Folds setting operand table make limit tree position outcome

/-- The loop reads a chain up to where it stops and groups it onto the tree on its left, or it reads
a chain up to an operator without an operand and ends as that operand does. -/
theorem Climbs.folds_of_ready {limit : Option Int} {left : α} {position : Nat}
    {outcome : Outcome α ε} (climbs : Climbs setting operand table make limit left position outcome)
    (tree : OperatorTree α) (value : tree.fold setting.factory.scalar make = left)
    (ready : Ready setting table limit tree position) :
    Folds setting operand table make limit tree position outcome := by
  induction climbs generalizing tree with
  | stops stops =>
    rw [← value]
    exact .grouped ready.grouped ready.under ⟨rfl, (List.append_nil _).symm⟩ .done stops
  | @folds limit left first right position next behind operator outcome takes matched _ _
      ihNested ihRest =>
    generalize nestedOutcome : Outcome.matched right behind = nested at ihNested
    cases ihNested (.leaf first) rfl (ready_leaf _ _ _) with
    | lacks _ _ _ lacking =>
      subst nestedOutcome
      cases lacking
    | @grouped operands links _ groupedRight underRight readsRight chain stops =>
      obtain ⟨rfl, rfl⟩ := Outcome.matched.inj nestedOutcome
      have linked : Chain setting operand table position
          (⟨setting.buffer.peek position, operator, first⟩ :: links) behind :=
        .link takes.1 matched chain
      have rest := ihRest (.node tree (setting.buffer.peek position) operator operands)
        (by rw [OperatorTree.fold, value]) (ready.node takes groupedRight underRight stops)
      cases rest with
      | grouped grouped under reads chain' stops' =>
        refine .grouped grouped under ⟨reads.1, ?_⟩ (linked.append chain') stops'
        rw [reads.2, OperatorTree.links, readsRight.1, readsRight.2, List.append_assoc]
        rfl
      | lacks chain' found gives lacking => exact .lacks (linked.append chain') found gives lacking
  | lacks takes gives lacking => exact .lacks .done takes.1 gives lacking
  | breaks takes matched _ lacking ih =>
    cases ih (.leaf _) rfl (ready_leaf _ _ _) with
    | grouped _ _ _ _ _ => cases lacking
    | lacks chain found gives lacking => exact .lacks (.link takes.1 matched chain) found gives lacking

/-! ## A chain that ends can be climbed -/

/-- A chain ends at a position: no operator is there, or one whose operand does not match. -/
def EndsAt (setting : Setting α ε) (operand : RuleId) (table : OperatorTable) (stop : Nat) : Prop :=
  ∀ operator, table.find? (setting.buffer.peek stop).kind = some operator →
    ∃ outcome, setting.Gives operand (setting.buffer.advance stop) outcome ∧ outcome.isMatch = false

/-- The loop ends on a chain that ends. Where it stops at a limit, no more of the chain is left than
there was. -/
theorem Chain.climbs {position stop : Nat} {links : List (Link α)}
    (chain : Chain setting operand table position links stop)
    (ends : EndsAt setting operand table stop) (make : List α → α) (limit : Option Int) (left : α) :
    ∃ outcome, Climbs setting operand table make limit left position outcome ∧
      ∀ value behind, outcome = .matched value behind →
        ∃ rest, Chain setting operand table behind rest stop ∧ rest.length ≤ links.length := by
  induction bound : links.length using Nat.strongRecOn
    generalizing position links limit left with
  | ind length ih =>
    rcases stopsAt_or_takes setting table limit position with stops | ⟨operator, takes⟩
    · refine ⟨_, .stops stops, ?_⟩
      rintro _ _ ⟨⟩
      exact ⟨links, chain, Nat.le_of_eq bound⟩
    · cases chain with
      | done =>
        obtain ⟨outcome, gives, lacking⟩ := ends operator takes.1
        refine ⟨outcome, .lacks takes gives lacking, ?_⟩
        rintro _ _ rfl
        exact nomatch lacking
      | @link _ next _ _ first rest found matched chain =>
        have shorter : rest.length < length := by
          rw [← bound]
          exact Nat.lt_succ_self _
        obtain ⟨nested, climbs, left'⟩ :=
          ih _ shorter chain (some operator.rightLimit) first rfl
        by_cases isMatch : nested.isMatch
        · cases nested with
          | failed _ _ | fault _ _ | exhausted => exact nomatch isMatch
          | matched right behind =>
            obtain ⟨rest', chain', le⟩ := left' right behind rfl
            obtain ⟨outcome, climbs', left''⟩ := ih _ (Nat.lt_of_le_of_lt le shorter) chain' limit
              (make [left, setting.factory.scalar (.text (setting.buffer.peek position).text), right])
              rfl
            refine ⟨outcome, .folds takes matched climbs climbs', ?_⟩
            intro value behind' same
            obtain ⟨rest'', chain'', le'⟩ := left'' value behind' same
            exact ⟨rest'', chain'', Nat.le_of_lt (Nat.lt_of_le_of_lt (Nat.le_trans le' le) shorter)⟩
        · refine ⟨nested, .breaks takes matched climbs (Bool.not_eq_true _ ▸ isMatch), ?_⟩
          rintro _ _ rfl
          exact absurd rfl isMatch

/-! ## Expressions -/

section Expression

variable {id : RuleId} {rule : Rule} {others : List RuleId}
  (found : setting.store.rules[id]? = some rule) (kind : rule.kind = .expression)
  (children : rule.children = operand :: others)
  (table? : setting.store.tableOf? rule = some table)

include found kind children table?

theorem evaluateWithin_expression (budget start : Nat) :
    setting.evaluateWithin (budget + 1) id start =
      setting.expression (setting.evaluateWithin budget operand) rule.tag table budget start := by
  simp only [evaluateWithin, found]
  exact evaluateRule_expression kind table? children

variable (makes : ∀ children, setting.factory.node rule.tag children = .ok (make children))

include makes

/-- What an expression gives, reading flat and grouping gives. -/
theorem Gives.readsFlat {start : Nat} {outcome : Outcome α ε}
    (gives : setting.Gives id start outcome) :
    ReadsFlat setting operand table make start outcome := by
  obtain ⟨ended, budget, rfl⟩ := gives
  cases budget with
  | zero => exact absurd rfl ended
  | succ budget =>
    rw [evaluateWithin_expression found kind children table?] at ended ⊢
    cases isMatch : (setting.evaluateWithin budget operand start).isMatch with
    | false =>
      rw [expression_of_lacking isMatch] at ended ⊢
      have gives := gives_of_evaluateWithin rfl (mt Outcome.backAt_eq_exhausted.mpr ended)
      exact .lacksFirst gives isMatch
    | true =>
      cases operandOutcome : setting.evaluateWithin budget operand start with
      | failed _ _ | fault _ _ | exhausted =>
        rw [operandOutcome] at isMatch
        exact nomatch isMatch
      | matched first next =>
        have matched := gives_of_evaluateWithin operandOutcome nofun
        rw [expression_of_matched operandOutcome] at ended ⊢
        have climbed := mt Outcome.backAt_eq_exhausted.mpr ended
        have folds :=
          (climbs_of_climb makes climbed).folds_of_ready (.leaf first) rfl (ready_leaf _ _ _)
        generalize setting.climb (setting.evaluateWithin budget operand) rule.tag table budget none
          first next = climbOutcome at folds
        cases folds with
        | grouped grouped _ reads chain stops =>
          exact .grouped matched chain (find?_eq_none_of_stopsAt stops) reads grouped
        | lacks chain found gives lacking => exact .lacksLater matched chain found gives lacking

/-- An expression ends where reading flat does. -/
theorem ReadsFlat.ends {start : Nat} {outcome : Outcome α ε}
    (reads : ReadsFlat setting operand table make start outcome) : setting.Ends id start := by
  have ofChain {first : α} {next stop : Nat} {links : List (Link α)}
      (matched : setting.Gives operand start (.matched first next))
      (chain : Chain setting operand table next links stop)
      (endsAt : EndsAt setting operand table stop) : setting.Ends id start := by
    obtain ⟨climbOutcome, climbs, _⟩ := chain.climbs endsAt make none first
    obtain ⟨leastClimb, climbed⟩ := climb_of_climbs makes climbs
    obtain ⟨leastFirst, first⟩ := matched.eventually
    have evaluated := evaluateWithin_expression found kind children table?
      (leastClimb + leastFirst) start
    rw [expression_of_matched (first _ (Nat.le_add_left _ _)),
      climbed _ _ (Nat.le_add_right _ _) (Nat.le_add_right _ _)] at evaluated
    exact ⟨_, gives_of_evaluateWithin evaluated
      (mt Outcome.backAt_eq_exhausted.mp climbs.ne_exhausted)⟩
  cases reads with
  | grouped matched chain ended _ _ =>
    exact ofChain matched chain fun operator found => nomatch ended.symm.trans found
  | lacksLater matched chain found' gives lacking =>
    exact ofChain matched chain fun operator found => ⟨_, gives, lacking⟩
  | lacksFirst gives lacking =>
    obtain ⟨least, eventually⟩ := gives.eventually
    have first := eventually least (Nat.le_refl least)
    have evaluated := evaluateWithin_expression found kind children table? least start
    rw [expression_of_lacking (by rw [first]; exact lacking), first] at evaluated
    exact ⟨_, gives_of_evaluateWithin evaluated (mt Outcome.backAt_eq_exhausted.mp gives.1)⟩

theorem ReadsFlat.gives {start : Nat} {outcome : Outcome α ε}
    (reads : ReadsFlat setting operand table make start outcome) :
    setting.Gives id start outcome := by
  obtain ⟨outcome', gives⟩ := reads.ends found kind children table? makes
  obtain rfl := reads.unique (gives.readsFlat found kind children table? makes)
  exact gives

end Expression

end

/-- The evaluation of an expression gives what comes of reading the chain flat and grouping it, and
every chain has one grouping. The values of operands are not looked into, and `make` makes the nodes
of the rule. -/
theorem expression_gives_iff {setting : Setting α ε} {id operand : RuleId} {rule : Rule}
    {others : List RuleId} {table : OperatorTable} {make : List α → α}
    (found : setting.store.rules[id]? = some rule) (kind : rule.kind = .expression)
    (children : rule.children = operand :: others)
    (table? : setting.store.tableOf? rule = some table)
    (makes : ∀ children, setting.factory.node rule.tag children = .ok (make children)) :
    (∀ start outcome, setting.Gives id start outcome ↔
      ReadsFlat setting operand table make start outcome) ∧
    ∀ (first : α) (links : List (Link α)), ∃ tree : OperatorTree α,
      (tree.first = first ∧ tree.links = links ∧ tree.Grouped) ∧
        ∀ other : OperatorTree α, other.first = first ∧ other.links = links ∧ other.Grouped →
          other = tree := by
  refine ⟨fun start outcome => ⟨fun gives => ?_, fun reads => ?_⟩, ?_⟩
  · exact gives.readsFlat found kind children table? makes
  · exact reads.gives found kind children table? makes
  · exact OperatorTree.exists_unique_grouping

/-- Names with two operators as tight as each other, one to the left and one to the right. -/
def mixedTies : Store where
  rules := #[
    { kind := .expression, tag := some "binary", children := [1], table := some 0 },
    { kind := .terminal, tag := some "name", kinds := ⟨["name"], by decide⟩, literal := some .name }]
  tables := #[⟨[("plus", ⟨4, .left⟩), ("power", ⟨4, .right⟩)], false⟩]
  closed := by decide

/-- The operator to the left goes below the one to the right, and not the other way. -/
theorem mixedTies_gives :
    let setting : Setting Value Unit :=
      ⟨mixedTies, ⟨.within "", 0, "end_of_text", none⟩, .nodes, .ofTokens [.ofText "name" "a" 0,
        .ofText "plus" "+" 1, .ofText "name" "b" 2, .ofText "power" "^" 3, .ofText "name" "c" 4]⟩
    let name := fun text => Value.node (some "name") [.scalar (.text text)]
    let binary := fun left text right => Value.node (some "binary") [left, .scalar (.text text), right]
    let outcome := .matched (binary (binary (name "a") "+" (name "b")) "^" (name "c")) 5
    setting.Gives 0 0 outcome ∧
      ReadsFlat setting 1 ⟨[("plus", ⟨4, .left⟩), ("power", ⟨4, .right⟩)], false⟩
        (.node (some "binary")) 0 outcome := by
  intro setting name binary outcome
  have gives : setting.Gives 0 0 outcome := ⟨nofun, 4, by rfl⟩
  have reads := (@expression_gives_iff _ _ setting 0 1 _ _ _ _ rfl rfl rfl rfl fun _ => rfl).1
  exact ⟨gives, (reads 0 outcome).mp gives⟩

end Setting

end Grammatic
