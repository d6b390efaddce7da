import Grammatic.Grammar.Parser
import Grammatic.Proofs.Evaluation.Position
import Grammatic.Proofs.Evaluation.Steps
import Grammatic.Proofs.Expression.Climbing
import Mathlib.Data.List.Perm.Subperm

/-!
# Rules entered from rules

The evaluation of a rule at a position `Enters` other rules, at that position or further on: the parts
of the rule that its evaluation comes to. An evaluation can go on forever in two ways. It enters a
rule at a position where it is inside that rule already, or an expression `Stalls`: its chain comes to
the end of the tokens, where an operator stands that has an operand, and the end token is not passed.

If an evaluation does neither, then the budget that is computed from the sizes of the store and the
buffer is enough (`evaluate_ends`). The proof walks along the rules that are entered. It carries the
list of the rules that it is inside of at the current position; they are distinct, so there are not
more of them than rules, and the list is empty again whenever the position goes forward.
-/

namespace Grammatic.Setting

open Relation (ReflTransGen TransGen)

variable {α ε : Type}

/-! ## Entering -/

/-- The evaluation of a rule at a position comes to the evaluation of another. -/
inductive Enters (setting : Setting α ε) : RuleId × Nat → RuleId × Nat → Prop
  | component {id component : RuleId} {rule : Rule} {rest : List RuleId} {start position : Nat}
      (found : setting.store.rules[id]? = some rule) (kind : rule.kind = .sequence)
      (passed : Passed setting.Matches rule.children start (component :: rest) position) :
      Enters setting (id, start) (component, position)
  | alternative {id alternative : RuleId} {rule : Rule} {earlier later : List RuleId} {start : Nat}
      (found : setting.store.rules[id]? = some rule) (kind : rule.kind = .alternation)
      (children : rule.children = earlier ++ alternative :: later)
      (failed : ∀ other ∈ earlier, setting.Fails other start) :
      Enters setting (id, start) (alternative, start)
  | optional {id sub : RuleId} {rule : Rule} {rest : List RuleId} {start : Nat}
      (found : setting.store.rules[id]? = some rule) (kind : rule.kind = .optional)
      (children : rule.children = sub :: rest) : Enters setting (id, start) (sub, start)
  | element {id sub : RuleId} {rule : Rule} {rest : List RuleId} {start position : Nat}
      (found : setting.store.rules[id]? = some rule) (kind : rule.kind = .repetition)
      (children : rule.children = sub :: rest)
      (rounds : ReflTransGen (Round (setting.Matches sub)) start position) :
      Enters setting (id, start) (sub, position)
  | capture {id sub : RuleId} {rule : Rule} {rest : List RuleId} {start : Nat}
      (found : setting.store.rules[id]? = some rule) (kind : rule.kind = .capture)
      (children : rule.children = sub :: rest) : Enters setting (id, start) (sub, start)
  | operand {id operand : RuleId} {rule : Rule} {table : OperatorTable} {rest : List RuleId}
      {start : Nat} (found : setting.store.rules[id]? = some rule) (kind : rule.kind = .expression)
      (table? : setting.store.tableOf? rule = some table)
      (children : rule.children = operand :: rest) : Enters setting (id, start) (operand, start)
  | laterOperand {id operand : RuleId} {rule : Rule} {table : OperatorTable} {rest : List RuleId}
      {start next stop : Nat} {first : α} {links : List (Link α)} {operator : Operator}
      (found : setting.store.rules[id]? = some rule) (kind : rule.kind = .expression)
      (table? : setting.store.tableOf? rule = some table)
      (children : rule.children = operand :: rest)
      (matched : setting.Gives operand start (.matched first next))
      (chain : Chain setting operand table next links stop)
      (follows : table.find? (setting.buffer.peek stop).kind = some operator) :
      Enters setting (id, start) (operand, setting.buffer.advance stop)

/-- An expression stalls: at the end of the tokens, which is not passed, its chain has an operator
with an operand. -/
inductive Stalls (setting : Setting α ε) : RuleId × Nat → Prop
  | intro {id operand : RuleId} {rule : Rule} {table : OperatorTable} {rest : List RuleId}
      {start next stop behind : Nat} {first value : α} {links : List (Link α)} {operator : Operator}
      (found : setting.store.rules[id]? = some rule) (kind : rule.kind = .expression)
      (table? : setting.store.tableOf? rule = some table)
      (children : rule.children = operand :: rest)
      (matched : setting.Gives operand start (.matched first next))
      (chain : Chain setting operand table next links stop)
      (atEnd : setting.buffer.atEnd stop = true)
      (follows : table.find? (setting.buffer.peek stop).kind = some operator)
      (again : setting.Gives operand stop (.matched value behind)) : Stalls setting (id, start)

variable {setting : Setting α ε}

theorem reaches_of_passed {components left : List RuleId} {start position : Nat}
    (passed : Passed setting.Matches components start left position) :
    setting.buffer.Reaches start position := by
  induction passed with
  | none => exact .refl _ _
  | component matched _ ih => exact matched.reaches.trans ih

theorem Chain.reaches {operand : RuleId} {table : OperatorTable} {start stop : Nat}
    {links : List (Link α)} (chain : Chain setting operand table start links stop) :
    setting.buffer.Reaches start stop := by
  induction chain with
  | done => exact .refl _ _
  | link _ matched _ ih =>
    exact (TokenBuffer.Reaches.advance _ _).trans (TokenBuffer.Reaches.trans matched.keeps ih)

/-- A round goes forward, not past the end of the tokens. -/
theorem reaches_of_round {sub : RuleId} {start next : Nat} (round : Round (setting.Matches sub) start next) :
    start < next ∧ setting.buffer.Reaches start next := by
  obtain ⟨progress, matched⟩ := round
  have reaches := matched.reaches
  exact ⟨Nat.lt_of_le_of_ne reaches.1 (Ne.symm progress), reaches⟩

theorem reaches_of_rounds {sub : RuleId} {start position : Nat}
    (rounds : ReflTransGen (Round (setting.Matches sub)) start position) :
    setting.buffer.Reaches start position := by
  induction rounds with
  | refl => exact .refl _ _
  | tail _ round ih => exact ih.trans (reaches_of_round round).2

/-- Rules are entered at the position or further on. -/
theorem Enters.reaches {entering entered : RuleId × Nat} (enters : Enters setting entering entered) :
    setting.buffer.Reaches entering.2 entered.2 := by
  cases enters with
  | component _ _ passed => exact reaches_of_passed passed
  | alternative _ _ _ _ => exact .refl _ _
  | optional _ _ _ => exact .refl _ _
  | element _ _ _ rounds => exact reaches_of_rounds rounds
  | capture _ _ _ => exact .refl _ _
  | operand _ _ _ _ => exact .refl _ _
  | laterOperand _ _ _ _ matched chain _ =>
    exact (TokenBuffer.Reaches.trans matched.keeps chain.reaches).trans (.advance _ _)

theorem reaches_of_entered {entering reached : RuleId × Nat}
    (path : ReflTransGen (Enters setting) entering reached) :
    setting.buffer.Reaches entering.2 reached.2 := by
  induction path with
  | refl => exact .refl _ _
  | tail _ enters ih => exact ih.trans enters.reaches

/-- Only the sub-rules of a rule are entered from it. -/
theorem Enters.mem_childrenOf {entering entered : RuleId × Nat}
    (enters : Enters setting entering entered) :
    entered.1 ∈ setting.store.childrenOf entering.1 := by
  have ofFound {id child : RuleId} {rule : Rule} (found : setting.store.rules[id]? = some rule)
      (mem : child ∈ rule.children) : child ∈ setting.store.childrenOf id := by
    rw [Store.childrenOf, found]
    exact mem
  cases enters with
  | component found _ passed => exact ofFound found passed.mem
  | alternative found _ children _ => exact ofFound found (by rw [children]; simp)
  | optional found _ children | capture found _ children =>
    exact ofFound found (by rw [children]; exact List.mem_cons_self)
  | element found _ children _ | operand found _ _ children =>
    exact ofFound found (by rw [children]; exact List.mem_cons_self)
  | laterOperand found _ _ children _ _ _ =>
    exact ofFound found (by rw [children]; exact List.mem_cons_self)

/-! ## Loops end when what they enter does -/

theorem construct_ne_exhausted (tag : Option NodeTag) (children : List α) (position : Nat) :
    setting.construct tag children position ≠ .exhausted := by
  unfold construct
  split <;> exact nofun

theorem terminal_ne_exhausted (rule : Rule) (start : Nat) :
    setting.terminal rule start ≠ .exhausted := by
  unfold terminal
  simp only
  split
  next =>
    split
    next => exact nofun
    next =>
      split
      next => exact construct_ne_exhausted _ _ _
      next => exact nofun
  next => exact nofun

section Loops

variable {budget : Nat}

theorem sequence_ends (rule : Rule) (start : Nat) {components : List RuleId} {position : Nat}
    (ends : ∀ component rest next, Passed setting.Matches components position (component :: rest) next →
      setting.evaluateWithin budget component next ≠ .exhausted) (captured : List α) :
    setting.sequence (setting.evaluateWithin budget) rule start components captured position ≠
      .exhausted := by
  induction components generalizing position captured with
  | nil =>
    simp only [sequence, closeSequence]
    split
    next => exact construct_ne_exhausted _ _ _
    next => simp
  | cons component rest ih =>
    have first := ends component rest position .none
    simp only [sequence]
    cases outcome : setting.evaluateWithin budget component position with
    | matched value next =>
      have matched : setting.Matches component position next :=
        ⟨value, gives_of_evaluateWithin outcome (by simp)⟩
      exact ih (fun _ _ _ passed => ends _ _ _ (.component matched passed)) _
    | failed _ _ | fault _ _ => simp
    | exhausted => exact absurd outcome first

theorem alternation_ends {start : Nat} {alternatives : List RuleId}
    (ends : ∀ earlier alternative later, alternatives = earlier ++ alternative :: later →
      (∀ other ∈ earlier, setting.Fails other start) →
      setting.evaluateWithin budget alternative start ≠ .exhausted)
    (expected : StringSet) (last : Option Failure) :
    alternation (setting.evaluateWithin budget) start alternatives expected last ≠ .exhausted := by
  induction alternatives generalizing expected last with
  | nil => cases last <;> simp [alternation]
  | cons alternative rest ih =>
    have first := ends [] alternative rest rfl (by simp)
    simp only [alternation]
    cases outcome : setting.evaluateWithin budget alternative start with
    | failed failure next =>
      have failed := gives_of_evaluateWithin outcome (by simp)
      refine ih (fun earlier other later split others => ?_) _ _
      refine ends (alternative :: earlier) other later (by rw [split]; rfl) ?_
      intro other mem
      rcases List.mem_cons.mp mem with rfl | mem
      · exact ⟨failure, next, failed⟩
      · exact others other mem
    | matched _ _ | fault _ _ => simp
    | exhausted => exact absurd outcome first

theorem optional_ends {sub : RuleId} {start : Nat}
    (ends : setting.evaluateWithin budget sub start ≠ .exhausted) :
    setting.optional (setting.evaluateWithin budget sub) start ≠ .exhausted := by
  unfold optional
  cases outcome : setting.evaluateWithin budget sub start with
  | matched _ _ | failed _ _ | fault _ _ => exact nofun
  | exhausted => exact absurd outcome ends

/-- Every round but the last goes forward, so there are no more rounds than tokens. -/
theorem repetition_ends {sub : RuleId} {position rounds : Nat}
    (ends : ∀ next, ReflTransGen (Round (setting.Matches sub)) position next →
      setting.evaluateWithin budget sub next ≠ .exhausted)
    (enough : setting.buffer.endFrom position - position < rounds) (elements : List α) :
    setting.repetition (setting.evaluateWithin budget sub) rounds elements position ≠ .exhausted := by
  induction rounds generalizing position elements with
  | zero => exact absurd enough (Nat.not_lt_zero _)
  | succ rounds ih =>
    have first := ends position .refl
    simp only [repetition]
    cases outcome : setting.evaluateWithin budget sub position with
    | matched value next =>
      simp only
      split
      next => simp
      next progress =>
        have round : Round (setting.Matches sub) position next :=
          ⟨progress, value, gives_of_evaluateWithin outcome (by simp)⟩
        obtain ⟨less, le, before⟩ := reaches_of_round round
        refine ih (fun _ more => ends _ (.head round more)) ?_ _
        rw [TokenBuffer.endFrom_eq le before]
        omega
    | failed _ _ | fault _ _ => simp
    | exhausted => exact absurd outcome first

/-- An outcome of the loop of an expression that is none of running out: a match is behind a chain. -/
def Linked (setting : Setting α ε) (operand : RuleId) (table : OperatorTable) (position : Nat) :
    Outcome α ε → Prop
  | .matched _ behind => ∃ links, Chain setting operand table position links behind
  | .failed _ _ | .fault _ _ => True
  | .exhausted => False

theorem Linked.ne_exhausted {operand : RuleId} {table : OperatorTable} {position : Nat}
    {outcome : Outcome α ε} (linked : Linked setting operand table position outcome) :
    outcome ≠ .exhausted := by
  rintro rfl
  exact linked

theorem Linked.append {operand : RuleId} {table : OperatorTable} {position next : Nat}
    {links : List (Link α)} {outcome : Outcome α ε}
    (chain : Chain setting operand table position links next)
    (linked : Linked setting operand table next outcome) :
    Linked setting operand table position outcome := by
  cases outcome with
  | matched value behind =>
    obtain ⟨more, chain'⟩ := linked
    exact ⟨links ++ more, chain.append chain'⟩
  | failed _ _ | fault _ _ => trivial
  | exhausted => exact linked

/-- Every operator with an operand goes forward unless the expression stalls, so the loop does not
nest and go round more often than there are tokens. -/
theorem climb_ends {operand : RuleId} {table : OperatorTable} {position rounds : Nat}
    (ends : ∀ links stop operator, Chain setting operand table position links stop →
      table.find? (setting.buffer.peek stop).kind = some operator →
      setting.evaluateWithin budget operand (setting.buffer.advance stop) ≠ .exhausted)
    (flows : ∀ links stop operator, Chain setting operand table position links stop →
      setting.buffer.atEnd stop = true →
      table.find? (setting.buffer.peek stop).kind = some operator →
      ∀ value behind, ¬ setting.Gives operand stop (.matched value behind))
    (enough : setting.buffer.endFrom position - position < rounds) (tag : Option NodeTag)
    (limit : Option Int) (left : α) :
    Linked setting operand table position
      (setting.climb (setting.evaluateWithin budget operand) tag table rounds limit left position) := by
  induction rounds generalizing position limit left with
  | zero => exact absurd enough (Nat.not_lt_zero _)
  | succ rounds ih =>
    rcases stopsAt_or_takes setting table limit position with stops | ⟨operator, takes⟩
    · rw [climb_of_stopsAt stops]
      exact ⟨[], .done⟩
    · have first := ends [] position operator .done takes.1
      rw [climb_of_takes takes]
      cases outcome : setting.evaluateWithin budget operand (setting.buffer.advance position) with
      | exhausted => exact absurd outcome first
      | failed _ _ | fault _ _ => trivial
      | matched value next =>
        have matched := gives_of_evaluateWithin outcome nofun
        have chain := Chain.link takes.1 matched .done
        have passed : position < setting.buffer.advance position := by
          refine Nat.lt_of_le_of_ne (setting.buffer.le_advance position) fun same => ?_
          rw [← same] at matched
          have atEnd := (setting.buffer.advance_eq_self_iff position).mp same.symm
          exact flows [] position operator .done atEnd takes.1 value next matched
        have reaches : setting.buffer.Reaches (setting.buffer.advance position) next :=
          matched.keeps
        have continues {links : List (Link α)} {behind : Nat} (limit : Option Int) (left : α)
            (le : next ≤ behind) (chain : Chain setting operand table position links behind) :
            Linked setting operand table behind (setting.climb (setting.evaluateWithin budget operand)
              tag table rounds limit left behind) := by
          have reached := chain.reaches
          refine ih (fun _ _ _ more => ends _ _ _ (chain.append more))
            (fun _ _ _ more => flows _ _ _ (chain.append more)) ?_ limit left
          rw [TokenBuffer.endFrom_eq reached.1 reached.2]
          have := reaches.1
          have := reached.2
          omega
        have nested := continues (some operator.rightLimit) value (Nat.le_refl next) chain
        simp only
        cases right : setting.climb (setting.evaluateWithin budget operand) tag table rounds
            (some operator.rightLimit) value next with
        | exhausted => exact absurd right nested.ne_exhausted
        | failed _ _ | fault _ _ => trivial
        | matched rightValue behind =>
          rw [right] at nested
          obtain ⟨links, more⟩ := nested
          have whole := chain.append more
          simp only
          split
          next folded _ => exact (continues limit folded more.reaches.1 whole).append whole
          next => trivial

/-- A rule ends if all that it enters does, its expression does not stall, and there are rounds for
all tokens that are left. -/
theorem evaluateRule_ends {id : RuleId} {rule : Rule} {start : Nat}
    (found : setting.store.rules[id]? = some rule)
    (ends : ∀ entered, Enters setting (id, start) entered →
      setting.evaluateWithin budget entered.1 entered.2 ≠ .exhausted)
    (flows : ¬ Stalls setting (id, start))
    (enough : setting.buffer.endFrom start - start < budget) :
    setting.evaluateRule (setting.evaluateWithin budget) budget rule start ≠ .exhausted := by
  apply evaluateRule_cases (P := fun outcome => outcome ≠ .exhausted)
  case terminal => intro _; exact terminal_ne_exhausted rule start
  case sequence =>
    intro kind
    exact sequence_ends rule start (fun _ _ _ passed => ends _ (.component found kind passed)) []
  case alternation =>
    intro kind
    exact alternation_ends (fun _ _ _ split failed => ends _ (.alternative found kind split failed)) _ _
  case optional =>
    intro sub rest kind children
    exact optional_ends (ends _ (.optional found kind children))
  case repetition =>
    intro sub rest kind children
    exact repetition_ends (fun _ rounds => ends _ (.element found kind children rounds)) enough []
  case capture =>
    intro sub rest kind children
    exact ends _ (.capture found kind children)
  case expression =>
    intro operand rest table kind table? children
    have first := ends _ (.operand found kind table? children)
    unfold expression
    cases outcome : setting.evaluateWithin budget operand start with
    | exhausted => exact absurd outcome first
    | failed _ _ | fault _ _ => exact nofun
    | matched value next =>
      have matched := gives_of_evaluateWithin outcome nofun
      have reaches : setting.buffer.Reaches start next := matched.keeps
      have linked : Linked setting operand table next
          (setting.climb (setting.evaluateWithin budget operand) rule.tag table budget none value
            next) := by
        refine climb_ends ?_ ?_ ?_ rule.tag none value
        · intro links stop operator chain follows
          exact ends _ (.laterOperand found kind table? children matched chain follows)
        · intro links stop operator chain atEnd follows again behind gives
          exact flows (.intro found kind table? children matched chain atEnd follows gives)
        · rw [TokenBuffer.endFrom_eq reaches.1 reaches.2]
          have := reaches.1
          omega
      simp only
      cases climbed : setting.climb (setting.evaluateWithin budget operand) rule.tag table budget
          none value next with
      | exhausted => exact absurd climbed linked.ne_exhausted
      | matched _ _ | failed _ _ | fault _ _ => exact nofun
  case lacking => intro _ _; exact nofun

end Loops

/-! ## Enough budget -/

/-- Distinct numbers of rules are not more than the rules. -/
theorem length_le_of_nodup {active : List RuleId} {size : Nat} (distinct : active.Nodup)
    (below : ∀ id ∈ active, id < size) : active.length ≤ size := by
  have subset : active ⊆ List.range size := fun id mem => List.mem_range.mpr (below id mem)
  have le := (List.subperm_of_subset distinct subset).length_le
  rwa [List.length_range] at le

/-- An evaluation that enters no rule inside itself at one position, and that does not stall, ends
within a budget for the rules that are not active yet and, for each token that is left, all rules. -/
theorem evaluateWithin_ends {root : RuleId × Nat}
    (acyclic : ∀ reached, ReflTransGen (Enters setting) root reached →
      ¬ TransGen (Enters setting) reached reached)
    (flows : ∀ reached, ReflTransGen (Enters setting) root reached → ¬ Stalls setting reached)
    {budget : Nat} {id : RuleId} {start : Nat}
    (reached : ReflTransGen (Enters setting) root (id, start)) {active : List RuleId}
    (distinct : active.Nodup)
    (inside : ∀ outer ∈ active, outer < setting.store.rules.size ∧
      TransGen (Enters setting) (outer, start) (id, start))
    (enough : (setting.store.rules.size + 1) * (setting.buffer.endFrom start - start) +
      (setting.store.rules.size - active.length) + 3 ≤ budget) :
    setting.evaluateWithin budget id start ≠ .exhausted := by
  induction budget generalizing id start active with
  | zero => omega
  | succ budget ih =>
    simp only [evaluateWithin]
    split
    next => simp
    next rule found =>
      have valid : id < setting.store.rules.size := (Array.getElem?_eq_some_iff.mp found).1
      have fresh : id ∉ active := fun mem => acyclic _ reached (inside id mem).2
      have distinct' : (id :: active).Nodup := List.nodup_cons.mpr ⟨fresh, distinct⟩
      have count := length_le_of_nodup distinct' fun outer mem => by
        rcases List.mem_cons.mp mem with rfl | mem
        · exact valid
        · exact (inside outer mem).1
      rw [List.length_cons] at count
      refine evaluateRule_ends found ?_ (flows _ reached) ?_
      · rintro ⟨child, position⟩ enters
        have reached' := reached.tail enters
        obtain ⟨le, before⟩ := enters.reaches
        have sameEnd := TokenBuffer.endFrom_eq le before
        simp only at le before sameEnd ⊢
        rcases Nat.eq_or_lt_of_le le with rfl | forward
        · refine ih reached' distinct' ?_ ?_
          · intro outer mem
            rcases List.mem_cons.mp mem with rfl | mem
            · exact ⟨valid, .single enters⟩
            · exact ⟨(inside outer mem).1, (inside outer mem).2.tail enters⟩
          · rw [List.length_cons]
            omega
        · refine ih reached' List.nodup_nil (by simp) ?_
          rw [sameEnd, List.length_nil]
          have fewer : setting.buffer.endFrom start - position + 1 ≤
              setting.buffer.endFrom start - start := by omega
          have product := Nat.mul_le_mul_left (setting.store.rules.size + 1) fewer
          rw [Nat.mul_succ] at product
          omega
      · have product := Nat.le_mul_of_pos_left (setting.buffer.endFrom start - start)
          (Nat.succ_pos setting.store.rules.size)
        rw [Nat.succ_eq_add_one] at product
        omega

/-- An evaluation that enters no rule inside itself at one position, and that does not stall, ends
within the budget that is computed for it. -/
theorem evaluate_ends {root : RuleId} {start : Nat}
    (acyclic : ∀ reached, ReflTransGen (Enters setting) (root, start) reached →
      ¬ TransGen (Enters setting) reached reached)
    (flows : ∀ reached, ReflTransGen (Enters setting) (root, start) reached →
      ¬ Stalls setting reached) : setting.evaluate root start ≠ .exhausted := by
  refine evaluateWithin_ends acyclic flows .refl List.nodup_nil nofun ?_
  have left : setting.buffer.endFrom start - start ≤ setting.buffer.size := by
    have := setting.buffer.endFrom_le_size start
    unfold TokenBuffer.size
    omega
  have product := Nat.mul_le_mul_left (setting.store.rules.size + 1) left
  rw [List.length_nil, Setting.budget, Nat.mul_succ]
  omega

end Grammatic.Setting
