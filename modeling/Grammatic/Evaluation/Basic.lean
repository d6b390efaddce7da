import Grammatic.Evaluation.Outcome
import Grammatic.Grammar.Store
import Grammatic.Token.Buffer

/-!
# Evaluation of rules

Rules are evaluated by recursive descent with backtracking, and expressions by precedence climbing.
Every way to fail puts the position back to where the rule started, so a failed attempt never leaks
what it consumed. A repetition ends with an element that consumed nothing, which it keeps.

The functions for composite rules take the evaluation of their parts as an argument. The number that
they recur on bounds the nesting of rules and the rounds of each loop; `Setting.evaluate` computes
it from the sizes of the graph and the buffer.
-/

namespace Grammatic

/-- What an evaluation reads: the rules, the grammar they are evaluated with, the way to make
values, and the tokens. -/
structure Setting (α ε : Type) where
  store : Store
  grammar : Grammar
  factory : Factory α ε
  buffer : TokenBuffer

/-- The setting of the grammar with a number, if the store has one. -/
def Store.setting? {α ε : Type} (store : Store) (id : GrammarId) (factory : Factory α ε)
    (buffer : TokenBuffer) : Option (Setting α ε) :=
  store.grammars[id]?.map fun grammar => { store, grammar, factory, buffer }

namespace Setting

variable {α ε : Type}

/-- Whether a word is reserved for a rule. -/
def reserves (setting : Setting α ε) (reserved : Reserved) (word : String) : Bool :=
  match reserved with
  | .none => false
  | .ofGrammar => setting.store.hasWord setting.grammar.words word
  | .words words => setting.store.hasWord words word

/-- A node, as the outcome of a rule that ends at a position. -/
def construct (setting : Setting α ε) (tag : Option NodeTag) (children : List α)
    (position : Nat) : Outcome α ε :=
  match setting.factory.node tag children with
  | .ok value => .matched value position
  | .error e => .fault (.construction e) position

/-- Whether a terminal takes a token. -/
def accepts (setting : Setting α ε) (rule : Rule) (token : Token) : Bool :=
  rule.kinds.contains token.kind && !setting.reserves rule.reserved token.text

/-- Takes the token at a position if the terminal accepts it. -/
def terminal (setting : Setting α ε) (rule : Rule) (position : Nat) : Outcome α ε :=
  let token := setting.buffer.peek position
  if setting.accepts rule token then
    let next := setting.buffer.advance position
    match rule.literal with
    | none => .matched setting.factory.absent next
    | some literal =>
      match literal.value token with
      | .ok value => setting.construct rule.tag [setting.factory.scalar value] next
      | .error e => .fault (.literal e) next
  else .failed ⟨position, token, rule.kinds⟩ position

/-- The value of a sequence that has captured values, in reverse. -/
def closeSequence (setting : Setting α ε) (rule : Rule) (captured : List α) (position : Nat) :
    Outcome α ε :=
  match rule.tag with
  | some tag => setting.construct (some tag) captured.reverse position
  | none => .matched (captured.reverse.head?.getD setting.factory.absent) position

/-- The components of a sequence, one after the other. -/
def sequence (setting : Setting α ε) (part : RuleId → Nat → Outcome α ε) (rule : Rule)
    (start : Nat) : List RuleId → List α → Nat → Outcome α ε
  | [], captured, position => setting.closeSequence rule captured position
  | component :: rest, captured, position =>
    match part component position with
    | .matched value next =>
      sequence setting part rule start rest
        (if setting.store.captures component then value :: captured else captured) next
    | .failed failure _ => .failed failure start
    | .fault cause next => .fault cause next
    | .exhausted => .exhausted

/-- The first alternative that matches. A failure has the position and the token of the last
alternative, and expects what any of them does. -/
def alternation (part : RuleId → Nat → Outcome α ε) (start : Nat) :
    List RuleId → StringSet → Option Failure → Outcome α ε
  | [], _, none => .fault .noAlternatives start
  | [], expected, some last => .failed { last with expected } start
  | alternative :: rest, expected, _ =>
    match part alternative start with
    | .failed failure _ =>
      alternation part start rest (expected.union failure.expected) (some failure)
    | .matched value next => .matched value next
    | .fault cause next => .fault cause next
    | .exhausted => .exhausted

/-- A sub-rule, or nothing. -/
def optional (setting : Setting α ε) (part : Nat → Outcome α ε) (start : Nat) : Outcome α ε :=
  match part start with
  | .failed _ _ => .matched setting.factory.absent start
  | .matched value next => .matched value next
  | .fault cause next => .fault cause next
  | .exhausted => .exhausted

/-- A sub-rule as often as it matches and consumes something. -/
def repetition (setting : Setting α ε) (part : Nat → Outcome α ε) :
    Nat → List α → Nat → Outcome α ε
  | 0, _, _ => .exhausted
  | budget + 1, elements, start =>
    match part start with
    | .failed _ _ => .matched (setting.factory.list elements.reverse) start
    | .matched value next =>
      if next = start then .matched (setting.factory.list (value :: elements).reverse) next
      else repetition setting part budget (value :: elements) next
    | .fault cause next => .fault cause next
    | .exhausted => .exhausted

/-- Folds operators and their right operands into a left operand, as long as they bind no more
loosely than the limit. A right operand that is missing is a failure. -/
def climb (setting : Setting α ε) (operand : Nat → Outcome α ε) (tag : Option NodeTag)
    (table : OperatorTable) : Nat → Option Int → α → Nat → Outcome α ε
  | 0, _, _, _ => .exhausted
  | budget + 1, limit, left, position =>
    let token := setting.buffer.peek position
    match table.find? token.kind with
    | none => .matched left position
    | some operator =>
      if limit.any (· < operator.precedence) then .matched left position
      else
        match operand (setting.buffer.advance position) with
        | .matched first next =>
          match climb setting operand tag table budget (some operator.rightLimit) first next with
          | .matched right next =>
            let mark := setting.factory.scalar (.text token.text)
            match setting.factory.node tag [left, mark, right] with
            | .ok value => climb setting operand tag table budget limit value next
            | .error e => .fault (.construction e) next
          | .failed failure next => .failed failure next
          | .fault cause next => .fault cause next
          | .exhausted => .exhausted
        | .failed failure next => .failed failure next
        | .fault cause next => .fault cause next
        | .exhausted => .exhausted

/-- An operand, and all operators and operands that follow it. -/
def expression (setting : Setting α ε) (operand : Nat → Outcome α ε) (tag : Option NodeTag)
    (table : OperatorTable) (budget : Nat) (start : Nat) : Outcome α ε :=
  match operand start with
  | .matched first next =>
    match climb setting operand tag table budget none first next with
    | .failed failure _ => .failed failure start
    | .matched value next => .matched value next
    | .fault cause next => .fault cause next
    | .exhausted => .exhausted
  | .failed failure _ => .failed failure start
  | .fault cause next => .fault cause next
  | .exhausted => .exhausted

/-- Evaluates a rule, given the evaluation of its parts. -/
def evaluateRule (setting : Setting α ε) (part : RuleId → Nat → Outcome α ε) (budget : Nat)
    (rule : Rule) (start : Nat) : Outcome α ε :=
  match rule.kind, rule.children with
  | .terminal, _ => setting.terminal rule start
  | .sequence, children => setting.sequence part rule start children [] start
  | .alternation, children => alternation part start children .empty none
  | .optional, sub :: _ => setting.optional (part sub) start
  | .repetition, sub :: _ => setting.repetition (part sub) budget [] start
  | .capture, sub :: _ => part sub start
  | .expression, children =>
    match setting.store.tableOf? rule, children with
    | none, _ => .fault .noTable start
    | some table, operand :: _ =>
      setting.expression (part operand) rule.tag table budget start
    | some _, [] => .fault .noSubRule start
  | .optional, [] => .fault .noSubRule start
  | .repetition, [] => .fault .noSubRule start
  | .capture, [] => .fault .noSubRule start

section Equations

variable {setting : Setting α ε} {part : RuleId → Nat → Outcome α ε} {budget : Nat} {rule : Rule}
  {start : Nat} {sub : RuleId} {rest : List RuleId} {table : OperatorTable}

theorem evaluateRule_terminal (kind : rule.kind = .terminal) :
    setting.evaluateRule part budget rule start = setting.terminal rule start := by
  simp only [evaluateRule, kind]

theorem evaluateRule_sequence (kind : rule.kind = .sequence) :
    setting.evaluateRule part budget rule start =
      setting.sequence part rule start rule.children [] start := by
  simp only [evaluateRule, kind]

theorem evaluateRule_alternation (kind : rule.kind = .alternation) :
    setting.evaluateRule part budget rule start =
      alternation part start rule.children .empty none := by
  simp only [evaluateRule, kind]

theorem evaluateRule_optional (kind : rule.kind = .optional) (children : rule.children = sub :: rest) :
    setting.evaluateRule part budget rule start = setting.optional (part sub) start := by
  simp only [evaluateRule, kind, children]

theorem evaluateRule_repetition (kind : rule.kind = .repetition)
    (children : rule.children = sub :: rest) :
    setting.evaluateRule part budget rule start =
      setting.repetition (part sub) budget [] start := by
  simp only [evaluateRule, kind, children]

theorem evaluateRule_capture (kind : rule.kind = .capture) (children : rule.children = sub :: rest) :
    setting.evaluateRule part budget rule start = part sub start := by
  simp only [evaluateRule, kind, children]

theorem evaluateRule_expression (kind : rule.kind = .expression)
    (table? : setting.store.tableOf? rule = some table) (children : rule.children = sub :: rest) :
    setting.evaluateRule part budget rule start =
      setting.expression (part sub) rule.tag table budget start := by
  simp only [evaluateRule, kind, table?, children]

/-- A rule is evaluated by its kind, unless it lacks a part that its kind needs. -/
theorem evaluateRule_cases {P : Outcome α ε → Prop}
    (terminal : rule.kind = .terminal → P (setting.terminal rule start))
    (sequence : rule.kind = .sequence →
      P (setting.sequence part rule start rule.children [] start))
    (alternation : rule.kind = .alternation →
      P (alternation part start rule.children .empty none))
    (optional : ∀ sub rest, rule.kind = .optional → rule.children = sub :: rest →
      P (setting.optional (part sub) start))
    (repetition : ∀ sub rest, rule.kind = .repetition → rule.children = sub :: rest →
      P (setting.repetition (part sub) budget [] start))
    (capture : ∀ sub rest, rule.kind = .capture → rule.children = sub :: rest →
      P (part sub start))
    (expression : ∀ operand rest table, rule.kind = .expression →
      setting.store.tableOf? rule = some table → rule.children = operand :: rest →
      P (setting.expression (part operand) rule.tag table budget start))
    (lacking : ∀ cause,
      (∀ part budget, setting.evaluateRule part budget rule start = .fault cause start) →
      P (.fault cause start)) :
    P (setting.evaluateRule part budget rule start) := by
  cases kind : rule.kind with
  | terminal => rw [evaluateRule_terminal kind]; exact terminal kind
  | sequence => rw [evaluateRule_sequence kind]; exact sequence kind
  | alternation => rw [evaluateRule_alternation kind]; exact alternation kind
  | optional =>
    cases children : rule.children with
    | nil =>
      have stuck (part budget) :
          setting.evaluateRule part budget rule start = .fault .noSubRule start := by
        simp only [evaluateRule, kind, children]
      rw [stuck]; exact lacking _ stuck
    | cons sub rest => rw [evaluateRule_optional kind children]; exact optional _ _ kind children
  | repetition =>
    cases children : rule.children with
    | nil =>
      have stuck (part budget) :
          setting.evaluateRule part budget rule start = .fault .noSubRule start := by
        simp only [evaluateRule, kind, children]
      rw [stuck]; exact lacking _ stuck
    | cons sub rest =>
      rw [evaluateRule_repetition kind children]; exact repetition _ _ kind children
  | capture =>
    cases children : rule.children with
    | nil =>
      have stuck (part budget) :
          setting.evaluateRule part budget rule start = .fault .noSubRule start := by
        simp only [evaluateRule, kind, children]
      rw [stuck]; exact lacking _ stuck
    | cons sub rest => rw [evaluateRule_capture kind children]; exact capture _ _ kind children
  | expression =>
    cases table? : setting.store.tableOf? rule with
    | none =>
      have stuck (part budget) :
          setting.evaluateRule part budget rule start = .fault .noTable start := by
        simp only [evaluateRule, kind, table?]
      rw [stuck]; exact lacking _ stuck
    | some table =>
      cases children : rule.children with
      | nil =>
        have stuck (part budget) :
            setting.evaluateRule part budget rule start = .fault .noSubRule start := by
          simp only [evaluateRule, kind, table?, children]
        rw [stuck]; exact lacking _ stuck
      | cons operand rest =>
        rw [evaluateRule_expression kind table? children]
        exact expression _ _ _ kind table? children

end Equations

/-- Evaluates the rule with a number, within a budget of nested steps. -/
def evaluateWithin (setting : Setting α ε) : Nat → RuleId → Nat → Outcome α ε
  | 0, _, _ => .exhausted
  | budget + 1, id, start =>
    match setting.store.rules[id]? with
    | none => .fault .unknownRule start
    | some rule => setting.evaluateRule (evaluateWithin setting budget) budget rule start

/-- Steps enough for every evaluation that enters no rule twice at one position, nested, and whose
loops consume a token in each round. -/
def budget (setting : Setting α ε) : Nat :=
  (setting.store.rules.size + 1) * (setting.buffer.size + 1) + setting.buffer.size + 2

/-- Evaluates the rule with a number at a position. -/
def evaluate (setting : Setting α ε) (id : RuleId) (start : Nat) : Outcome α ε :=
  setting.evaluateWithin setting.budget id start

end Setting

end Grammatic
