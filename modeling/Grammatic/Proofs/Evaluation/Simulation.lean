import Grammatic.Proofs.Evaluation.Budget
import Mathlib.Data.List.Forall2

/-!
# Two evaluations side by side

What does an evaluation depend on? Each answer compares two evaluations: with another factory, over
other tokens, in another store. They are all one simulation. If the rules of two settings are evaluated
alike, their buffers show tokens that the rules do not tell apart at positions that are near each other,
and their factories make related values of related values, then the two settings take the same course,
to outcomes of one form with related values and positions (`Simulates.evaluateWithin_alike`). Mostly the
tokens are the same; where they are not, `TokenAlike` says what of a token a rule looks at.

The budget is the same on both sides, so that one setting runs out of it exactly when the other does.
Only the rules that are `known` have to be alike: a set of rules that holds the sub-rules of its members.
-/

namespace Grammatic

variable {α β ε : Type}

/-- Failures with tokens that are alike and one set of expected kinds, at positions near each other. -/
structure Failure.Alike (shows : Token → Token → Prop) (near : Nat → Nat → Prop)
    (failure failure' : Failure) : Prop where
  position : near failure.position failure'.position
  token : shows failure.token failure'.token
  expected : failure.expected = failure'.expected

/-- Outcomes of one form, with related values and with positions near each other. -/
inductive Outcome.Alike (related : α → β → Prop) (shows : Token → Token → Prop)
    (near : Nat → Nat → Prop) : Outcome α ε → Outcome β ε → Prop
  | matched {value : α} {value' : β} {next next' : Nat} (values : related value value')
      (positions : near next next') :
      Alike related shows near (.matched value next) (.matched value' next')
  | failed {failure failure' : Failure} {next next' : Nat}
      (failures : failure.Alike shows near failure') (positions : near next next') :
      Alike related shows near (.failed failure next) (.failed failure' next')
  | fault {cause : Fault ε} {next next' : Nat} (positions : near next next') :
      Alike related shows near (.fault cause next) (.fault cause next')
  | exhausted : Alike related shows near .exhausted .exhausted

theorem Failure.Alike.eq {failure failure' : Failure} (alike : failure.Alike (· = ·) (· = ·) failure') :
    failure = failure' := by
  obtain ⟨position, token, expected⟩ := alike
  cases failure
  cases failure'
  simp_all only

/-- Outcomes with the same values and positions are the same. -/
theorem Outcome.Alike.eq {outcome outcome' : Outcome α ε}
    (alike : outcome.Alike (· = ·) (· = ·) (· = ·) outcome') : outcome = outcome' := by
  cases alike with
  | matched values positions => rw [values, positions]
  | failed failures positions => rw [failures.eq, positions]
  | fault positions => rw [positions]
  | exhausted => rfl

theorem Outcome.Alike.ne_exhausted {related : α → β → Prop} {shows : Token → Token → Prop}
    {near : Nat → Nat → Prop} {outcome : Outcome α ε} {outcome' : Outcome β ε}
    (alike : outcome.Alike related shows near outcome')
    (ended : outcome ≠ .exhausted) : outcome' ≠ .exhausted := by
  cases alike with
  | matched _ _ | failed _ _ | fault _ => exact nofun
  | exhausted => exact absurd rfl ended

theorem Outcome.Alike.ne_exhausted' {related : α → β → Prop} {shows : Token → Token → Prop}
    {near : Nat → Nat → Prop} {outcome : Outcome α ε} {outcome' : Outcome β ε}
    (alike : outcome.Alike related shows near outcome')
    (ended : outcome' ≠ .exhausted) : outcome ≠ .exhausted := by
  cases alike with
  | matched _ _ | failed _ _ | fault _ => exact nofun
  | exhausted => exact absurd rfl ended

/-- Factories that make related values of related values, and refuse the same nodes. -/
structure Factory.Related (related : α → β → Prop) (factory : Factory α ε) (factory' : Factory β ε) :
    Prop where
  scalar : ∀ s, related (factory.scalar s) (factory'.scalar s)
  list : ∀ {items items'}, List.Forall₂ related items items' →
    related (factory.list items) (factory'.list items')
  node : ∀ tag {children children'}, List.Forall₂ related children children' →
    (∃ made made', factory.node tag children = .ok made ∧ factory'.node tag children' = .ok made' ∧
      related made made') ∨
    ∃ e, factory.node tag children = .error e ∧ factory'.node tag children' = .error e

theorem Factory.Related.refl (factory : Factory α ε) : factory.Related (· = ·) factory where
  scalar _ := rfl
  list same := by
    rw [List.forall₂_eq_eq_eq] at same
    rw [same]
  node tag children children' same := by
    rw [List.forall₂_eq_eq_eq] at same
    subst same
    cases made : factory.node tag children with
    | ok value => exact .inl ⟨value, value, rfl, rfl, rfl⟩
    | error e => exact .inr ⟨e, rfl, rfl⟩

/-- Buffers that show tokens that are alike at positions near each other, and go on near each other. -/
structure TokenBuffer.Parallel (near : Nat → Nat → Prop) (buffer buffer' : TokenBuffer)
    (shows : Token → Token → Prop := (· = ·)) : Prop where
  peek : ∀ {position position'}, near position position' →
    shows (buffer.peek position) (buffer'.peek position')
  advance : ∀ {position position'}, near position position' →
    near (buffer.advance position) (buffer'.advance position')
  /-- Positions are told apart on one side as on the other. -/
  eq_iff : ∀ {start start' next next'}, near start start' → near next next' →
    (next = start ↔ next' = start')

theorem TokenBuffer.Parallel.refl (buffer : TokenBuffer) : buffer.Parallel (· = ·) buffer where
  peek same := by rw [same]
  advance same := by rw [same]
  eq_iff same same' := by rw [same, same']

namespace Setting

/-- Tokens that two rules do not tell apart: both accept them or none does, and what is read of them is the
same, that is the value of a literal and the text of an operator. -/
structure TokenAlike (setting : Setting α ε) (setting' : Setting β ε) (rule rule' : Rule)
    (token token' : Token) : Prop where
  kind : token.kind = token'.kind
  accepts : rule.kind = .terminal → setting.accepts rule token = setting'.accepts rule' token'
  value : rule.kind = .terminal → setting.accepts rule token = true →
    ∀ literal, rule.literal = some literal → literal.value token = literal.value token'
  text : rule.kind = .expression → ∀ table, setting.store.tableOf? rule = some table →
    ∀ operator, table.find? token.kind = some operator → token.text = token'.text

/-- A token is told apart from itself by reserved words only. -/
theorem TokenAlike.of_accepts {setting : Setting α ε} {setting' : Setting β ε} {rule rule' : Rule}
    {token : Token}
    (accepts : rule.kind = .terminal → setting.accepts rule token = setting'.accepts rule' token) :
    TokenAlike setting setting' rule rule' token token :=
  ⟨rfl, accepts, fun _ _ _ _ => rfl, fun _ _ _ _ _ => rfl⟩

/-- Rules that are evaluated alike, and whose sub-rules are known. -/
structure RuleAlike (setting : Setting α ε) (setting' : Setting β ε) (known : RuleId → Prop)
    (shows : Token → Token → Prop) (rule rule' : Rule) : Prop where
  kind : rule.kind = rule'.kind
  tag : rule.tag = rule'.tag
  children : rule.children = rule'.children
  known : ∀ child ∈ rule.children, known child
  kinds : rule.kinds = rule'.kinds
  literal : rule.literal = rule'.literal
  operators : (setting.store.tableOf? rule).map (·.entries) =
    (setting'.store.tableOf? rule').map (·.entries)
  /-- The rules do not tell apart the tokens that there are. -/
  tokens : ∀ position token', shows (setting.buffer.peek position) token' →
    TokenAlike setting setting' rule rule' (setting.buffer.peek position) token'

/-- Settings that evaluate the known rules alike. -/
structure Simulates (setting : Setting α ε) (setting' : Setting β ε) (known : RuleId → Prop)
    (related : α → β → Prop) (near : Nat → Nat → Prop) (shows : Token → Token → Prop := (· = ·)) :
    Prop where
  rules : ∀ id, known id → Option.Rel (RuleAlike setting setting' known shows)
    setting.store.rules[id]? setting'.store.rules[id]?
  factories : setting.factory.Related related setting'.factory
  buffers : setting.buffer.Parallel near setting'.buffer shows

/-- In one store and with one grammar, all rules are alike. -/
theorem simulates_of_store {store : Store} {grammar : Grammar} {factory : Factory α ε}
    {factory' : Factory β ε} {buffer buffer' : TokenBuffer} {related : α → β → Prop}
    {near : Nat → Nat → Prop} (factories : factory.Related related factory')
    (buffers : buffer.Parallel near buffer') :
    Simulates ⟨store, grammar, factory, buffer⟩ ⟨store, grammar, factory', buffer'⟩ (fun _ => True)
      related near where
  rules id _ := by
    cases store.rules[id]? with
    | none => exact .none
    | some rule =>
      refine .some ⟨rfl, rfl, rfl, fun _ _ => trivial, rfl, rfl, rfl, ?_⟩
      rintro position _ rfl
      exact .of_accepts fun _ => rfl
  factories := factories
  buffers := buffers

namespace Simulates

variable {setting : Setting α ε} {setting' : Setting β ε} {known : RuleId → Prop}
  {related : α → β → Prop} {near : Nat → Nat → Prop} {shows : Token → Token → Prop}
  {rule rule' : Rule} {start start' : Nat}

theorem captures_eq (sim : setting.Simulates setting' known related near shows) {id : RuleId}
    (isKnown : known id) : setting.store.captures id = setting'.store.captures id := by
  have rules := sim.rules id isKnown
  unfold Store.captures
  generalize setting.store.rules[id]? = rule? at rules
  generalize setting'.store.rules[id]? = rule?' at rules
  cases rules with
  | none => rfl
  | some alike =>
    simp only [Option.any_some, Rule.captures, alike.kind, alike.literal]

theorem construct_alike (sim : setting.Simulates setting' known related near shows)
    (tag : Option NodeTag) {children : List α} {children' : List β}
    (values : List.Forall₂ related children children') {next next' : Nat}
    (positions : near next next') :
    (setting.construct tag children next).Alike related shows near
      (setting'.construct tag children' next') := by
  unfold construct
  rcases sim.factories.node tag values with ⟨made, made', eq, eq', values⟩ | ⟨e, eq, eq'⟩
  · rw [eq, eq']
    exact .matched values positions
  · rw [eq, eq']
    exact .fault positions

theorem terminal_alike (sim : setting.Simulates setting' known related near shows)
    (alike : RuleAlike setting setting' known shows rule rule') (kind : rule.kind = .terminal)
    (starts : near start start') :
    (setting.terminal rule start).Alike related shows near (setting'.terminal rule' start') := by
  have ends := sim.buffers.advance starts
  have shown := sim.buffers.peek starts
  have tokens := alike.tokens start _ shown
  simp only [terminal, ← tokens.accepts kind, ← alike.literal, ← alike.tag, ← alike.kinds]
  split
  next accepted =>
    cases isLiteral : rule.literal with
    | none => exact .matched (sim.factories.scalar _) ends
    | some literal =>
      simp only [← tokens.value kind accepted literal isLiteral]
      cases literal.value (setting.buffer.peek start) with
      | ok value => exact sim.construct_alike _ (.cons (sim.factories.scalar value) .nil) ends
      | error e => exact .fault ends
  next => exact .failed ⟨starts, shown, rfl⟩ starts

section Loops

variable {part : RuleId → Nat → Outcome α ε} {part' : RuleId → Nat → Outcome β ε}
  {sub : Nat → Outcome α ε} {sub' : Nat → Outcome β ε}

theorem sequence_alike (sim : setting.Simulates setting' known related near shows)
    (parts : ∀ id, known id → ∀ position position', near position position' →
      (part id position).Alike related shows near (part' id position'))
    (tag : rule.tag = rule'.tag) (starts : near start start') {components : List RuleId}
    (areKnown : ∀ id ∈ components, known id) {captured : List α} {captured' : List β}
    (values : List.Forall₂ related captured captured') {position position' : Nat}
    (positions : near position position') :
    (setting.sequence part rule start components captured position).Alike related shows near
      (setting'.sequence part' rule' start' components captured' position') := by
  induction components generalizing captured captured' position position' with
  | nil =>
    have inOrder := List.rel_reverse values
    simp only [sequence, closeSequence, ← tag]
    cases rule.tag with
    | some tag => exact sim.construct_alike _ inOrder positions
    | none =>
      generalize captured.reverse = ordered at inOrder
      generalize captured'.reverse = ordered' at inOrder
      cases inOrder with
      | nil => exact .matched (sim.factories.scalar _) positions
      | cons first _ => exact .matched first positions
  | cons component rest ih =>
    have isKnown := areKnown component List.mem_cons_self
    have first := parts component isKnown position position' positions
    simp only [sequence, ← sim.captures_eq isKnown]
    generalize part component position = outcome at first
    generalize part' component position' = outcome' at first
    cases first with
    | matched value nexts =>
      refine ih (fun id mem => areKnown id (List.mem_cons_of_mem _ mem)) ?_ nexts
      split
      next => exact .cons value values
      next => exact values
    | failed failures _ => exact .failed failures starts
    | fault nexts => exact .fault nexts
    | exhausted => exact .exhausted

theorem alternation_alike
    (parts : ∀ id, known id → ∀ position position', near position position' →
      (part id position).Alike related shows near (part' id position'))
    (starts : near start start') {alternatives : List RuleId}
    (areKnown : ∀ id ∈ alternatives, known id) (expected : StringSet)
    {last last' : Option Failure} (lasts : Option.Rel (Failure.Alike shows near) last last') :
    (alternation part start alternatives expected last).Alike related shows near
      (alternation part' start' alternatives expected last') := by
  induction alternatives generalizing expected last last' with
  | nil =>
    cases lasts with
    | none => exact .fault starts
    | some failures => exact .failed ⟨failures.position, failures.token, rfl⟩ starts
  | cons alternative rest ih =>
    have first := parts alternative (areKnown _ List.mem_cons_self) start start' starts
    simp only [alternation]
    generalize part alternative start = outcome at first
    generalize part' alternative start' = outcome' at first
    cases first with
    | failed failures _ =>
      simp only [← failures.expected]
      exact ih (fun id mem => areKnown id (List.mem_cons_of_mem _ mem)) _ (.some failures)
    | matched value nexts => exact .matched value nexts
    | fault nexts => exact .fault nexts
    | exhausted => exact .exhausted

theorem optional_alike (sim : setting.Simulates setting' known related near shows)
    (starts : near start start')
    (subs : (sub start).Alike related shows near (sub' start')) :
    (setting.optional sub start).Alike related shows near (setting'.optional sub' start') := by
  unfold optional
  generalize sub start = outcome at subs
  generalize sub' start' = outcome' at subs
  cases subs with
  | failed _ _ => exact .matched (sim.factories.scalar _) starts
  | matched value nexts => exact .matched value nexts
  | fault nexts => exact .fault nexts
  | exhausted => exact .exhausted

theorem repetition_alike (sim : setting.Simulates setting' known related near shows)
    (subs : ∀ position position', near position position' →
      (sub position).Alike related shows near (sub' position'))
    (budget : Nat) {elements : List α} {elements' : List β}
    (values : List.Forall₂ related elements elements') {position position' : Nat}
    (positions : near position position') :
    (setting.repetition sub budget elements position).Alike related shows near
      (setting'.repetition sub' budget elements' position') := by
  induction budget generalizing elements elements' position position' with
  | zero => exact .exhausted
  | succ budget ih =>
    have element := subs position position' positions
    simp only [repetition]
    generalize sub position = outcome at element
    generalize sub' position' = outcome' at element
    cases element with
    | failed _ _ => exact .matched (sim.factories.list (List.rel_reverse values)) positions
    | matched value nexts =>
      have values := List.Forall₂.cons value values
      simp only [sim.buffers.eq_iff positions nexts]
      split
      next => exact .matched (sim.factories.list (List.rel_reverse values)) nexts
      next => exact ih values nexts
    | fault nexts => exact .fault nexts
    | exhausted => exact .exhausted

theorem climb_alike (sim : setting.Simulates setting' known related near shows)
    (subs : ∀ position position', near position position' →
      (sub position).Alike related shows near (sub' position'))
    (tag : Option NodeTag) {table table' : OperatorTable} (operators : table.entries = table'.entries)
    (marks : ∀ {position position'}, near position position' →
      (setting.buffer.peek position).kind = (setting'.buffer.peek position').kind ∧
        ∀ operator, table.find? (setting.buffer.peek position).kind = some operator →
          (setting.buffer.peek position).text = (setting'.buffer.peek position').text)
    (budget : Nat) (limit : Option Int) {left : α}
    {left' : β} (lefts : related left left') {position position' : Nat}
    (positions : near position position') :
    (setting.climb sub tag table budget limit left position).Alike related shows near
      (setting'.climb sub' tag table' budget limit left' position') := by
  induction budget generalizing limit left left' position position' with
  | zero => exact .exhausted
  | succ budget ih =>
    have lookup (kind : TokenKind) : table'.find? kind = table.find? kind := by
      rw [OperatorTable.find?, OperatorTable.find?, operators]
    obtain ⟨kinds, texts⟩ := marks positions
    simp only [climb, ← kinds, lookup]
    split
    next => exact .matched lefts positions
    next operator found =>
      rw [← texts operator found]
      split
      next => exact .matched lefts positions
      next =>
        have operand := subs _ _ (sim.buffers.advance positions)
        generalize sub (setting.buffer.advance position) = outcome at operand
        generalize sub' (setting'.buffer.advance position') = outcome' at operand
        cases operand with
        | matched first nexts =>
          have nested := ih (some operator.rightLimit) first nexts
          simp only
          generalize setting.climb sub tag table budget _ _ _ = outcome at nested
          generalize setting'.climb sub' tag table' budget _ _ _ = outcome' at nested
          cases nested with
          | matched right behind =>
            have mark := sim.factories.scalar (.text (setting.buffer.peek position).text)
            rcases sim.factories.node tag (.cons lefts (.cons mark (.cons right .nil))) with
              ⟨made, made', eq, eq', values⟩ | ⟨e, eq, eq'⟩
            · simp only [eq, eq']
              exact ih limit values behind
            · simp only [eq, eq']
              exact .fault behind
          | failed failures behind => exact .failed failures behind
          | fault behind => exact .fault behind
          | exhausted => exact .exhausted
        | failed failures nexts => exact .failed failures nexts
        | fault nexts => exact .fault nexts
        | exhausted => exact .exhausted

theorem expression_alike (sim : setting.Simulates setting' known related near shows)
    (subs : ∀ position position', near position position' →
      (sub position).Alike related shows near (sub' position'))
    (tag : Option NodeTag) {table table' : OperatorTable} (operators : table.entries = table'.entries)
    (marks : ∀ {position position'}, near position position' →
      (setting.buffer.peek position).kind = (setting'.buffer.peek position').kind ∧
        ∀ operator, table.find? (setting.buffer.peek position).kind = some operator →
          (setting.buffer.peek position).text = (setting'.buffer.peek position').text)
    (budget : Nat) (starts : near start start') :
    (setting.expression sub tag table budget start).Alike related shows near
      (setting'.expression sub' tag table' budget start') := by
  have operand := subs start start' starts
  unfold expression
  generalize sub start = outcome at operand
  generalize sub' start' = outcome' at operand
  cases operand with
  | matched first nexts =>
    have chain := sim.climb_alike subs tag operators marks budget none first nexts
    simp only
    generalize setting.climb sub tag table budget _ _ _ = outcome at chain
    generalize setting'.climb sub' tag table' budget _ _ _ = outcome' at chain
    cases chain with
    | matched value behind => exact .matched value behind
    | failed failures _ => exact .failed failures starts
    | fault behind => exact .fault behind
    | exhausted => exact .exhausted
  | failed failures _ => exact .failed failures starts
  | fault nexts => exact .fault nexts
  | exhausted => exact .exhausted

theorem evaluateRule_alike (sim : setting.Simulates setting' known related near shows)
    (parts : ∀ id, known id → ∀ position position', near position position' →
      (part id position).Alike related shows near (part' id position'))
    (alike : RuleAlike setting setting' known shows rule rule') (budget : Nat)
    (starts : near start start') :
    (setting.evaluateRule part budget rule start).Alike related shows near
      (setting'.evaluateRule part' budget rule' start') := by
  have areKnown := alike.known
  unfold evaluateRule
  rw [← alike.kind, ← alike.children]
  cases kind : rule.kind with
  | terminal => exact sim.terminal_alike alike kind starts
  | sequence => exact sim.sequence_alike parts alike.tag starts areKnown .nil starts
  | alternation => exact alternation_alike parts starts areKnown _ .none
  | optional =>
    cases children : rule.children with
    | nil => exact .fault starts
    | cons child _ =>
      have isKnown := areKnown child (by rw [children]; exact List.mem_cons_self)
      exact sim.optional_alike starts (parts child isKnown start start' starts)
  | repetition =>
    cases children : rule.children with
    | nil => exact .fault starts
    | cons child _ =>
      have isKnown := areKnown child (by rw [children]; exact List.mem_cons_self)
      exact sim.repetition_alike (parts child isKnown) budget .nil starts
  | capture =>
    cases children : rule.children with
    | nil => exact .fault starts
    | cons child _ =>
      have isKnown := areKnown child (by rw [children]; exact List.mem_cons_self)
      exact parts child isKnown start start' starts
  | expression =>
    have operators := alike.operators
    have marks (position : Nat) (token' : Token) (shown : shows (setting.buffer.peek position) token') :=
      And.intro (alike.tokens position token' shown).kind ((alike.tokens position token' shown).text kind)
    generalize setting.store.tableOf? rule = table? at operators marks
    generalize setting'.store.tableOf? rule' = table?' at operators
    cases table? with
    | none =>
      obtain rfl := Option.map_eq_none_iff.mp operators.symm
      exact .fault starts
    | some table =>
      obtain ⟨table', rfl, same⟩ := Option.map_eq_some_iff.mp operators.symm
      cases children : rule.children with
      | nil => exact .fault starts
      | cons child _ =>
        have isKnown := areKnown child (by rw [children]; exact List.mem_cons_self)
        rw [← alike.tag]
        refine sim.expression_alike (parts child isKnown) _ same.symm (fun positions => ?_) budget starts
        obtain ⟨kinds, texts⟩ := marks _ _ (sim.buffers.peek positions)
        exact ⟨kinds, texts table rfl⟩

end Loops

/-- Settings that evaluate rules alike take the same course, within any budget. -/
theorem evaluateWithin_alike (sim : setting.Simulates setting' known related near shows) (budget : Nat)
    {id : RuleId} (isKnown : known id) (starts : near start start') :
    (setting.evaluateWithin budget id start).Alike related shows near
      (setting'.evaluateWithin budget id start') := by
  induction budget generalizing id start start' with
  | zero => exact .exhausted
  | succ budget ih =>
    have rules := sim.rules id isKnown
    simp only [evaluateWithin]
    generalize setting.store.rules[id]? = rule? at rules
    generalize setting'.store.rules[id]? = rule?' at rules
    cases rules with
    | none => exact .fault starts
    | some alike =>
      refine sim.evaluateRule_alike ?_ alike budget starts
      intro id isKnown position position' positions
      exact ih isKnown positions

theorem gives (sim : setting.Simulates setting' known related near shows) {id : RuleId}
    (isKnown : known id) (starts : near start start') {outcome : Outcome α ε}
    (given : setting.Gives id start outcome) :
    ∃ outcome', setting'.Gives id start' outcome' ∧ outcome.Alike related shows near outcome' := by
  obtain ⟨ended, budget, rfl⟩ := given
  have alike := sim.evaluateWithin_alike budget isKnown starts
  exact ⟨_, gives_of_evaluateWithin rfl (alike.ne_exhausted ended), alike⟩

theorem gives' (sim : setting.Simulates setting' known related near shows) {id : RuleId}
    (isKnown : known id) (starts : near start start') {outcome' : Outcome β ε}
    (given : setting'.Gives id start' outcome') :
    ∃ outcome, setting.Gives id start outcome ∧ outcome.Alike related shows near outcome' := by
  obtain ⟨ended, budget, rfl⟩ := given
  have alike := sim.evaluateWithin_alike budget isKnown starts
  exact ⟨_, gives_of_evaluateWithin rfl (alike.ne_exhausted' ended), alike⟩

/-- Where positions are the same, so are the failures. -/
theorem gives_failed_iff (sim : setting.Simulates setting' known related (· = ·)) {id : RuleId}
    (isKnown : known id) {failure : Failure} {next : Nat} :
    setting'.Gives id start (.failed failure next) ↔ setting.Gives id start (.failed failure next) := by
  constructor
  · intro given
    obtain ⟨_, given', alike⟩ := sim.gives' isKnown rfl given
    cases alike with
    | failed failures same => exact same ▸ failures.eq ▸ given'
  · intro given
    obtain ⟨_, given', alike⟩ := sim.gives isKnown rfl given
    cases alike with
    | failed failures same => exact same ▸ failures.eq ▸ given'

/-- Where positions are the same, so are the faults. -/
theorem gives_fault_iff (sim : setting.Simulates setting' known related (· = ·)) {id : RuleId}
    (isKnown : known id) {cause : Fault ε} {next : Nat} :
    setting'.Gives id start (.fault cause next) ↔ setting.Gives id start (.fault cause next) := by
  constructor
  · intro given
    obtain ⟨_, given', alike⟩ := sim.gives' isKnown rfl given
    cases alike with
    | fault same => exact same ▸ given'
  · intro given
    obtain ⟨_, given', alike⟩ := sim.gives isKnown rfl given
    cases alike with
    | fault same => exact same ▸ given'

theorem ends_iff (sim : setting.Simulates setting' known related near shows) {id : RuleId}
    (isKnown : known id) (starts : near start start') :
    setting.Ends id start ↔ setting'.Ends id start' := by
  refine ⟨fun ⟨_, given⟩ => ?_, fun ⟨_, given⟩ => ?_⟩
  · obtain ⟨outcome', given', _⟩ := sim.gives isKnown starts given
    exact ⟨outcome', given'⟩
  · obtain ⟨outcome, given', _⟩ := sim.gives' isKnown starts given
    exact ⟨outcome, given'⟩

end Simulates

/-- Where values and positions are the same, so is all that the known rules give. -/
theorem Simulates.gives_iff {setting setting' : Setting α ε} {known : RuleId → Prop}
    (sim : setting.Simulates setting' known (· = ·) (· = ·)) {id : RuleId} (isKnown : known id)
    (start : Nat) (outcome : Outcome α ε) :
    setting'.Gives id start outcome ↔ setting.Gives id start outcome := by
  constructor
  · intro given
    obtain ⟨_, given', alike⟩ := sim.gives' isKnown rfl given
    exact alike.eq ▸ given'
  · intro given
    obtain ⟨_, given', alike⟩ := sim.gives isKnown rfl given
    exact alike.eq ▸ given'

end Setting

end Grammatic
