import Grammatic.Proofs.Evaluation.Faults
import Grammatic.Proofs.Expression.Climbing
import Grammatic.Proofs.Language.Realization
import Grammatic.Proofs.Token.Spans

/-!
# Rules recognize what forms derive

Rules that realize the forms of a grammar match texts that these forms derive (`Reader.derives`), and
all that one token ahead finds (`Reader.matches`). So ordered choice, greedy repetition and options
that swallow a failure lose nothing of a grammar in which one token ahead decides.

The first is an induction on the budget for nonterminals, and on the form inside it. The second is an
induction on the derivation. In it a rule is shown to match by ruling out that it fails, since every
evaluation ends and none stops with a fault; and an alternative before the one that matches fails
since all it matches starts with another token, which is the first statement again.
-/

namespace Grammatic

open Relation (ReflTransGen)

variable {α ε : Type}

/-- The kind at the start of a stretch of tokens is the kind ahead. -/
theorem TokenBuffer.Spans.kind_eq {buffer : TokenBuffer} {start stop : Nat} {text : List Token}
    (spans : buffer.Spans start text stop) :
    (buffer.peek start).kind = Language.ahead text (buffer.peek stop).kind := by
  cases text with
  | nil =>
    obtain rfl := spans
    rfl
  | cons token rest => rw [spans.1, Language.ahead_cons]

namespace Store

variable {store : Store} {ν : Type} {endKind : TokenKind} {entry : ν → RuleId}

/-- The wrappers that there are. -/
theorem unwrap_cases {P : Place → Place → Prop} (rule : ∀ id, P (.rule id) (.inside id))
    (capture : ∀ id rule sub rest, store.rules[id]? = some rule → rule.kind = .capture →
      rule.children = sub :: rest → P (.inside id) (.rule sub))
    (sequence : ∀ id rule, store.rules[id]? = some rule → rule.kind = .sequence →
      P (.inside id) (.sequence rule.children))
    (alternation : ∀ id rule, store.rules[id]? = some rule → rule.kind = .alternation →
      P (.inside id) (.choice rule.children))
    (component : ∀ id, P (.sequence [id]) (.rule id))
    (alternative : ∀ id, P (.choice [id]) (.rule id)) {outer inner : Place}
    (unwrapped : store.unwrap outer = some inner) : P outer inner := by
  unfold unwrap at unwrapped
  split at unwrapped
  next id =>
    obtain rfl := Option.some.inj unwrapped
    exact rule id
  next id =>
    split at unwrapped
    next => exact nomatch unwrapped
    next rule found =>
      split at unwrapped
      next kind children =>
        obtain rfl := Option.some.inj unwrapped
        exact capture id rule _ _ found kind children
      next _ kind =>
        obtain rfl := Option.some.inj unwrapped
        exact sequence id rule found kind
      next _ kind =>
        obtain rfl := Option.some.inj unwrapped
        exact alternation id rule found kind
      next => exact nomatch unwrapped
  next id =>
    obtain rfl := Option.some.inj unwrapped
    exact component id
  next id =>
    obtain rfl := Option.some.inj unwrapped
    exact alternative id
  next => exact nomatch unwrapped
  next => exact nomatch unwrapped

/-- A rule that wraps something is in the store. -/
theorem lt_size_of_unwrap {id : RuleId} {inner : Place}
    (unwrapped : store.unwrap (.inside id) = some inner) : id < store.rules.size := by
  cases found : store.rules[id]? with
  | none =>
    rw [unwrap, found] at unwrapped
    exact nomatch unwrapped
  | some rule => exact (Array.getElem?_eq_some_iff.mp found).1

/-- A rule inside which there is a place of a rule in the store is in the store. -/
theorem lt_size_of_wraps {id : RuleId} {inner : Place} (wraps : store.Wraps (.inside id) inner)
    (valid : ∀ other, inner = .inside other → other < store.rules.size) : id < store.rules.size := by
  rcases wraps.cases_head with same | ⟨_, unwrapped, _⟩
  · exact valid id same.symm
  · exact lt_size_of_unwrap unwrapped

/-- What a form is realized at, without its wrappers: a rule in the store, an entry, or parts of a
rule. -/
theorem Realizes.exists_wraps {form : Form ν} {place : Place}
    (realizes : store.Realizes endKind entry form place) :
    ∃ inner, store.Wraps place inner ∧ (∀ other, inner = .inside other → other < store.rules.size) ∧
      ∀ other, inner = .rule other → ∃ name, other = entry name := by
  cases realizes with
  | token wraps found _ _ _ _ | unreserved wraps found _ _ _ _ | optional wraps found _ _ _
  | repetition wraps found _ _ _ | chain wraps found _ _ _ _ _ _ =>
    refine ⟨_, wraps, ?_, nofun⟩
    intro other same
    cases same
    exact (Array.getElem?_eq_some_iff.mp found).1
  | symbol wraps =>
    refine ⟨_, wraps, nofun, ?_⟩
    intro other same
    cases same
    exact ⟨_, rfl⟩
  | empty wraps | sequence wraps _ _ | choice wraps _ _ => exact ⟨_, wraps, nofun, nofun⟩

theorem Realizes.lt_size_of_inside {form : Form ν} {id : RuleId}
    (realizes : store.Realizes endKind entry form (.inside id)) : id < store.rules.size := by
  obtain ⟨_, wraps, valid, _⟩ := realizes.exists_wraps
  exact lt_size_of_wraps wraps valid

end Store

/-- A rule that realizes a form is in the store. -/
theorem Store.Realization.lt_size {store : Store} {grammar : Grammar} {endKind : TokenKind} {ν : Type}
    {language : Language ν} {entry : ν → RuleId}
    (realization : store.Realization grammar endKind language entry) {form : Form ν} {id : RuleId}
    (realizes : store.Realizes endKind entry form (.rule id)) : id < store.rules.size := by
  obtain ⟨_, wraps, valid, entered⟩ := realizes.exists_wraps
  rcases wraps.cases_head with same | ⟨_, unwrapped, wraps⟩
  · obtain ⟨name, rfl⟩ := entered id same.symm
    exact (realization.rules name).lt_size_of_inside
  · obtain rfl := Option.some.inj unwrapped
    exact lt_size_of_wraps wraps valid

namespace Setting

variable {setting : Setting α ε} {ν : Type} {language : Language ν} {lead tail : ν → List TokenKind}
  {entry : ν → RuleId}

/-! ## What is matched is derived -/

/-- The rules at a place have matched, with their parts evaluated within a budget. -/
def TookAt (setting : Setting α ε) (budget : Nat) : Place → Nat → Nat → Prop
  | .rule id, start, next => Took (setting.evaluateWithin budget) id start next
  | .inside id, start, next => Took (setting.evaluateWithin (budget + 1)) id start next
  | .sequence ids, start, next => Passed (Took (setting.evaluateWithin budget)) ids start [] next
  | .choice ids, start, next => ∃ id ∈ ids, Took (setting.evaluateWithin budget) id start next

section Within

variable {budget : Nat} {start next : Nat}

theorem evaluateWithin_succ {id : RuleId} {rule : Rule} (found : setting.store.rules[id]? = some rule)
    (budget start : Nat) : setting.evaluateWithin (budget + 1) id start =
      setting.evaluateRule (setting.evaluateWithin budget) budget rule start := by
  simp only [evaluateWithin, found]

theorem tookAt_of_unwrap {outer inner : Place} (unwrapped : setting.store.unwrap outer = some inner)
    (took : setting.TookAt budget outer start next) : setting.TookAt budget inner start next := by
  revert took
  refine Store.unwrap_cases (P := fun outer inner => setting.TookAt budget outer start next →
    setting.TookAt budget inner start next) ?rule ?capture ?sequence ?alternation ?component
    ?alternative unwrapped
  case rule =>
    rintro id ⟨value, evaluated⟩
    have ended : setting.evaluateWithin budget id start ≠ .exhausted := by
      rw [evaluated]; exact nofun
    exact ⟨value, (evaluateWithin_mono (Nat.le_succ budget) id start ended).trans evaluated⟩
  case capture =>
    rintro id rule sub rest found kind children ⟨value, evaluated⟩
    rw [evaluateWithin_succ found, evaluateRule_capture kind children] at evaluated
    exact ⟨value, evaluated⟩
  case sequence =>
    rintro id rule found kind ⟨value, evaluated⟩
    rw [evaluateWithin_succ found, evaluateRule_sequence kind] at evaluated
    exact sequence_matched evaluated
  case alternation =>
    rintro id rule found kind ⟨value, evaluated⟩
    rw [evaluateWithin_succ found, evaluateRule_alternation kind] at evaluated
    obtain ⟨earlier, alternative, later, same, -, matched⟩ := alternation_matched evaluated
    refine ⟨alternative, ?_, value, matched⟩
    rw [same]
    exact List.mem_append_right _ List.mem_cons_self
  case component =>
    rintro id took
    cases took with
    | component taken passed =>
      cases passed
      exact taken
  case alternative =>
    rintro id ⟨other, mem, took⟩
    obtain rfl := List.mem_singleton.mp mem
    exact took

theorem tookAt_of_wraps {outer inner : Place} (wraps : setting.store.Wraps outer inner)
    (took : setting.TookAt budget outer start next) : setting.TookAt budget inner start next := by
  induction wraps with
  | refl => exact took
  | tail _ unwrapped ih => exact tookAt_of_unwrap unwrapped ih

/-- A terminal at a place has taken one token, of one of its kinds and not reserved. -/
theorem token_of_tookAt {place : Place} {id : RuleId} {rule : Rule} {kinds : List TokenKind}
    (took : setting.TookAt budget place start next) (wraps : setting.store.Wraps place (.inside id))
    (found : setting.store.rules[id]? = some rule) (kind : rule.kind = .terminal)
    (same : ∀ kind, kind ∈ rule.kinds ↔ kind ∈ kinds) (notEnd : setting.buffer.endKind ∉ kinds) :
    (setting.buffer.peek start).kind ∈ kinds ∧
      setting.reserves rule.reserved (setting.buffer.peek start).text = false ∧
        setting.buffer.Spans start [setting.buffer.peek start] next := by
  obtain ⟨value, evaluated⟩ := tookAt_of_wraps wraps took
  rw [evaluateWithin_succ found, evaluateRule_terminal kind] at evaluated
  obtain ⟨accepted, advanced⟩ := terminal_matched evaluated
  simp only [accepts, Bool.and_eq_true, Bool.not_eq_true'] at accepted
  have mem := (same _).mp (StringSet.contains_iff.mp accepted.1)
  have inside := TokenBuffer.not_atEnd_of_mem notEnd mem
  rw [TokenBuffer.advance_of_not_atEnd inside] at advanced
  exact ⟨mem, accepted.2, rfl, inside, advanced⟩

/-- Rounds of a form, up to a position, are a text of its repetition. -/
theorem derives_of_rounds {takes : Nat → Nat → Prop} {form : Form ν}
    (part : ∀ {start next}, takes start next →
      ∃ text, Language.Derives language form text ∧ setting.buffer.Spans start text next)
    (rounds : ReflTransGen (Round takes) start next) :
    ∃ text, Language.Derives language (.repetition form) text ∧
      setting.buffer.Spans start text next := by
  induction rounds using ReflTransGen.head_induction_on with
  | refl => exact ⟨[], .done, rfl⟩
  | head round _ ih =>
    obtain ⟨text, first, spans⟩ := part round.2
    obtain ⟨more, rest, behind⟩ := ih
    exact ⟨text ++ more, .round first rest, TokenBuffer.spans_append.mpr ⟨_, spans, behind⟩⟩

/-- An operand, and operators with operands behind it, are a text of a chain. -/
theorem derives_of_operates {takes : Nat → Nat → Prop} {form : Form ν} {operators : List TokenKind}
    {table : OperatorTable}
    (same : ∀ kind, (∃ operator, table.find? kind = some operator) ↔ kind ∈ operators)
    (notEnd : setting.buffer.endKind ∉ operators)
    (part : ∀ {start next}, takes start next →
      ∃ text, Language.Derives language form text ∧ setting.buffer.Spans start text next)
    {middle : Nat} (path : ReflTransGen (setting.Operates table takes) middle next)
    (first : takes start middle) :
    ∃ text, Language.Derives language (.chain form operators) text ∧
      setting.buffer.Spans start text next := by
  induction path using ReflTransGen.head_induction_on generalizing start with
  | refl =>
    obtain ⟨text, derives, spans⟩ := part first
    exact ⟨text, .operand derives, spans⟩
  | @head middle behind operates _ ih =>
    have mem := (same _).mp operates.1
    have inside := TokenBuffer.not_atEnd_of_mem notEnd mem
    obtain ⟨text, derives, spans⟩ := part first
    have second := operates.2
    rw [TokenBuffer.advance_of_not_atEnd inside] at second
    obtain ⟨more, rest, spans'⟩ := ih second
    exact ⟨text ++ setting.buffer.peek middle :: more, .operation derives mem rest,
      TokenBuffer.spans_append.mpr ⟨middle, spans, rfl, inside, spans'⟩⟩

/-- What the rules at a place have matched is derived from their form, if this is so for all entries
within the same budget. -/
theorem derives_of_tookAt (realization : setting.store.Realization setting.grammar
      setting.buffer.endKind language entry)
    (entries : ∀ name {start next}, Took (setting.evaluateWithin budget) (entry name) start next →
      ∃ text, Language.Derives language (.symbol name) text ∧ setting.buffer.Spans start text next)
    {form : Form ν} {place : Place}
    (realizes : setting.store.Realizes setting.buffer.endKind entry form place) {start next : Nat}
    (took : setting.TookAt budget place start next) :
    ∃ text, Language.Derives language form text ∧ setting.buffer.Spans start text next := by
  induction realizes generalizing start next with
  | token wraps found kind same notEnd _ =>
    obtain ⟨mem, -, spans⟩ := token_of_tookAt took wraps found kind same notEnd
    exact ⟨_, .token mem, spans⟩
  | unreserved wraps found kind same notEnd reserved =>
    obtain ⟨mem, free, spans⟩ := token_of_tookAt took wraps found kind same notEnd
    rw [reserved, reserves, realization.reserved] at free
    exact ⟨_, .unreserved mem free, spans⟩
  | symbol wraps => exact entries _ (tookAt_of_wraps wraps took)
  | empty wraps =>
    cases tookAt_of_wraps wraps took
    exact ⟨[], .empty, rfl⟩
  | sequence wraps _ _ ihFirst ihSecond =>
    cases tookAt_of_wraps wraps took with
    | component taken passed =>
      obtain ⟨text, first, spans⟩ := ihFirst taken
      obtain ⟨more, second, spans'⟩ := ihSecond passed
      exact ⟨text ++ more, .sequence first second, TokenBuffer.spans_append.mpr ⟨_, spans, spans'⟩⟩
  | choice wraps _ _ ihFirst ihSecond =>
    obtain ⟨id, mem, taken⟩ := tookAt_of_wraps wraps took
    rcases List.mem_cons.mp mem with rfl | mem
    · obtain ⟨text, derives, spans⟩ := ihFirst taken
      exact ⟨text, .left derives, spans⟩
    · obtain ⟨text, derives, spans⟩ := ihSecond ⟨id, mem, taken⟩
      exact ⟨text, .right derives, spans⟩
  | optional wraps found kind children _ ih =>
    obtain ⟨value, evaluated⟩ := tookAt_of_wraps wraps took
    rw [evaluateWithin_succ found, evaluateRule_optional kind children] at evaluated
    rcases optional_matched evaluated with matched | ⟨-, -, rfl⟩
    · obtain ⟨text, derives, spans⟩ := ih ⟨value, matched⟩
      exact ⟨text, .taken derives, spans⟩
    · exact ⟨[], .omitted, rfl⟩
  | repetition wraps found kind children _ ih =>
    obtain ⟨value, evaluated⟩ := tookAt_of_wraps wraps took
    rw [evaluateWithin_succ found, evaluateRule_repetition kind children] at evaluated
    exact derives_of_rounds ih (repetition_matched evaluated).1
  | chain wraps found kind table? children same notEnd _ ih =>
    obtain ⟨value, evaluated⟩ := tookAt_of_wraps wraps took
    rw [evaluateWithin_succ found, evaluateRule_expression kind table? children] at evaluated
    obtain ⟨middle, first, path⟩ := expression_matched evaluated
    exact derives_of_operates same notEnd ih path first

/-- What an entry has matched within a budget is derived from its nonterminal. -/
theorem derives_of_took (realization : setting.store.Realization setting.grammar
      setting.buffer.endKind language entry) (name : ν)
    (took : Took (setting.evaluateWithin budget) (entry name) start next) :
    ∃ text, Language.Derives language (.symbol name) text ∧ setting.buffer.Spans start text next := by
  induction budget generalizing name start next with
  | zero =>
    obtain ⟨_, evaluated⟩ := took
    exact nomatch evaluated
  | succ budget ih =>
    have inside : setting.TookAt budget (.inside (entry name)) start next := took
    obtain ⟨text, derives, spans⟩ :=
      derives_of_tookAt realization (fun name _ _ => ih name) (realization.rules name) inside
    exact ⟨text, .symbol derives, spans⟩

end Within

/-! ## What one token ahead finds is matched -/

/-- A setting in which the rules realize a grammar, every evaluation ends within the budget that is
computed for it, and none stops with a fault. -/
structure Reader (setting : Setting α ε) (language : Language ν) (entry : ν → RuleId) : Prop where
  realization : setting.store.Realization setting.grammar setting.buffer.endKind language entry
  faultless : Faultless setting
  ends : ∀ id start, setting.evaluate id start ≠ .exhausted

/-- The first of some alternatives that does not fail matches. -/
inductive Chosen (setting : Setting α ε) (start next : Nat) : List RuleId → Prop
  | here {alternative : RuleId} {rest : List RuleId}
      (matched : setting.Matches alternative start next) :
      Chosen setting start next (alternative :: rest)
  | later {alternative : RuleId} {rest : List RuleId} (fails : setting.Fails alternative start)
      (chosen : Chosen setting start next rest) : Chosen setting start next (alternative :: rest)

/-- The rules at a place match. -/
def MatchesAt (setting : Setting α ε) : Place → Nat → Nat → Prop
  | .rule id, start, next => setting.Matches id start next
  | .inside id, start, next => setting.Matches id start next
  | .sequence ids, start, next => Passed setting.Matches ids start [] next
  | .choice ids, start, next => setting.Chosen start next ids

section Without

variable {start next : Nat}

theorem chosen_of_split {earlier later : List RuleId} {alternative : RuleId}
    (fails : ∀ other ∈ earlier, setting.Fails other start)
    (matched : setting.Matches alternative start next) :
    setting.Chosen start next (earlier ++ alternative :: later) := by
  induction earlier with
  | nil => exact .here matched
  | cons other rest ih =>
    apply Chosen.later (fails other List.mem_cons_self)
    apply ih
    intro another mem
    exact fails another (List.mem_cons_of_mem _ mem)

theorem Chosen.unique {ids : List RuleId} {next' : Nat} (chosen : setting.Chosen start next ids)
    (chosen' : setting.Chosen start next' ids) : next = next' := by
  induction chosen with
  | here matched =>
    cases chosen' with
    | here matched' => exact matched.unique matched'
    | later fails _ => exact absurd fails matched.not_fails
  | later fails _ ih =>
    cases chosen' with
    | here matched => exact absurd fails matched.not_fails
    | later _ chosen' => exact ih chosen'

theorem Chosen.not_all_fail {ids : List RuleId} (chosen : setting.Chosen start next ids) :
    ¬ ∀ id ∈ ids, setting.Fails id start := by
  intro all
  induction chosen with
  | here matched => exact matched.not_fails (all _ List.mem_cons_self)
  | later _ _ ih =>
    apply ih
    intro id mem
    exact all id (List.mem_cons_of_mem _ mem)

/-- Rounds do not go on from where a repetition stops. -/
theorem eq_of_rounds {sub : RuleId} (stops : setting.Fails sub start ∨ setting.Matches sub start start)
    (rounds : ReflTransGen (Round (setting.Matches sub)) start next) : next = start := by
  rcases rounds.cases_head with same | ⟨behind, ⟨progress, matched⟩, _⟩
  · exact same.symm
  · rcases stops with fails | idle
    · exact absurd fails matched.not_fails
    · exact absurd (matched.unique idle) progress

/-- A repetition stops at one position. -/
theorem rounds_unique {sub : RuleId} {next' : Nat}
    (rounds : ReflTransGen (Round (setting.Matches sub)) start next)
    (stops : setting.Fails sub next ∨ setting.Matches sub next next)
    (rounds' : ReflTransGen (Round (setting.Matches sub)) start next')
    (stops' : setting.Fails sub next' ∨ setting.Matches sub next' next') : next = next' := by
  have unique : Relator.RightUnique (Round (setting.Matches sub)) :=
    fun _ _ _ first second => first.2.unique second.2
  rcases rounds.total_of_right_unique unique rounds' with more | more
  · exact (eq_of_rounds stops more).symm
  · exact eq_of_rounds stops' more

namespace Reader

variable (reader : setting.Reader language entry)

include reader

theorem decides {id : RuleId} (valid : id < setting.store.rules.size) (start : Nat) :
    (∃ next, setting.Matches id start next) ∨ setting.Fails id start :=
  reader.faultless.decides valid (ends_of_evaluateWithin (reader.ends id start))

/-- What a rule matches is derived from the form that it realizes. -/
theorem derives {form : Form ν} {id : RuleId}
    (realizes : setting.store.Realizes setting.buffer.endKind entry form (.rule id))
    (matched : setting.Matches id start next) :
    ∃ text, Language.Derives language form text ∧ setting.buffer.Spans start text next := by
  obtain ⟨value, _, budget, evaluated⟩ := matched
  have took : setting.TookAt budget (.rule id) start next := ⟨value, evaluated⟩
  exact derives_of_tookAt reader.realization (fun name _ _ => derives_of_took reader.realization name)
    realizes took

/-- A rule fails at a token with which no text of its form starts. -/
theorem fails (solid : ∀ name, (language.rules name).nullable = false)
    (leads : ∀ name, (language.rules name).first lead ⊆ lead name) {form : Form ν} {id : RuleId}
    (realizes : setting.store.Realizes setting.buffer.endKind entry form (.rule id))
    (some : form.nullable = false) (other : (setting.buffer.peek start).kind ∉ form.first lead) :
    setting.Fails id start := by
  rcases reader.decides (reader.realization.lt_size realizes) start with ⟨next, matched⟩ | fails
  · obtain ⟨text, derives, spans⟩ := reader.derives realizes matched
    rw [spans.kind_eq] at other
    have nullable := (derives.nullable_of_not_mem solid leads other).2
    rw [some] at nullable
    exact nomatch nullable
  · exact fails

theorem matchesAt_of_unwrap {outer inner : Place}
    (unwrapped : setting.store.unwrap outer = some inner)
    (matched : setting.MatchesAt inner start next) : setting.MatchesAt outer start next := by
  have valid {id : RuleId} {rule : Rule} (found : setting.store.rules[id]? = some rule) :
      id < setting.store.rules.size := (Array.getElem?_eq_some_iff.mp found).1
  revert matched
  refine Store.unwrap_cases (P := fun outer inner => setting.MatchesAt inner start next →
    setting.MatchesAt outer start next) ?rule ?capture ?sequence ?alternation ?component
    ?alternative unwrapped
  case rule =>
    intro id matched
    exact matched
  case capture =>
    intro id rule sub rest found kind children matched
    rcases reader.decides (valid found) start with ⟨next', whole⟩ | fails
    · obtain rfl := matched.unique (whole.capture found kind children)
      exact whole
    · exact absurd (fails.capture found kind children) (Matches.not_fails matched)
  case sequence =>
    intro id rule found kind (passed : Passed setting.Matches rule.children start [] next)
    have unique {id : RuleId} {start next next' : Nat} (first : setting.Matches id start next)
        (second : setting.Matches id start next') : next = next' := first.unique second
    rcases reader.decides (valid found) start with ⟨next', whole⟩ | fails
    · obtain rfl := passed.unique @unique (whole.sequence found kind)
      exact whole
    · obtain ⟨component, rest, position, passed', fails⟩ := fails.sequence found kind
      obtain ⟨_, matched⟩ := passed'.taken_of_all @unique passed
      exact absurd fails matched.not_fails
  case alternation =>
    intro id rule found kind chosen
    rcases reader.decides (valid found) start with ⟨next', whole⟩ | fails
    · obtain ⟨earlier, alternative, later, same, failed, matched⟩ := whole.alternation found kind
      have chosen' : setting.Chosen start next' rule.children := by
        rw [same]
        exact chosen_of_split failed matched
      obtain rfl := Chosen.unique chosen chosen'
      exact whole
    · exact absurd (fails.alternation found kind) (Chosen.not_all_fail chosen)
  case component =>
    intro id matched
    exact .component matched .none
  case alternative =>
    intro id matched
    exact .here matched

theorem matchesAt_of_wraps {outer inner : Place} (wraps : setting.store.Wraps outer inner)
    (matched : setting.MatchesAt inner start next) : setting.MatchesAt outer start next := by
  induction wraps with
  | refl => exact matched
  | tail _ unwrapped ih => exact ih (reader.matchesAt_of_unwrap unwrapped matched)

/-- A terminal in wrappers matches a token of one of its kinds that is not reserved. -/
theorem matchesAt_token {place : Place} {id : RuleId} {rule : Rule} {kinds : List TokenKind}
    (wraps : setting.store.Wraps place (.inside id)) (found : setting.store.rules[id]? = some rule)
    (kind : rule.kind = .terminal) (same : ∀ kind, kind ∈ rule.kinds ↔ kind ∈ kinds) {token : Token}
    (mem : token.kind ∈ kinds) (free : setting.reserves rule.reserved token.text = false)
    (spans : setting.buffer.Spans start [token] next) : setting.MatchesAt place start next := by
  obtain ⟨rfl, inside, rfl⟩ := spans
  have accepted : setting.accepts rule (setting.buffer.peek start) = true := by
    simp only [accepts, free, Bool.not_false, Bool.and_true]
    exact StringSet.contains_iff.mpr ((same _).mpr mem)
  apply reader.matchesAt_of_wraps wraps
  rcases reader.decides (Array.getElem?_eq_some_iff.mp found).1 start with ⟨next, matched⟩ | fails
  · have advanced := (matched.terminal found kind).2
    rw [TokenBuffer.advance_of_not_atEnd inside] at advanced
    rw [← advanced]
    exact matched
  · exact absurd accepted (by simp [fails.terminal found kind])

/-- An optional that does not fail matches its sub-rule, or nothing if that fails. -/
theorem matches_optional {id sub : RuleId} {rule : Rule} {rest : List RuleId}
    (found : setting.store.rules[id]? = some rule) (kind : rule.kind = .optional)
    (children : rule.children = sub :: rest)
    (part : setting.Matches sub start next ∨ setting.Fails sub start ∧ next = start) :
    setting.Matches id start next := by
  rcases reader.decides (Array.getElem?_eq_some_iff.mp found).1 start with ⟨next', matched⟩ | fails
  · have same : next' = next := by
      rcases matched.optional found kind children with taken | ⟨failed, rfl⟩
      · rcases part with taken' | ⟨failed, -⟩
        · exact taken.unique taken'
        · exact absurd failed taken.not_fails
      · rcases part with taken | ⟨-, rfl⟩
        · exact absurd failed taken.not_fails
        · rfl
    rw [← same]
    exact matched
  · exact absurd fails (not_fails_optional found kind children)

/-- A repetition matches the rounds up to where it stops. -/
theorem matches_repetition {id sub : RuleId} {rule : Rule} {rest : List RuleId}
    (found : setting.store.rules[id]? = some rule) (kind : rule.kind = .repetition)
    (children : rule.children = sub :: rest)
    (rounds : ReflTransGen (Round (setting.Matches sub)) start next)
    (stops : setting.Fails sub next ∨ setting.Matches sub next next) :
    setting.Matches id start next := by
  rcases reader.decides (Array.getElem?_eq_some_iff.mp found).1 start with ⟨next', matched⟩ | fails
  · obtain ⟨rounds', stops'⟩ := matched.repetition found kind children
    obtain rfl := rounds_unique rounds stops rounds' stops'
    exact matched
  · exact absurd fails (not_fails_repetition found kind children)

/-- An expression matches an operand and the chain behind it, up to where no operator is. -/
theorem matches_expression {id sub : RuleId} {rule : Rule} {table : OperatorTable}
    {rest : List RuleId} (found : setting.store.rules[id]? = some rule)
    (kind : rule.kind = .expression) (table? : setting.store.tableOf? rule = some table)
    (children : rule.children = sub :: rest) {middle : Nat} {links : List (Link α)}
    (first : setting.Matches sub start middle) (chain : Chain setting sub table middle links next)
    (ended : table.find? (setting.buffer.peek next).kind = none) : setting.Matches id start next := by
  obtain ⟨make, makes⟩ :=
    Classical.axiomOfChoice (reader.faultless.expressions rule (Array.mem_of_getElem? found) kind)
  obtain ⟨value, gives⟩ := first
  have reads : ReadsFlat setting sub table make start
      (.matched ((OperatorTree.group value links).fold setting.factory.scalar make) next) :=
    .grouped gives chain ended ⟨OperatorTree.first_group _ _, OperatorTree.links_group _ _⟩
      (OperatorTree.grouped_group _ _)
  exact ⟨_, reads.gives found kind children table? makes⟩

/-- What an expression has matched is an operand and a chain behind it. -/
theorem exists_chain {id sub : RuleId} {rule : Rule} {table : OperatorTable}
    {rest : List RuleId} (found : setting.store.rules[id]? = some rule)
    (kind : rule.kind = .expression) (table? : setting.store.tableOf? rule = some table)
    (children : rule.children = sub :: rest) (matched : setting.Matches id start next) :
    ∃ middle value links, setting.Gives sub start (.matched value middle) ∧
      Chain setting sub table middle links next ∧
        table.find? (setting.buffer.peek next).kind = none := by
  obtain ⟨make, makes⟩ :=
    Classical.axiomOfChoice (reader.faultless.expressions rule (Array.mem_of_getElem? found) kind)
  obtain ⟨whole, gives⟩ := matched
  have reads := gives.readsFlat found kind children table? makes
  generalize outcome : Outcome.matched whole next = result at reads
  cases reads with
  | grouped first chain ended _ _ =>
    obtain ⟨-, rfl⟩ := Outcome.matched.inj outcome
    exact ⟨_, _, _, first, chain, ended⟩
  | @lacksFirst result gives lacking | @lacksLater _ _ _ _ _ result _ _ _ gives lacking =>
    cases result with
    | matched _ _ => exact nomatch lacking
    | failed _ _ | fault _ _ | exhausted => exact nomatch outcome

/-- What one token ahead finds is matched, at every place that realizes the form. -/
theorem matchesAt (solid : ∀ name, (language.rules name).nullable = false)
    (leads : ∀ name, (language.rules name).first lead ⊆ lead name) {form : Form ν}
    {behind : TokenKind} {text : List Token}
    (before : Language.Before language lead behind form text) {place : Place}
    (realizes : setting.store.Realizes setting.buffer.endKind entry form place)
    (spans : setting.buffer.Spans start text next) (follows : (setting.buffer.peek next).kind = behind) :
    setting.MatchesAt place start next := by
  induction before generalizing place start next with
  | token mem =>
    cases realizes with
    | token wraps found kind same _ reserved =>
      exact reader.matchesAt_token wraps found kind same mem (by rw [reserved]; rfl) spans
  | unreserved mem free =>
    cases realizes with
    | unreserved wraps found kind same _ reserved =>
      rw [← reader.realization.reserved] at free
      exact reader.matchesAt_token wraps found kind same mem (by rw [reserved]; exact free) spans
  | symbol _ ih =>
    cases realizes with
    | symbol wraps =>
      have inside := ih (reader.realization.rules _) spans follows
      exact reader.matchesAt_of_wraps wraps inside
  | empty =>
    cases realizes with
    | empty wraps =>
      obtain rfl := spans
      exact reader.matchesAt_of_wraps wraps Passed.none
  | sequence _ _ ihFirst ihSecond =>
    cases realizes with
    | sequence wraps first second =>
      obtain ⟨middle, spans, spans'⟩ := TokenBuffer.spans_append.mp spans
      have taken := ihFirst first spans (by rw [spans'.kind_eq, follows])
      have passed := ihSecond second spans' follows
      exact reader.matchesAt_of_wraps wraps (Passed.component taken passed)
  | left _ ih =>
    cases realizes with
    | choice wraps first _ =>
      exact reader.matchesAt_of_wraps wraps (Chosen.here (ih first spans follows))
  | right some other _ ih =>
    cases realizes with
    | choice wraps first second =>
      rw [← follows, ← spans.kind_eq] at other
      have fails := reader.fails solid leads first some other
      exact reader.matchesAt_of_wraps wraps (Chosen.later fails (ih second spans follows))
  | omitted some other =>
    cases realizes with
    | optional wraps found kind children part =>
      obtain rfl := spans
      rw [← follows] at other
      have fails := reader.fails solid leads part some other
      exact reader.matchesAt_of_wraps wraps
        (reader.matches_optional found kind children (.inr ⟨fails, rfl⟩))
  | taken _ ih =>
    cases realizes with
    | optional wraps found kind children part =>
      exact reader.matchesAt_of_wraps wraps
        (reader.matches_optional found kind children (.inl (ih part spans follows)))
  | done some other =>
    cases realizes with
    | repetition wraps found kind children part =>
      obtain rfl := spans
      rw [← follows] at other
      have fails := reader.fails solid leads part some other
      exact reader.matchesAt_of_wraps wraps
        (reader.matches_repetition found kind children .refl (.inl fails))
  | round progress _ _ ihFirst ihRest =>
    cases realizes with
    | repetition wraps found kind children part =>
      obtain ⟨middle, spans, spans'⟩ := TokenBuffer.spans_append.mp spans
      have taken := ihFirst part spans (by rw [spans'.kind_eq, follows])
      have rest : setting.Matches _ middle next :=
        ihRest (.repetition .refl found kind children part) spans' follows
      obtain ⟨rounds, stops⟩ := rest.repetition found kind children
      have forward : middle ≠ start := by
        have := List.length_pos_iff.mpr progress
        have := spans.stop_eq
        omega
      exact reader.matchesAt_of_wraps wraps
        (reader.matches_repetition found kind children (.head ⟨forward, taken⟩ rounds) stops)
  | operand ended _ ih =>
    cases realizes with
    | chain wraps found kind table? children same _ part =>
      rw [← follows, ← same, not_exists] at ended
      have none := Option.eq_none_iff_forall_ne_some.mpr ended
      exact reader.matchesAt_of_wraps wraps
        (reader.matches_expression found kind table? children (ih part spans follows) .done none)
  | operation _ mem _ ihFirst ihRest =>
    cases realizes with
    | @chain _ _ _ id sub rule table _ wraps found kind table? children same notEnd part =>
      obtain ⟨middle, spans, peeked, inside, spans'⟩ := TokenBuffer.spans_append.mp spans
      have taken := ihFirst part spans (by rw [peeked])
      have rest : setting.Matches id (middle + 1) next :=
        ihRest (.chain .refl found kind table? children same notEnd part) spans' follows
      obtain ⟨_, value, links, first, chain, ended⟩ :=
        reader.exists_chain found kind table? children rest
      rw [← TokenBuffer.advance_of_not_atEnd inside] at first
      rw [← peeked, ← same] at mem
      obtain ⟨operator, isOperator⟩ := mem
      exact reader.matchesAt_of_wraps wraps
        (reader.matches_expression found kind table? children taken (.link isOperator first chain)
          ended)

end Reader

end Without

end Setting

end Grammatic
