import Grammatic.Factories
import Grammatic.Proofs.Evaluation.Budget

/-!
# Positions of evaluation

A rule that fails leaves the tokens where it started, and a rule that matches leaves them there or
further on, but never behind the first end token. That is one invariant of outcomes, `Keeps`, which
every way to evaluate a rule preserves: a sequence goes back to its own start, an alternation, an
optional and a repetition go back to where the last attempt started, and an expression goes back over
all operands and operators of its chain. A capture goes back nowhere, since its sub-rule has done so.

The chain of an expression is the one loop that does not keep the invariant by itself: it fails behind
the operators that it has taken. It keeps the weaker `Advances`, and the expression puts it back.
-/

namespace Grammatic

variable {α ε : Type}

/-- A position lies at another or behind it, up to the first end token. -/
def TokenBuffer.Reaches (buffer : TokenBuffer) (start next : Nat) : Prop :=
  start ≤ next ∧ next ≤ buffer.endFrom start

namespace TokenBuffer.Reaches

variable {buffer : TokenBuffer} {start next last : Nat}

theorem refl (buffer : TokenBuffer) (start : Nat) : buffer.Reaches start start :=
  ⟨Nat.le_refl start, buffer.le_endFrom start⟩

theorem advance (buffer : TokenBuffer) (start : Nat) :
    buffer.Reaches start (buffer.advance start) :=
  ⟨buffer.le_advance start, buffer.advance_le_endFrom start⟩

theorem trans (first : buffer.Reaches start next) (second : buffer.Reaches next last) :
    buffer.Reaches start last := by
  obtain ⟨le, before⟩ := first
  obtain ⟨le', before'⟩ := second
  rw [endFrom_eq le before] at before'
  exact ⟨Nat.le_trans le le', before'⟩

end TokenBuffer.Reaches

namespace Outcome

/-- A match goes forward, not past the first end token. -/
def Advances (buffer : TokenBuffer) (start : Nat) : Outcome α ε → Prop
  | .matched _ next => buffer.Reaches start next
  | .failed _ _ | .fault _ _ | .exhausted => True

/-- A match goes forward, not past the first end token, and a failure goes back to the start. -/
def Keeps (buffer : TokenBuffer) (start : Nat) : Outcome α ε → Prop
  | .matched _ next => buffer.Reaches start next
  | .failed _ next => next = start
  | .fault _ _ | .exhausted => True

theorem Keeps.advances {buffer : TokenBuffer} {start : Nat} {outcome : Outcome α ε}
    (keeps : outcome.Keeps buffer start) : outcome.Advances buffer start := by
  cases outcome with
  | matched _ _ => exact keeps
  | failed _ _ | fault _ _ | exhausted => trivial

/-- What goes forward from a later position goes forward from an earlier one. -/
theorem Advances.from {buffer : TokenBuffer} {start next : Nat} {outcome : Outcome α ε}
    (reaches : buffer.Reaches start next) (advances : outcome.Advances buffer next) :
    outcome.Advances buffer start := by
  cases outcome with
  | matched _ _ => exact reaches.trans advances
  | failed _ _ | fault _ _ | exhausted => trivial

end Outcome

namespace Setting

variable {setting : Setting α ε}

/-- A node is made where the rule ends. -/
theorem construct_keeps {start next : Nat} (reaches : setting.buffer.Reaches start next)
    (tag : Option NodeTag) (children : List α) :
    (setting.construct tag children next).Keeps setting.buffer start := by
  unfold construct
  split
  next => exact reaches
  next => trivial

theorem terminal_keeps (rule : Rule) (start : Nat) :
    (setting.terminal rule start).Keeps setting.buffer start := by
  have reaches := TokenBuffer.Reaches.advance setting.buffer start
  unfold terminal
  simp only
  split
  next =>
    split
    next => exact reaches
    next =>
      split
      next => exact construct_keeps reaches _ _
      next => trivial
  next => rfl

section Loops

variable {part : RuleId → Nat → Outcome α ε} {sub : Nat → Outcome α ε}

/-- A sequence fails at its own start, however many components it has taken. -/
theorem sequence_keeps (keeps : ∀ id position, (part id position).Keeps setting.buffer position)
    (rule : Rule) (start : Nat) (components : List RuleId) (captured : List α) {position : Nat}
    (reaches : setting.buffer.Reaches start position) :
    (setting.sequence part rule start components captured position).Keeps setting.buffer start := by
  induction components generalizing captured position with
  | nil =>
    simp only [sequence, closeSequence]
    split
    next => exact construct_keeps reaches _ _
    next => exact reaches
  | cons component rest ih =>
    have kept := keeps component position
    simp only [sequence]
    cases outcome : part component position with
    | matched value next =>
      rw [outcome] at kept
      exact ih _ (reaches.trans kept)
    | failed _ _ => rfl
    | fault _ _ | exhausted => trivial

theorem alternation_keeps (keeps : ∀ id position, (part id position).Keeps setting.buffer position)
    (start : Nat) (alternatives : List RuleId) (expected : StringSet) (last : Option Failure) :
    (alternation part start alternatives expected last).Keeps setting.buffer start := by
  induction alternatives generalizing expected last with
  | nil =>
    cases last with
    | none => trivial
    | some _ => rfl
  | cons alternative rest ih =>
    have kept := keeps alternative start
    simp only [alternation]
    cases outcome : part alternative start with
    | matched value next => rw [outcome] at kept; exact kept
    | failed failure next => exact ih _ _
    | fault _ _ | exhausted => trivial

theorem optional_keeps (keeps : ∀ position, (sub position).Keeps setting.buffer position)
    (start : Nat) : (setting.optional sub start).Keeps setting.buffer start := by
  have kept := keeps start
  unfold optional
  cases outcome : sub start with
  | matched value next => rw [outcome] at kept; exact kept
  | failed _ _ => exact .refl _ _
  | fault _ _ | exhausted => trivial

theorem repetition_keeps (keeps : ∀ position, (sub position).Keeps setting.buffer position)
    {start position : Nat} (reaches : setting.buffer.Reaches start position) (budget : Nat)
    (elements : List α) :
    (setting.repetition sub budget elements position).Keeps setting.buffer start := by
  induction budget generalizing elements position with
  | zero => trivial
  | succ budget ih =>
    have kept := keeps position
    simp only [repetition]
    cases outcome : sub position with
    | matched value next =>
      rw [outcome] at kept
      have reaches := reaches.trans kept
      simp only
      split
      next => exact reaches
      next => exact ih reaches _
    | failed _ _ => exact reaches
    | fault _ _ | exhausted => trivial

/-- The chain of an expression goes forward over operators and operands alike. -/
theorem climb_advances (keeps : ∀ position, (sub position).Keeps setting.buffer position)
    (tag : Option NodeTag) (table : OperatorTable) (budget : Nat) (limit : Option Int) (left : α)
    (position : Nat) :
    (setting.climb sub tag table budget limit left position).Advances setting.buffer position := by
  induction budget generalizing limit left position with
  | zero => trivial
  | succ budget ih =>
    simp only [climb]
    split
    next => exact .refl _ _
    next operator _ =>
      split
      next => exact .refl _ _
      next =>
        have passed := TokenBuffer.Reaches.advance setting.buffer position
        have kept := keeps (setting.buffer.advance position)
        cases first : sub (setting.buffer.advance position) with
        | matched value next =>
          rw [first] at kept
          have nested := ih (some operator.rightLimit) value next
          simp only
          cases right : setting.climb sub tag table budget (some operator.rightLimit) value next with
          | matched rightValue behind =>
            rw [right] at nested
            have reaches := passed.trans (TokenBuffer.Reaches.trans kept nested)
            simp only
            split
            next folded _ => exact (ih limit folded behind).from reaches
            next => trivial
          | failed _ _ | fault _ _ | exhausted => trivial
        | failed _ _ | fault _ _ | exhausted => trivial

theorem expression_keeps (keeps : ∀ position, (sub position).Keeps setting.buffer position)
    (tag : Option NodeTag) (table : OperatorTable) (budget start : Nat) :
    (setting.expression sub tag table budget start).Keeps setting.buffer start := by
  have kept := keeps start
  unfold expression
  cases first : sub start with
  | matched value next =>
    rw [first] at kept
    have advances := climb_advances keeps tag table budget none value next
    simp only
    cases climbed : setting.climb sub tag table budget none value next with
    | matched _ behind =>
      rw [climbed] at advances
      exact TokenBuffer.Reaches.trans kept advances
    | failed _ _ => rfl
    | fault _ _ | exhausted => trivial
  | failed _ _ => rfl
  | fault _ _ | exhausted => trivial

theorem evaluateRule_keeps (keeps : ∀ id position, (part id position).Keeps setting.buffer position)
    (budget : Nat) (rule : Rule) (start : Nat) :
    (setting.evaluateRule part budget rule start).Keeps setting.buffer start := by
  apply evaluateRule_cases (P := fun outcome => outcome.Keeps setting.buffer start)
  case terminal => intro _; exact terminal_keeps rule start
  case sequence => intro _; exact sequence_keeps keeps rule start _ [] (.refl _ _)
  case alternation => intro _; exact alternation_keeps keeps start _ _ _
  case optional => intro sub _ _ _; exact optional_keeps (keeps sub) start
  case repetition => intro sub _ _ _; exact repetition_keeps (keeps sub) (.refl _ _) budget []
  case capture => intro sub _ _ _; exact keeps sub start
  case expression => intro operand _ table _ _ _; exact expression_keeps (keeps operand) _ _ _ _
  case lacking => intro _ _; trivial

end Loops

/-- An evaluation keeps to the positions between its start and the first end token. -/
theorem evaluateWithin_keeps (budget : Nat) (id : RuleId) (start : Nat) :
    (setting.evaluateWithin budget id start).Keeps setting.buffer start := by
  induction budget generalizing id start with
  | zero => trivial
  | succ budget ih =>
    simp only [evaluateWithin]
    split
    next => trivial
    next rule _ => exact evaluateRule_keeps ih budget rule start

theorem Gives.keeps {id : RuleId} {start : Nat} {outcome : Outcome α ε}
    (gives : setting.Gives id start outcome) : outcome.Keeps setting.buffer start := by
  obtain ⟨_, budget, rfl⟩ := gives
  exact evaluateWithin_keeps budget id start

theorem Matches.reaches {id : RuleId} {start next : Nat} (matched : setting.Matches id start next) :
    setting.buffer.Reaches start next := by
  obtain ⟨_, gives⟩ := matched
  exact gives.keeps

end Setting

/-! ## Streams -/

/-- The stream behind an evaluation: at the position where the evaluation leaves the tokens. -/
def TokenStream.behind (stream : TokenStream) : Outcome α ε → TokenStream
  | .matched _ next | .failed _ next | .fault _ next => { stream with position := next }
  | .exhausted => stream

/-- Evaluating any rule of any store on a stream leaves its tokens as they are. After a failure the
stream is as it was; after a match it has gone forward, and not past the first end token. -/
theorem evaluation_keeps_stream {store : Store} {grammar : Grammar} {factory : Factory α ε}
    {stream : TokenStream} {id : RuleId} {outcome : Outcome α ε}
    (gives : Setting.Gives ⟨store, grammar, factory, stream.buffer⟩ id stream.position outcome) :
    (stream.behind outcome).buffer = stream.buffer ∧
      (∀ failure next, outcome = .failed failure next → stream.behind outcome = stream) ∧
      ∀ value next, outcome = .matched value next →
        stream.position ≤ (stream.behind outcome).position ∧
          (stream.behind outcome).position ≤ stream.buffer.endFrom stream.position := by
  have keeps := gives.keeps
  refine ⟨?_, ?_, ?_⟩
  · cases outcome <;> rfl
  · rintro failure next rfl
    have same : next = stream.position := keeps
    rw [TokenStream.behind, same]
  · rintro value next rfl
    exact keeps

/-- A sequence of three delimiters. -/
def threeDelimiters : Store where
  rules := #[
    { kind := .sequence, children := [1, 2, 3] },
    { kind := .terminal, kinds := ⟨["a"], by decide⟩ },
    { kind := .terminal, kinds := ⟨["b"], by decide⟩ },
    { kind := .terminal, kinds := ⟨["c"], by decide⟩ }]
  closed := by decide

/-- A sequence that fails after two tokens goes back to its start. -/
theorem threeDelimiters_keeps_stream :
    let stream : TokenStream := ⟨.ofTokens [.mark "a" 0, .mark "b" 0, .mark "d" 0], 0⟩
    let outcome : Outcome Value Unit := .failed ⟨2, .mark "d" 0, ⟨["c"], by decide⟩⟩ 0
    Setting.Gives ⟨threeDelimiters, ⟨.within "", 0, "end_of_text", none⟩, .nothing, stream.buffer⟩
      0 stream.position outcome ∧ stream.behind outcome = stream := by
  intro stream outcome
  have gives : Setting.Gives
      ⟨threeDelimiters, ⟨.within "", 0, "end_of_text", none⟩, .nothing, stream.buffer⟩
      0 stream.position outcome := ⟨nofun, 2, by rfl⟩
  exact ⟨gives, (evaluation_keeps_stream gives).2.1 _ _ rfl⟩

end Grammatic
