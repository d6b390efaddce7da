import Grammatic.Token.Basic

/-!
# Context-free grammars

A grammar in the usual extended notation: each nonterminal has a form, which is made of tokens,
nonterminals, sequences, choices, options, repetitions, and chains of operands with operators between
them. `Derives` is its context-free reading: choices have no order, options are taken or not, and a
repetition has any number of rounds.

A reader that looks one token ahead needs more. `Before` is a derivation that such a reader finds
when it knows the kind of the token behind the text: whenever the reader has to decide, the token
ahead decides. The kinds that can come `first` in a form, and those that can go on what the form
`carries`, are computed from the form. If they keep apart wherever the reader decides (`Clear`), every
derivation is one that the reader finds, unless the text could go on (`Language.Clear.before`).
-/

namespace Grammatic

/-- A form of a grammar with nonterminals from a type. -/
inductive Form (ν : Type) where
  /-- One token of one of some kinds. -/
  | token (kinds : List TokenKind)
  /-- One token of one of some kinds, whose text is not reserved. -/
  | unreserved (kinds : List TokenKind)
  | symbol (name : ν)
  | empty
  | sequence (first second : Form ν)
  | choice (first second : Form ν)
  | optional (form : Form ν)
  | repetition (form : Form ν)
  /-- Operands with operators of some kinds between them. -/
  | chain (operand : Form ν) (operators : List TokenKind)
  deriving DecidableEq, Repr

/-- A grammar: the forms of its nonterminals, and the texts that are reserved. -/
structure Language (ν : Type) where
  rules : ν → Form ν
  reserved : String → Bool

namespace Form

variable {ν : Type}

/-- Forms one behind the other. -/
def all : List (Form ν) → Form ν
  | [] => empty
  | [form] => form
  | form :: second :: rest => sequence form (all (second :: rest))

/-- One of some forms, of which there is at least one. -/
def any (form : Form ν) : List (Form ν) → Form ν
  | [] => form
  | second :: rest => choice form (any second rest)

/-- Whether the empty text can be derived without a nonterminal. -/
def nullable : Form ν → Bool
  | token _ | unreserved _ | symbol _ => false
  | empty | optional _ | repetition _ => true
  | sequence first second => first.nullable && second.nullable
  | choice first second => first.nullable || second.nullable
  | chain operand _ => operand.nullable

/-- The kinds that can come first, given those of the nonterminals. -/
def first (lead : ν → List TokenKind) : Form ν → List TokenKind
  | token kinds | unreserved kinds => kinds
  | symbol name => lead name
  | empty => []
  | sequence a b => a.first lead ++ if a.nullable then b.first lead else []
  | choice a b => a.first lead ++ b.first lead
  | optional form | repetition form => form.first lead
  | chain operand operators => operand.first lead ++ if operand.nullable then operators else []

/-- The kinds that can go on a text of the form, given those of the nonterminals. -/
def carries (lead tail : ν → List TokenKind) : Form ν → List TokenKind
  | token _ | unreserved _ | empty => []
  | symbol name => tail name
  | sequence a b => b.carries lead tail ++ if b.nullable then a.carries lead tail else []
  | choice a b =>
    a.carries lead tail ++ b.carries lead tail ++ if b.nullable then a.first lead else []
  | optional form | repetition form => form.first lead ++ form.carries lead tail
  | chain operand operators => operators ++ operand.carries lead tail

/-- Whether two lists have no member in common. -/
def apart (kinds others : List TokenKind) : Bool :=
  kinds.all fun kind => !others.contains kind

/-- Whether one token ahead decides wherever there is something to decide. -/
def clear (lead tail : ν → List TokenKind) : Form ν → Bool
  | token _ | unreserved _ | symbol _ | empty => true
  | sequence a b =>
    a.clear lead tail && b.clear lead tail && apart (a.carries lead tail) (b.first lead)
  | choice a b =>
    a.clear lead tail && b.clear lead tail && apart (b.first lead) (a.first lead) &&
      (!a.nullable || (b.first lead).isEmpty)
  | optional form => form.clear lead tail && !form.nullable
  | repetition form =>
    form.clear lead tail && !form.nullable && apart (form.carries lead tail) (form.first lead)
  | chain operand operators =>
    operand.clear lead tail && !operand.nullable && apart (operand.carries lead tail) operators

theorem not_mem_of_not_contains {kinds : List TokenKind} {kind : TokenKind}
    (other : (!kinds.contains kind) = true) : kind ∉ kinds := by
  intro mem
  rw [List.contains_iff_mem.mpr mem] at other
  exact nomatch other

theorem not_mem_of_apart {kinds others : List TokenKind} (disjoint : apart kinds others = true)
    {kind : TokenKind} (mem : kind ∈ others) : kind ∉ kinds := by
  intro mem'
  exact not_mem_of_not_contains (List.all_eq_true.mp disjoint kind mem') mem

end Form

namespace Language

variable {ν : Type}

/-- The context-free reading of a form. -/
inductive Derives (language : Language ν) : Form ν → List Token → Prop
  | token {kinds : List TokenKind} {token : Token} (mem : token.kind ∈ kinds) :
      Derives language (.token kinds) [token]
  | unreserved {kinds : List TokenKind} {token : Token} (mem : token.kind ∈ kinds)
      (free : language.reserved token.text = false) : Derives language (.unreserved kinds) [token]
  | symbol {name : ν} {text : List Token} (derives : Derives language (language.rules name) text) :
      Derives language (.symbol name) text
  | empty : Derives language .empty []
  | sequence {a b : Form ν} {text more : List Token} (first : Derives language a text)
      (second : Derives language b more) : Derives language (.sequence a b) (text ++ more)
  | left {a b : Form ν} {text : List Token} (derives : Derives language a text) :
      Derives language (.choice a b) text
  | right {a b : Form ν} {text : List Token} (derives : Derives language b text) :
      Derives language (.choice a b) text
  | omitted {form : Form ν} : Derives language (.optional form) []
  | taken {form : Form ν} {text : List Token} (derives : Derives language form text) :
      Derives language (.optional form) text
  | done {form : Form ν} : Derives language (.repetition form) []
  | round {form : Form ν} {text more : List Token} (first : Derives language form text)
      (rest : Derives language (.repetition form) more) :
      Derives language (.repetition form) (text ++ more)
  | operand {form : Form ν} {operators : List TokenKind} {text : List Token}
      (derives : Derives language form text) : Derives language (.chain form operators) text
  | operation {form : Form ν} {operators : List TokenKind} {text more : List Token} {token : Token}
      (first : Derives language form text) (mem : token.kind ∈ operators)
      (rest : Derives language (.chain form operators) more) :
      Derives language (.chain form operators) (text ++ token :: more)

/-- The kind of the token ahead: the first of a text, or else the one behind it. -/
def ahead (text : List Token) (behind : TokenKind) : TokenKind :=
  (text.head?.map (·.kind)).getD behind

@[simp] theorem ahead_nil (behind : TokenKind) : ahead [] behind = behind := rfl

@[simp] theorem ahead_cons (token : Token) (rest : List Token) (behind : TokenKind) :
    ahead (token :: rest) behind = token.kind := rfl

/-- Derivations that one token ahead decides on, when the token behind the text has a given kind. -/
inductive Before (language : Language ν) (lead : ν → List TokenKind) :
    TokenKind → Form ν → List Token → Prop
  | token {behind : TokenKind} {kinds : List TokenKind} {token : Token} (mem : token.kind ∈ kinds) :
      Before language lead behind (.token kinds) [token]
  | unreserved {behind : TokenKind} {kinds : List TokenKind} {token : Token}
      (mem : token.kind ∈ kinds) (free : language.reserved token.text = false) :
      Before language lead behind (.unreserved kinds) [token]
  | symbol {behind : TokenKind} {name : ν} {text : List Token}
      (before : Before language lead behind (language.rules name) text) :
      Before language lead behind (.symbol name) text
  | empty {behind : TokenKind} : Before language lead behind .empty []
  | sequence {behind : TokenKind} {a b : Form ν} {text more : List Token}
      (first : Before language lead (ahead more behind) a text)
      (second : Before language lead behind b more) :
      Before language lead behind (.sequence a b) (text ++ more)
  | left {behind : TokenKind} {a b : Form ν} {text : List Token}
      (before : Before language lead behind a text) :
      Before language lead behind (.choice a b) text
  | right {behind : TokenKind} {a b : Form ν} {text : List Token} (solid : a.nullable = false)
      (other : ahead text behind ∉ a.first lead) (before : Before language lead behind b text) :
      Before language lead behind (.choice a b) text
  | omitted {behind : TokenKind} {form : Form ν} (solid : form.nullable = false)
      (other : behind ∉ form.first lead) : Before language lead behind (.optional form) []
  | taken {behind : TokenKind} {form : Form ν} {text : List Token}
      (before : Before language lead behind form text) :
      Before language lead behind (.optional form) text
  | done {behind : TokenKind} {form : Form ν} (solid : form.nullable = false)
      (other : behind ∉ form.first lead) : Before language lead behind (.repetition form) []
  | round {behind : TokenKind} {form : Form ν} {text more : List Token} (progress : text ≠ [])
      (first : Before language lead (ahead more behind) form text)
      (rest : Before language lead behind (.repetition form) more) :
      Before language lead behind (.repetition form) (text ++ more)
  | operand {behind : TokenKind} {form : Form ν} {operators : List TokenKind} {text : List Token}
      (ended : behind ∉ operators) (before : Before language lead behind form text) :
      Before language lead behind (.chain form operators) text
  | operation {behind : TokenKind} {form : Form ν} {operators : List TokenKind}
      {text more : List Token} {token : Token} (first : Before language lead token.kind form text)
      (mem : token.kind ∈ operators)
      (rest : Before language lead behind (.chain form operators) more) :
      Before language lead behind (.chain form operators) (text ++ token :: more)

/-- One token ahead decides in all rules, and the tables of kinds hold those of the rules. -/
structure Clear (language : Language ν) (lead tail : ν → List TokenKind) : Prop where
  solid : ∀ name, (language.rules name).nullable = false
  leads : ∀ name, (language.rules name).first lead ⊆ lead name
  tails : ∀ name, (language.rules name).carries lead tail ⊆ tail name
  clear : ∀ name, (language.rules name).clear lead tail = true

variable {language : Language ν} {lead tail : ν → List TokenKind}

/-! ## First tokens -/

/-- A form that derives the empty text is nullable. -/
theorem Derives.nullable (solid : ∀ name, (language.rules name).nullable = false) {form : Form ν}
    {text : List Token} (derives : Derives language form text) (none : text = []) :
    form.nullable = true := by
  induction derives with
  | token _ | unreserved _ _ => exact nomatch none
  | symbol _ ih =>
    rw [solid] at ih
    exact nomatch ih none
  | empty | omitted | taken _ | done | round _ _ => rfl
  | sequence _ _ ihFirst ihSecond =>
    obtain ⟨rfl, rfl⟩ := List.append_eq_nil_iff.mp none
    rw [Form.nullable, ihFirst rfl, ihSecond rfl]
    rfl
  | left _ ih => rw [Form.nullable, ih none, Bool.true_or]
  | right _ ih => rw [Form.nullable, ih none, Bool.or_true]
  | operand _ ih => rw [Form.nullable, ih none]
  | operation _ _ _ => exact absurd none (by simp)

/-- The first token of a text that a form derives has one of its first kinds. -/
theorem Derives.first (solid : ∀ name, (language.rules name).nullable = false)
    (leads : ∀ name, (language.rules name).first lead ⊆ lead name) {form : Form ν}
    {text : List Token} (derives : Derives language form text) {token : Token} {rest : List Token}
    (starts : text = token :: rest) : token.kind ∈ form.first lead := by
  induction derives generalizing rest with
  | token mem | unreserved mem _ =>
    obtain ⟨rfl, -⟩ := List.cons.inj starts
    exact mem
  | symbol _ ih => exact leads _ (ih starts)
  | empty | omitted | done => exact nomatch starts
  | @sequence _ _ text more first _ ihFirst ihSecond =>
    cases text with
    | nil =>
      rw [Form.first, first.nullable solid rfl]
      exact List.mem_append_right _ (ihSecond starts)
    | cons _ _ =>
      obtain ⟨rfl, -⟩ := List.cons.inj starts
      exact List.mem_append_left _ (ihFirst rfl)
  | left _ ih => exact List.mem_append_left _ (ih starts)
  | right _ ih => exact List.mem_append_right _ (ih starts)
  | taken _ ih => exact ih starts
  | @round _ text more _ _ ihFirst ihRest =>
    cases text with
    | nil => exact ihRest starts
    | cons _ _ =>
      obtain ⟨rfl, -⟩ := List.cons.inj starts
      exact ihFirst rfl
  | operand _ ih => exact List.mem_append_left _ (ih starts)
  | @operation _ _ text more operator first mem _ ihFirst _ =>
    cases text with
    | nil =>
      obtain ⟨rfl, -⟩ := List.cons.inj starts
      rw [Form.first, first.nullable solid rfl]
      exact List.mem_append_right _ mem
    | cons _ _ =>
      obtain ⟨rfl, -⟩ := List.cons.inj starts
      exact List.mem_append_left _ (ihFirst rfl)

/-- If the token ahead of a text that a form derives is none that can come first, the text is empty
and so the form is nullable. -/
theorem Derives.nullable_of_not_mem (solid : ∀ name, (language.rules name).nullable = false)
    (leads : ∀ name, (language.rules name).first lead ⊆ lead name) {form : Form ν}
    {text : List Token} (derives : Derives language form text) {behind : TokenKind}
    (other : ahead text behind ∉ form.first lead) : text = [] ∧ form.nullable = true := by
  cases text with
  | nil => exact ⟨rfl, derives.nullable solid rfl⟩
  | cons _ _ => exact absurd (derives.first solid leads rfl) other

/-! ## Derivations that one token ahead decides on -/

theorem Before.derives {form : Form ν} {behind : TokenKind} {text : List Token}
    (before : Before language lead behind form text) : Derives language form text := by
  induction before with
  | token mem => exact .token mem
  | unreserved mem free => exact .unreserved mem free
  | symbol _ ih => exact .symbol ih
  | empty => exact .empty
  | sequence _ _ ihFirst ihSecond => exact .sequence ihFirst ihSecond
  | left _ ih => exact .left ih
  | right _ _ _ ih => exact .right ih
  | omitted _ _ => exact .omitted
  | taken _ ih => exact .taken ih
  | done _ _ => exact .done
  | round _ _ _ ihFirst ihRest => exact .round ihFirst ihRest
  | operand _ _ ih => exact .operand ih
  | operation _ mem _ ihFirst ihRest => exact .operation ihFirst mem ihRest

/-- The empty text of a nullable form is found before every token that cannot come first. -/
theorem before_nil {form : Form ν} (clear : form.clear lead tail = true) {behind : TokenKind}
    (nullable : form.nullable = true) (other : behind ∉ form.first lead) :
    Before language lead behind form [] := by
  induction form with
  | token _ | unreserved _ | symbol _ => exact nomatch nullable
  | empty => exact .empty
  | sequence a b iha ihb =>
    simp only [Form.nullable, Bool.and_eq_true] at nullable
    simp only [Form.clear, Bool.and_eq_true] at clear
    simp only [Form.first, nullable.1, if_true, List.mem_append, not_or] at other
    exact .sequence (iha clear.1.1 nullable.1 other.1) (ihb clear.1.2 nullable.2 other.2)
  | choice a b iha ihb =>
    simp only [Form.nullable, Bool.or_eq_true] at nullable
    simp only [Form.clear, Bool.and_eq_true] at clear
    simp only [Form.first, List.mem_append, not_or] at other
    cases first : a.nullable with
    | true => exact .left (iha clear.1.1.1 first other.1)
    | false =>
      have second := nullable.resolve_left (by rw [first]; exact Bool.false_ne_true)
      exact .right first other.1 (ihb clear.1.1.2 second other.2)
  | optional form _ =>
    simp only [Form.clear, Bool.and_eq_true, Bool.not_eq_true'] at clear
    exact .omitted clear.2 other
  | repetition form _ =>
    simp only [Form.clear, Bool.and_eq_true, Bool.not_eq_true'] at clear
    exact .done clear.1.2 other
  | chain form _ _ =>
    simp only [Form.clear, Bool.and_eq_true, Bool.not_eq_true'] at clear
    rw [Form.nullable, clear.1.2] at nullable
    exact nomatch nullable

/-- In a clear grammar one token ahead finds every derivation of a text that cannot go on. -/
theorem Clear.before (grammar : Clear language lead tail) {form : Form ν} {text : List Token}
    (derives : Derives language form text) (clear : form.clear lead tail = true)
    {behind : TokenKind} (ended : behind ∉ form.carries lead tail) :
    Before language lead behind form text := by
  induction derives generalizing behind with
  | token mem => exact .token mem
  | unreserved mem free => exact .unreserved mem free
  | symbol _ ih => exact .symbol (ih (grammar.clear _) fun mem => ended (grammar.tails _ mem))
  | empty => exact .empty
  | @sequence a b text more first second ihFirst ihSecond =>
    simp only [Form.clear, Bool.and_eq_true] at clear
    simp only [Form.carries, List.mem_append, not_or] at ended
    refine .sequence (ihFirst clear.1.1 ?_) (ihSecond clear.1.2 ended.1)
    cases more with
    | nil =>
      rw [second.nullable grammar.solid rfl] at ended
      exact ended.2
    | cons _ _ => exact Form.not_mem_of_apart clear.2 (second.first grammar.solid grammar.leads rfl)
  | left _ ih =>
    simp only [Form.clear, Bool.and_eq_true] at clear
    simp only [Form.carries, List.mem_append, not_or] at ended
    exact .left (ih clear.1.1.1 ended.1.1)
  | @right a b text derives ih =>
    simp only [Form.clear, Bool.and_eq_true] at clear
    simp only [Form.carries, List.mem_append, not_or] at ended
    obtain ⟨⟨⟨clearFirst, clearSecond⟩, disjoint⟩, decided⟩ := clear
    have other : ahead text behind ∉ a.first lead := by
      cases text with
      | nil =>
        rw [derives.nullable grammar.solid rfl] at ended
        exact ended.2
      | cons token _ =>
        intro mem
        exact Form.not_mem_of_apart disjoint mem (derives.first grammar.solid grammar.leads rfl)
    cases nullable : a.nullable with
    | false => exact .right nullable other (ih clearSecond ended.1.2)
    | true =>
      rw [nullable, Bool.not_true, Bool.false_or, List.isEmpty_iff] at decided
      have nothing : ahead text behind ∉ b.first lead := by
        rw [decided]
        exact List.not_mem_nil
      obtain ⟨rfl, -⟩ := derives.nullable_of_not_mem grammar.solid grammar.leads nothing
      exact .left (before_nil clearFirst nullable other)
  | omitted =>
    simp only [Form.clear, Bool.and_eq_true, Bool.not_eq_true'] at clear
    simp only [Form.carries, List.mem_append, not_or] at ended
    exact .omitted clear.2 ended.1
  | taken _ ih =>
    simp only [Form.clear, Bool.and_eq_true] at clear
    simp only [Form.carries, List.mem_append, not_or] at ended
    exact .taken (ih clear.1 ended.2)
  | done =>
    simp only [Form.clear, Bool.and_eq_true, Bool.not_eq_true'] at clear
    simp only [Form.carries, List.mem_append, not_or] at ended
    exact .done clear.1.2 ended.1
  | @round form text more first rest ihFirst ihRest =>
    have whole := ihRest clear ended
    simp only [Form.clear, Bool.and_eq_true, Bool.not_eq_true'] at clear
    simp only [Form.carries, List.mem_append, not_or] at ended
    refine .round ?_ (ihFirst clear.1.1 ?_) whole
    · intro none
      have nullable := first.nullable grammar.solid none
      rw [clear.1.2] at nullable
      exact nomatch nullable
    · cases more with
      | nil => exact ended.2
      | cons _ _ => exact Form.not_mem_of_apart clear.2 (rest.first grammar.solid grammar.leads rfl)
  | operand _ ih =>
    simp only [Form.clear, Bool.and_eq_true] at clear
    simp only [Form.carries, List.mem_append, not_or] at ended
    exact .operand ended.1 (ih clear.1.1 ended.2)
  | operation _ mem _ ihFirst ihRest =>
    have whole := ihRest clear ended
    simp only [Form.clear, Bool.and_eq_true] at clear
    exact .operation (ihFirst clear.1.1 (Form.not_mem_of_apart clear.2 mem)) mem whole

/-- A text of a choice is one of an alternative, and is found in the choice where it is found in the
alternative. -/
theorem Clear.exists_alternative (grammar : Clear language lead tail) {form : Form ν}
    {forms : List (Form ν)} {text : List Token}
    (derives : Derives language (.any form forms) text)
    (clear : (Form.any form forms).clear lead tail = true) (some : text ≠ []) :
    ∃ part ∈ form :: forms, Derives language part text ∧ part.clear lead tail = true ∧
      ∀ behind, Before language lead behind part text →
        Before language lead behind (.any form forms) text := by
  induction forms generalizing form with
  | nil => exact ⟨form, List.mem_cons_self, derives, clear, fun _ before => before⟩
  | cons second rest ih =>
    simp only [Form.any, Form.clear, Bool.and_eq_true] at clear
    obtain ⟨⟨⟨clearFirst, clearRest⟩, disjoint⟩, decided⟩ := clear
    cases derives with
    | left derives =>
      exact ⟨form, List.mem_cons_self, derives, clearFirst, fun _ before => .left before⟩
    | right derives =>
      obtain ⟨part, mem, derives', clearPart, found⟩ := ih derives clearRest
      obtain ⟨token, more, rfl⟩ := List.exists_cons_of_ne_nil some
      have starts := derives.first grammar.solid grammar.leads rfl
      have solid : form.nullable = false := by
        rw [Bool.or_eq_true, List.isEmpty_iff] at decided
        rcases decided with solid | none
        · exact (Bool.not_eq_true' _).mp solid
        · rw [none] at starts
          exact absurd starts List.not_mem_nil
      refine ⟨part, List.mem_cons_of_mem _ mem, derives', clearPart, fun behind before => ?_⟩
      exact .right solid (Form.not_mem_of_apart disjoint · starts) (found behind before)

/-- A chain goes on with an operator and another chain. -/
theorem Derives.chain_append {form : Form ν} {operators : List TokenKind} {text more : List Token}
    {token : Token} (first : Derives language (.chain form operators) text)
    (mem : token.kind ∈ operators) (rest : Derives language (.chain form operators) more) :
    Derives language (.chain form operators) (text ++ token :: more) := by
  generalize whole : Form.chain form operators = chain at first
  induction first with
  | operand derives =>
    obtain ⟨rfl, rfl⟩ := Form.chain.inj whole
    exact .operation derives mem rest
  | operation derives mem' _ _ ih =>
    obtain ⟨rfl, rfl⟩ := Form.chain.inj whole
    rw [List.append_assoc]
    exact .operation derives mem' (ih rfl)
  | token _ | unreserved _ _ | symbol _ _ | empty | sequence _ _ _ _ | left _ _ | right _ _ | omitted
  | taken _ _ | done | round _ _ _ _ => exact nomatch whole

end Language

end Grammatic
