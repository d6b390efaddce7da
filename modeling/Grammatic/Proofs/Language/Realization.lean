import Grammatic.Evaluation.Basic
import Grammatic.Proofs.Language.Form
import Mathlib.Logic.Relation

/-!
# Rules that realize forms

How the rules of a store are the forms of a grammar. A form is realized at a `Place`: at a rule, or at
the components or the alternatives that are left of one. Rules wrap each other up: a capture is its
sub-rule, and a sequence of one component is that component. `Store.unwrap` takes off one wrapper, and
each form is realized at the place that is left when the wrappers are off.

A nonterminal is realized by its entry, whatever is inside; that its form is realized inside the entry
is a condition of its own (`Realization`). So `Realizes` is finite although the rules refer to each
other, and it can be checked form by form (`Store.realizes`).
-/

namespace Grammatic

open Relation (ReflTransGen)

/-- Where a form is realized. -/
inductive Place where
  | rule (id : RuleId)
  /-- A rule, by its kind: not as the entry of a nonterminal. -/
  | inside (id : RuleId)
  /-- Components of a sequence. -/
  | sequence (ids : List RuleId)
  /-- Alternatives of an alternation. -/
  | choice (ids : List RuleId)
  deriving DecidableEq, Repr

namespace Store

/-- A place without its outermost wrapper, if it has one. -/
def unwrap (store : Store) : Place → Option Place
  | .rule id => some (.inside id)
  | .inside id =>
    match store.rules[id]? with
    | none => none
    | some rule =>
      match rule.kind, rule.children with
      | .capture, sub :: _ => some (.rule sub)
      | .sequence, children => some (.sequence children)
      | .alternation, children => some (.choice children)
      | _, _ => none
  | .sequence [id] => some (.rule id)
  | .choice [id] => some (.rule id)
  | .sequence _ => none
  | .choice _ => none

/-- One place is another in wrappers. -/
def Wraps (store : Store) : Place → Place → Prop :=
  ReflTransGen fun outer inner => store.unwrap outer = some inner

variable {ν : Type}

/-- The rules at a place are those of a form, where nonterminals have entries. No token of the form
has the end kind. -/
inductive Realizes (store : Store) (endKind : TokenKind) (entry : ν → RuleId) :
    Form ν → Place → Prop
  | token {kinds : List TokenKind} {place : Place} {id : RuleId} {rule : Rule}
      (wraps : store.Wraps place (.inside id)) (found : store.rules[id]? = some rule)
      (kind : rule.kind = .terminal) (same : ∀ kind, kind ∈ rule.kinds ↔ kind ∈ kinds)
      (notEnd : endKind ∉ kinds) (reserved : rule.reserved = .none) :
      Realizes store endKind entry (.token kinds) place
  | unreserved {kinds : List TokenKind} {place : Place} {id : RuleId} {rule : Rule}
      (wraps : store.Wraps place (.inside id)) (found : store.rules[id]? = some rule)
      (kind : rule.kind = .terminal) (same : ∀ kind, kind ∈ rule.kinds ↔ kind ∈ kinds)
      (notEnd : endKind ∉ kinds) (reserved : rule.reserved = .ofGrammar) :
      Realizes store endKind entry (.unreserved kinds) place
  | symbol {name : ν} {place : Place} (wraps : store.Wraps place (.rule (entry name))) :
      Realizes store endKind entry (.symbol name) place
  | empty {place : Place} (wraps : store.Wraps place (.sequence [])) :
      Realizes store endKind entry .empty place
  | sequence {a b : Form ν} {place : Place} {component : RuleId} {rest : List RuleId}
      (wraps : store.Wraps place (.sequence (component :: rest)))
      (first : Realizes store endKind entry a (.rule component))
      (second : Realizes store endKind entry b (.sequence rest)) :
      Realizes store endKind entry (.sequence a b) place
  | choice {a b : Form ν} {place : Place} {alternative : RuleId} {rest : List RuleId}
      (wraps : store.Wraps place (.choice (alternative :: rest)))
      (first : Realizes store endKind entry a (.rule alternative))
      (second : Realizes store endKind entry b (.choice rest)) :
      Realizes store endKind entry (.choice a b) place
  | optional {form : Form ν} {place : Place} {id sub : RuleId} {rule : Rule} {rest : List RuleId}
      (wraps : store.Wraps place (.inside id)) (found : store.rules[id]? = some rule)
      (kind : rule.kind = .optional) (children : rule.children = sub :: rest)
      (part : Realizes store endKind entry form (.rule sub)) :
      Realizes store endKind entry (.optional form) place
  | repetition {form : Form ν} {place : Place} {id sub : RuleId} {rule : Rule}
      {rest : List RuleId} (wraps : store.Wraps place (.inside id))
      (found : store.rules[id]? = some rule) (kind : rule.kind = .repetition)
      (children : rule.children = sub :: rest)
      (part : Realizes store endKind entry form (.rule sub)) :
      Realizes store endKind entry (.repetition form) place
  | chain {form : Form ν} {operators : List TokenKind} {place : Place} {id sub : RuleId}
      {rule : Rule} {table : OperatorTable} {rest : List RuleId}
      (wraps : store.Wraps place (.inside id)) (found : store.rules[id]? = some rule)
      (kind : rule.kind = .expression) (table? : store.tableOf? rule = some table)
      (children : rule.children = sub :: rest)
      (same : ∀ kind, (∃ operator, table.find? kind = some operator) ↔ kind ∈ operators)
      (notEnd : endKind ∉ operators) (part : Realizes store endKind entry form (.rule sub)) :
      Realizes store endKind entry (.chain form operators) place

/-- A store, with a grammar for its words, realizes a language. -/
structure Realization (store : Store) (grammar : Grammar) (endKind : TokenKind)
    (language : Language ν) (entry : ν → RuleId) : Prop where
  rules : ∀ name, store.Realizes endKind entry (language.rules name) (.inside (entry name))
  reserved : ∀ word, store.hasWord grammar.words word = language.reserved word

/-! ## Checking -/

/-- A place without its wrappers, of which at most a number are taken off. -/
def core (store : Store) : Nat → Place → Place
  | 0, place => place
  | depth + 1, place =>
    match store.unwrap place with
    | none => place
    | some inner => store.core depth inner

/-- Whether a place is another in a number of wrappers at most. -/
def comesTo (store : Store) (inner : Place) : Nat → Place → Bool
  | 0, place => place = inner
  | depth + 1, place =>
    place = inner ||
      match store.unwrap place with
      | none => false
      | some next => store.comesTo inner depth next

/-- Whether a set and a list of kinds have the same members. -/
def sameKinds (set : StringSet) (kinds : List TokenKind) : Bool :=
  set.toList.all kinds.contains && kinds.all set.contains

/-- Whether a place is a terminal for tokens of some kinds, in wrappers. -/
def isTerminal (store : Store) (endKind : TokenKind) (depth : Nat) (kinds : List TokenKind)
    (reserved : Reserved) (place : Place) : Bool :=
  match store.core depth place with
  | .inside id =>
    store.rules[id]?.any fun rule =>
      rule.kind = .terminal && sameKinds rule.kinds kinds && !kinds.contains endKind &&
        rule.reserved = reserved
  | _ => false

/-- The rule of a kind that a place is, in wrappers, and its sub-rule. -/
def partOf? (store : Store) (kind : RuleKind) (depth : Nat) (place : Place) :
    Option (Rule × RuleId) :=
  match store.core depth place with
  | .inside id =>
    match store.rules[id]? with
    | some rule => if rule.kind = kind then rule.children.head?.map (rule, ·) else none
    | none => none
  | _ => none

/-- Whether a form is realized at a place. -/
def realizes (store : Store) (endKind : TokenKind) (entry : ν → RuleId) (depth : Nat) :
    Form ν → Place → Bool
  | .token kinds, place => store.isTerminal endKind depth kinds .none place
  | .unreserved kinds, place => store.isTerminal endKind depth kinds .ofGrammar place
  | .symbol name, place => store.comesTo (.rule (entry name)) depth place
  | .empty, place => store.core depth place = .sequence []
  | .sequence a b, place =>
    match store.core depth place with
    | .sequence (component :: rest) =>
      store.realizes endKind entry depth a (.rule component) &&
        store.realizes endKind entry depth b (.sequence rest)
    | _ => false
  | .choice a b, place =>
    match store.core depth place with
    | .choice (alternative :: rest) =>
      store.realizes endKind entry depth a (.rule alternative) &&
        store.realizes endKind entry depth b (.choice rest)
    | _ => false
  | .optional form, place =>
    (store.partOf? .optional depth place).any fun part =>
      store.realizes endKind entry depth form (.rule part.2)
  | .repetition form, place =>
    (store.partOf? .repetition depth place).any fun part =>
      store.realizes endKind entry depth form (.rule part.2)
  | .chain form operators, place =>
    (store.partOf? .expression depth place).any fun part =>
      (store.tableOf? part.1).any (fun table => sameKinds (.ofList table.kinds) operators) &&
        !operators.contains endKind && store.realizes endKind entry depth form (.rule part.2)

section Checking

variable {store : Store} {endKind : TokenKind} {entry : ν → RuleId}

theorem wraps_core (store : Store) (depth : Nat) (place : Place) :
    store.Wraps place (store.core depth place) := by
  induction depth generalizing place with
  | zero => exact .refl
  | succ depth ih =>
    simp only [core]
    split
    next => exact .refl
    next inner unwrapped => exact .head unwrapped (ih inner)

theorem wraps_of_comesTo {depth : Nat} {place inner : Place}
    (comes : store.comesTo inner depth place = true) : store.Wraps place inner := by
  induction depth generalizing place with
  | zero =>
    obtain rfl := of_decide_eq_true comes
    exact .refl
  | succ depth ih =>
    simp only [comesTo, Bool.or_eq_true, decide_eq_true_eq] at comes
    rcases comes with rfl | comes
    · exact .refl
    · split at comes
      next => exact nomatch comes
      next next unwrapped => exact .head unwrapped (ih comes)

theorem mem_iff_of_sameKinds {set : StringSet} {kinds : List TokenKind}
    (same : sameKinds set kinds = true) (kind : TokenKind) : kind ∈ set ↔ kind ∈ kinds := by
  simp only [sameKinds, Bool.and_eq_true, List.all_eq_true, List.contains_iff_mem,
    StringSet.contains_iff] at same
  exact ⟨same.1 kind, same.2 kind⟩

theorem find?_iff_mem_kinds {table : OperatorTable} {kind : TokenKind} :
    (∃ operator, table.find? kind = some operator) ↔ kind ∈ table.kinds := by
  unfold OperatorTable.find? OperatorTable.kinds
  induction table.entries with
  | nil => simp
  | cons entry rest ih =>
    obtain ⟨other, operator⟩ := entry
    rw [List.lookup_cons, List.map_cons, List.mem_cons]
    by_cases same : kind = other
    · simp [same]
    · have differs : (kind == other) = false := beq_false_of_ne same
      simp only [differs, same, false_or]
      exact ih

/-- What the check for a terminal says. -/
theorem exists_of_isTerminal {depth : Nat} {kinds : List TokenKind} {reserved : Reserved}
    {place : Place} (checked : store.isTerminal endKind depth kinds reserved place = true) :
    ∃ id rule, store.Wraps place (.inside id) ∧ store.rules[id]? = some rule ∧
      rule.kind = .terminal ∧ (∀ kind, kind ∈ rule.kinds ↔ kind ∈ kinds) ∧ endKind ∉ kinds ∧
        rule.reserved = reserved := by
  have wraps := store.wraps_core depth place
  unfold isTerminal at checked
  split at checked
  next id same =>
    rw [same] at wraps
    obtain ⟨rule, found, checked⟩ := (Option.any_eq_true _ _).mp checked
    simp only [Bool.and_eq_true, decide_eq_true_eq] at checked
    obtain ⟨⟨⟨kind, same⟩, notEnd⟩, reserved⟩ := checked
    exact ⟨id, rule, wraps, found, kind, mem_iff_of_sameKinds same,
      Form.not_mem_of_not_contains notEnd, reserved⟩
  next => exact nomatch checked

/-- What is found as a rule with a sub-rule, is one. -/
theorem exists_of_partOf? {kind : RuleKind} {depth : Nat} {place : Place} {part : Rule × RuleId}
    (found : store.partOf? kind depth place = some part) :
    ∃ id rest, store.Wraps place (.inside id) ∧ store.rules[id]? = some part.1 ∧
      part.1.kind = kind ∧ part.1.children = part.2 :: rest := by
  have wraps := store.wraps_core depth place
  unfold partOf? at found
  split at found
  next id same =>
    rw [same] at wraps
    split at found
    next rule isRule =>
      split at found
      next isKind =>
        obtain ⟨sub, first, rfl⟩ := Option.map_eq_some_iff.mp found
        obtain ⟨rest, children⟩ := List.head?_eq_some_iff.mp first
        exact ⟨id, rest, wraps, isRule, isKind, children⟩
      next => exact nomatch found
    next => exact nomatch found
  next => exact nomatch found

/-- What the check finds is realized. -/
theorem realizes_of_check {ν : Type} {entry : ν → RuleId} {depth : Nat} {form : Form ν}
    {place : Place} (checked : store.realizes endKind entry depth form place = true) :
    store.Realizes endKind entry form place := by
  induction form generalizing place with
  | token kinds =>
    obtain ⟨_, _, wraps, found, kind, same, notEnd, reserved⟩ := exists_of_isTerminal checked
    exact .token wraps found kind same notEnd reserved
  | unreserved kinds =>
    obtain ⟨_, _, wraps, found, kind, same, notEnd, reserved⟩ := exists_of_isTerminal checked
    exact .unreserved wraps found kind same notEnd reserved
  | symbol name => exact .symbol (wraps_of_comesTo checked)
  | empty =>
    have wraps := store.wraps_core depth place
    rw [of_decide_eq_true checked] at wraps
    exact .empty wraps
  | sequence a b iha ihb =>
    have wraps := store.wraps_core depth place
    simp only [realizes] at checked
    split at checked
    next component rest same =>
      rw [same] at wraps
      obtain ⟨first, second⟩ := Bool.and_eq_true_iff.mp checked
      exact .sequence wraps (iha first) (ihb second)
    next => exact nomatch checked
  | choice a b iha ihb =>
    have wraps := store.wraps_core depth place
    simp only [realizes] at checked
    split at checked
    next alternative rest same =>
      rw [same] at wraps
      obtain ⟨first, second⟩ := Bool.and_eq_true_iff.mp checked
      exact .choice wraps (iha first) (ihb second)
    next => exact nomatch checked
  | optional form ih =>
    obtain ⟨part, isPart, checked⟩ := (Option.any_eq_true _ _).mp checked
    obtain ⟨id, rest, wraps, found, kind, children⟩ := exists_of_partOf? isPart
    exact .optional wraps found kind children (ih checked)
  | repetition form ih =>
    obtain ⟨part, isPart, checked⟩ := (Option.any_eq_true _ _).mp checked
    obtain ⟨id, rest, wraps, found, kind, children⟩ := exists_of_partOf? isPart
    exact .repetition wraps found kind children (ih checked)
  | chain form operators ih =>
    obtain ⟨part, isPart, checked⟩ := (Option.any_eq_true _ _).mp checked
    obtain ⟨id, rest, wraps, found, kind, children⟩ := exists_of_partOf? isPart
    simp only [Bool.and_eq_true] at checked
    obtain ⟨⟨tableFound, notEnd⟩, checked⟩ := checked
    obtain ⟨table, table?, same⟩ := (Option.any_eq_true _ _).mp tableFound
    refine .chain wraps found kind table? children (fun kind => ?_)
      (Form.not_mem_of_not_contains notEnd) (ih checked)
    rw [find?_iff_mem_kinds, ← StringSet.mem_ofList]
    exact mem_iff_of_sameKinds same kind

end Checking

end Store

end Grammatic
