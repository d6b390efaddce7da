import Grammatic.Proofs.Evaluation.Leading

/-!
# Alternatives in another order

A store with the same rules as another, but for the order in which some alternations try their
alternatives. What is checked of a store by looking at all alternatives of an alternation holds in any
order: which rules consume and settle, and which kinds of token they refuse and start with. So a store in
another order settles if the first does, raises no fault if the first does not, and tells the same rules
apart.
-/

namespace Grammatic

namespace Store

/-- A store in which some alternations may have their alternatives in another order, and all else is as it
is. -/
structure Rearranged (choices : List RuleId) (store other : Store) : Prop where
  rules : ∀ id, other.rules[id]? = store.rules[id]? ∨ ∃ rule children, store.rules[id]? = some rule ∧
    rule.kind = .alternation ∧ children.Perm rule.children ∧
      other.rules[id]? = some { rule with children } ∧ id ∈ choices
  tables : other.tables = store.tables
  wordSets : other.wordSets = store.wordSets
  grammars : other.grammars = store.grammars

namespace Rearranged

variable {choices : List RuleId} {store other : Store}

theorem refl (choices : List RuleId) (store : Store) : store.Rearranged choices store :=
  ⟨fun _ => .inl rfl, rfl, rfl, rfl⟩

theorem size_eq (rearranged : store.Rearranged choices other) :
    other.rules.size = store.rules.size := by
  have same (id : RuleId) : store.rules.size ≤ id ↔ other.rules.size ≤ id := by
    rw [← Array.getElem?_eq_none_iff, ← Array.getElem?_eq_none_iff]
    rcases rearranged.rules id with same | ⟨rule, children, found, _, _, found', _⟩
    · rw [same]
    · simp only [found, found', reduceCtorEq]
  exact Nat.le_antisymm ((same _).mp (Nat.le_refl _)) ((same _).mpr (Nat.le_refl _))

/-- Each rule of a store in another order is one of the first, but for the order of its children. -/
theorem exists_rule (rearranged : store.Rearranged choices other) {rule' : Rule}
    (mem : rule' ∈ other.rules) :
    ∃ rule ∈ store.rules, ∃ children, children.Perm rule.children ∧ rule' = { rule with children } := by
  obtain ⟨id, found⟩ := Array.mem_iff_getElem?.mp mem
  rcases rearranged.rules id with same | ⟨rule, children, found', _, perm, reordered, _⟩
  · rw [same] at found
    exact ⟨rule', Array.mem_of_getElem? found, rule'.children, .refl _, rfl⟩
  · obtain rfl := Option.some.inj (reordered.symm.trans found)
    exact ⟨rule, Array.mem_of_getElem? found', children, perm, rfl⟩

theorem tableOf?_eq (rearranged : store.Rearranged choices other) : other.tableOf? = store.tableOf? := by
  funext rule
  simp only [tableOf?, rearranged.tables]

theorem hasWord_eq (rearranged : store.Rearranged choices other) : other.hasWord = store.hasWord := by
  funext words word
  cases words <;> simp only [hasWord, rearranged.wordSets]

theorem captures_eq (rearranged : store.Rearranged choices other) : other.captures = store.captures := by
  funext id
  rcases rearranged.rules id with same | ⟨rule, children, found, _, _, found', _⟩
  · simp only [captures, same]
  · simp only [captures, found, found', Option.any_some]
    rfl

theorem childrenOf_perm (rearranged : store.Rearranged choices other) (id : RuleId) :
    (other.childrenOf id).Perm (store.childrenOf id) := by
  rcases rearranged.rules id with same | ⟨rule, children, found, _, perm, found', _⟩
  · rw [childrenOf, same]
    rfl
  · rw [childrenOf_of_getElem? found, childrenOf_of_getElem? found']
    exact perm

/-! ## Checks in another order -/

theorem consumes_eq (rearranged : store.Rearranged choices other) (endKind : TokenKind) (depth : Nat) :
    other.consumes endKind depth = store.consumes endKind depth := by
  induction depth with
  | zero => rfl
  | succ depth ih =>
    funext id
    rcases rearranged.rules id with same | ⟨rule, children, found, kind, perm, found', _⟩
    · simp only [consumes, same, ih]
    · simp only [consumes, found, found', kind, ih]
      exact perm.all_eq

theorem settles_eq (rearranged : store.Rearranged choices other) (endKind : TokenKind) (steps : Nat) :
    other.settles endKind steps = store.settles endKind steps := by
  induction steps with
  | zero => rfl
  | succ steps ih =>
    funext id
    rcases rearranged.rules id with same | ⟨rule, children, found, kind, perm, found', _⟩
    · simp only [settles, leftChildren, same, rearranged.consumes_eq, rearranged.size_eq, ih]
    · simp only [settles, leftChildren, found, found', kind, ih]
      exact perm.all_eq

theorem settled_eq (rearranged : store.Rearranged choices other) (endKind : TokenKind) :
    other.settled endKind = store.settled endKind := by
  rw [settled, settled, rearranged.size_eq, rearranged.settles_eq]

theorem refuses_eq (rearranged : store.Rearranged choices other) (kind : TokenKind) (depth : Nat) :
    other.refuses kind depth = store.refuses kind depth := by
  induction depth with
  | zero => rfl
  | succ depth ih =>
    funext id
    rcases rearranged.rules id with same | ⟨rule, children, found, form, perm, found', _⟩
    · simp only [refuses, same, rearranged.tableOf?_eq, ih]
    · simp only [refuses, found, found', form, ih]
      rw [perm.all_eq, perm.isEmpty_eq]

theorem startsWithin_eq (rearranged : store.Rearranged choices other) (kinds : List TokenKind)
    (depth : Nat) : other.startsWithin kinds depth = store.startsWithin kinds depth := by
  induction depth with
  | zero => rfl
  | succ depth ih =>
    funext id
    rcases rearranged.rules id with same | ⟨rule, children, found, kind, perm, found', _⟩
    · simp only [startsWithin, same, ih]
    · simp only [startsWithin, found, found', kind, ih]
      exact perm.all_eq

theorem tellsApart_eq (rearranged : store.Rearranged choices other) (kinds : List TokenKind)
    {ids ids' : List RuleId} (perm : ids'.Perm ids) :
    other.tellsApart kinds ids' = store.tellsApart kinds ids := by
  simp only [tellsApart, rearranged.startsWithin_eq, rearranged.refuses_eq, rearranged.size_eq,
    perm.all_eq, perm.countP_eq]

end Rearranged

end Store

namespace Setting

variable {α ε : Type} {setting : Setting α ε} {choices : List RuleId} {other : Store}

/-- A setting with other rules. -/
def withStore (setting : Setting α ε) (store : Store) : Setting α ε := { setting with store }

@[simp] theorem store_withStore : (setting.withStore other).store = other := rfl

@[simp] theorem buffer_withStore : (setting.withStore other).buffer = setting.buffer := rfl

@[simp] theorem factory_withStore : (setting.withStore other).factory = setting.factory := rfl

variable (rearranged : setting.store.Rearranged choices other)

include rearranged

theorem accepts_withStore : (setting.withStore other).accepts = setting.accepts := by
  funext rule token
  simp only [accepts, reserves, withStore, rearranged.hasWord_eq]

theorem Faultless.withStore (faultless : setting.Faultless) :
    (setting.withStore other).Faultless where
  complete rule' mem' := by
    obtain ⟨rule, mem, children, perm, rfl⟩ := rearranged.exists_rule mem'
    rcases faultless.complete rule mem with terminal | sequence | ⟨some, table⟩
    · exact .inl terminal
    · exact .inr (.inl sequence)
    · refine .inr (.inr ⟨fun none => ?_, fun kind => ?_⟩)
      · rw [show children = [] from none] at perm
        exact some perm.nil_eq.symm
      · rw [store_withStore, rearranged.tableOf?_eq]
        exact table kind
  readable rule' mem' literal isLiteral position accepted := by
    obtain ⟨rule, mem, children, _, rfl⟩ := rearranged.exists_rule mem'
    rw [accepts_withStore rearranged] at accepted
    exact faultless.readable rule mem literal isLiteral position accepted
  literals rule' mem' kind isLiteral := by
    obtain ⟨rule, mem, children, _, rfl⟩ := rearranged.exists_rule mem'
    exact faultless.literals rule mem kind isLiteral
  sequences rule' mem' kind tagged := by
    obtain ⟨rule, mem, children, _, rfl⟩ := rearranged.exists_rule mem'
    exact faultless.sequences rule mem kind tagged
  expressions rule' mem' kind := by
    obtain ⟨rule, mem, children, _, rfl⟩ := rearranged.exists_rule mem'
    exact faultless.expressions rule mem kind

end Setting

end Grammatic
