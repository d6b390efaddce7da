import Grammatic.Proofs.Evaluation.Units
import Grammatic.Proofs.Script.Setup
import Grammatic.Proofs.Script.Shape

/-!
# Script parsers make formed trees

What the value of a rule adds to the children of a node can be told from the rules: a slot of values of
some kinds (`slot?`). The slots of the components that a tagged rule captures, one behind the other, then
have to be those of the nodes of its kind, and this is checked of all rules that a script parser is made
of. The rules that refer to each other have their slots told beforehand (`Entries.slot?`), and the check
is that they keep to them.

By induction on the value, whatever a rule matches with stands in its slot, and all nodes in it are formed
(`Yields`, `yields_of_gives`). So all units of a script are formed trees (`units_formed`).

A choice whose first alternative never fails takes no other. It is so that the first and the last clause
of a for statement are always lists of expressions, and only its condition can be an empty statement.
-/

namespace Grammatic

/-! ## Slots of rules -/

namespace Slot

/-- Whether what can stand in a slot can stand in another. -/
def within (slot other : Slot) : Bool :=
  slot.kinds.all other.kinds.contains && (!other.required || slot.required) &&
    (!other.single || slot.single)

/-- What can stand in one of several slots. -/
def either (slots : List Slot) : Slot :=
  ⟨slots.flatMap (·.kinds), slots.all (·.required), slots.all (·.single)⟩

/-- Whether what stands in a row of slots, one behind the other, can stand in another row. A last slot for
any number of values takes all that is left. -/
def fills : List Slot → List Slot → Bool
  | row, [] => row.isEmpty
  | row, slot :: rest =>
    (rest.isEmpty && !slot.required && !slot.single &&
      row.all fun other => other.kinds.all slot.kinds.contains) ||
    match row with
    | [] => false
    | first :: more => first.within slot && fills more rest

theorem subset_of_all {kinds others : List ValueKind} (all : kinds.all others.contains = true) :
    kinds ⊆ others := by
  intro kind mem
  exact List.contains_iff_mem.mp (List.all_eq_true.mp all kind mem)

theorem Admits.within {slot other : Slot} {values : List Value} (admits : slot.Admits values)
    (within : slot.within other = true) : other.Admits values := by
  simp only [Slot.within, Bool.and_eq_true, Bool.or_eq_true, Bool.not_eq_true'] at within
  obtain ⟨⟨kinds, required⟩, single⟩ := within
  refine ⟨fun value mem => (admits.kinds value mem).mono (subset_of_all kinds), ?_, ?_⟩
  · intro needed
    exact admits.required (required.resolve_left (by rw [needed]; exact nofun))
  · intro needed
    exact admits.single (single.resolve_left (by rw [needed]; exact nofun))

theorem within_either {slot : Slot} {slots : List Slot} (mem : slot ∈ slots) :
    slot.within (either slots) = true := by
  simp only [within, either, Bool.and_eq_true, Bool.or_eq_true, Bool.not_eq_true', List.all_eq_true,
    List.contains_iff_mem]
  refine ⟨⟨fun kind among => List.mem_flatMap.mpr ⟨slot, mem, among⟩, ?_⟩, ?_⟩
  · cases all : slots.all (·.required) with
    | true => exact .inr (List.all_eq_true.mp all slot mem)
    | false => exact .inl rfl
  · cases all : slots.all (·.single) with
    | true => exact .inr (List.all_eq_true.mp all slot mem)
    | false => exact .inl rfl

end Slot

/-- What stands in a row stands in a row that it fills. -/
theorem Fits.of_fills {row other : List Slot} {values : List Value} (fits : Fits row values)
    (filled : Slot.fills row other = true) : Fits other values := by
  induction other generalizing row values with
  | nil =>
    unfold Slot.fills at filled
    obtain rfl := List.isEmpty_iff.mp filled
    exact fits
  | cons slot rest ih =>
    unfold Slot.fills at filled
    simp only [Bool.or_eq_true, Bool.and_eq_true, Bool.not_eq_true', List.isEmpty_iff,
      List.all_eq_true] at filled
    rcases filled with ⟨⟨⟨rfl, optional⟩, many⟩, all⟩ | filled
    · -- the last slot takes the values of all that is left of the row
      have kinds : row.flatMap (·.kinds) ⊆ slot.kinds := by
        intro kind mem
        obtain ⟨other, among, mem⟩ := List.mem_flatMap.mp mem
        exact List.contains_iff_mem.mp (all other among kind mem)
      have admits : slot.Admits values :=
        ⟨fun value mem => (fits.isA value mem).mono kinds, by rw [optional]; exact nofun,
          by rw [many]; exact nofun⟩
      exact fits_cons.mpr ⟨values, [], by simp, admits, .nil⟩
    · cases fits with
      | nil => exact nomatch filled
      | cons admits fits =>
        obtain ⟨within, filled⟩ := Bool.and_eq_true_iff.mp filled
        exact .cons (admits.within within) (ih fits filled)

namespace Script

/-- What a literal reads a token as. -/
def literalKind : Literal → ValueKind
  | .number => .number
  | .name | .string => .text
  | .null => .absent
  | .truth _ => .flag

/-- What the node of a kind adds, if it is made of what stands in a row: itself, or its part if it is a
primary expression. -/
def nodeSlot? (kind : NodeKind) (row : List Slot) : Option Slot :=
  if kind = .primaryExpr then
    match row with
    | [part] => if part.required && part.single then some part else none
    | _ => none
  else if !kind.isLeaf && Slot.fills row kind.slots then some (.one [.node kind]) else none

/-- What the value of a rule adds to the children of a node, given what those of its sub-rules do. -/
def ruleSlot? (store : Store) (part : RuleId → Option Slot) (rule : Rule) : Option Slot :=
  match rule.kind, rule.literal with
  | .terminal, none => some (.optional [])
  | .terminal, some literal =>
    (rule.tag.bind NodeKind.ofTag?).bind fun kind =>
      if kind.isLeaf && kind.slots = [.one [literalKind literal]] then some (.one [.node kind])
      else none
  | .sequence, _ =>
    ((rule.children.filter store.captures).mapM part).bind fun row =>
      match rule.tag with
      | none => some (row.headD (.optional []))
      | some tag => (NodeKind.ofTag? tag).bind (nodeSlot? · row)
  | .alternation, _ =>
    ((Store.upTo (store.neverFails store.rules.size) rule.children).mapM part).map .either
  | .optional, _ => (rule.children.head?.bind part).map fun slot => { slot with required := false }
  | .repetition, _ => (rule.children.head?.bind part).map fun slot => .many slot.kinds
  | .capture, _ => rule.children.head?.bind part
  | .expression, _ =>
    (rule.children.head?.bind part).bind fun operand =>
      (rule.tag.bind NodeKind.ofTag?).bind fun kind =>
        let side : Slot := .one (.node kind :: operand.kinds)
        if operand.within side && (nodeSlot? kind [side, .one [.text], side]).any (·.within side) then
          some side
        else none

/-- What the value of a rule adds to the children of a node, by a search of bounded depth that stops at
rules of which it is known. -/
def slot? (store : Store) (known : RuleId → Option Slot) : Nat → RuleId → Option Slot
  | 0, id => known id
  | depth + 1, id =>
    match known id with
    | some slot => some slot
    | none => store.rules[id]?.bind (ruleSlot? store (slot? store known depth))

/-- Whether a rule keeps to the slot that is known of it. -/
def keepsTo (store : Store) (known : RuleId → Option Slot) (id : RuleId) : Bool :=
  (store.rules[id]?.bind (ruleSlot? store (slot? store known store.rules.size))).any fun slot =>
    (known id).all slot.within

/-- What is known of the entries. -/
def Nonterminal.slot : Nonterminal → Slot
  | .expression => .one expressionNodes
  | .block => .one [.node .block]
  | .statement => .one statementNodes
  | .program => .one unitNodes

/-- The slots of the rules that refer to each other. -/
def Entries.slot? (entries : Entries) (id : RuleId) : Option Slot :=
  ([Nonterminal.expression, .block, .statement, .program].find? (entries.rule · = id)).map (·.slot)

/-! ## Values in their slots -/

/-- The value of a rule stands in a slot, and the nodes in it are formed. A single value is itself what
stands there. -/
structure Yields (slot : Slot) (value : Value) : Prop where
  admits : slot.Admits (spliced value)
  formed : ∀ sub children, .tree sub children ∈ spliced value → Formed (.tree sub children)
  whole : slot.required = true → slot.single = true → spliced value = [value]

theorem Yields.within {slot other : Slot} {value : Value} (yields : Yields slot value)
    (within : slot.within other = true) : Yields other value := by
  refine ⟨yields.admits.within within, yields.formed, ?_⟩
  simp only [Slot.within, Bool.and_eq_true, Bool.or_eq_true, Bool.not_eq_true'] at within
  obtain ⟨⟨-, required⟩, single⟩ := within
  intro needed alone
  exact yields.whole (required.resolve_left (by rw [needed]; exact nofun))
    (single.resolve_left (by rw [alone]; exact nofun))

/-- Nothing may be missing where nothing is required. -/
theorem yields_absent {slot : Slot} (optional : slot.required = false) : Yields slot .absent := by
  have admits : slot.Admits [] := ⟨by simp, by rw [optional]; exact nofun, fun _ => Nat.zero_le _⟩
  exact ⟨admits, fun _ _ mem => (nomatch mem), by rw [optional]; exact nofun⟩

/-- What stands in a slot may as well be missing. -/
theorem Yields.optional {slot : Slot} {value : Value} (yields : Yields slot value) :
    Yields { slot with required := false } value :=
  ⟨⟨yields.admits.kinds, nofun, yields.admits.single⟩, yields.formed, nofun⟩

theorem yields_tree {kind : NodeKind} {children : List Value}
    (formed : Formed (.tree kind children)) : Yields (.one [.node kind]) (.tree kind children) where
  admits := Slot.admits_one.mpr ⟨_, rfl, .node kind, List.mem_cons_self, rfl⟩
  formed sub subChildren mem := by
    rw [List.mem_singleton.mp mem]
    exact formed
  whole _ _ := rfl

/-- Values in slots are spliced into a row. -/
theorem fits_flatten {slots : List Slot} {values : List Value} (all : List.Forall₂ Yields slots values) :
    Fits slots (flatten values) ∧
      ∀ sub children, .tree sub children ∈ flatten values → Formed (.tree sub children) := by
  induction all with
  | nil => exact ⟨.nil, fun _ _ mem => (nomatch mem)⟩
  | @cons slot value slots values yields _ ih =>
    obtain ⟨fits, formed⟩ := ih
    refine ⟨.cons yields.admits fits, fun sub children mem => ?_⟩
    rcases List.mem_append.mp mem with mem | mem
    · exact yields.formed sub children mem
    · exact formed sub children mem

theorem yields_list {slot : Slot} {values : List Value} (all : ∀ value ∈ values, Yields slot value) :
    Yields (.many slot.kinds) (.list values) := by
  have each : List.Forall₂ Yields (values.map fun _ => slot) values := by
    rw [List.forall₂_map_left_iff, List.forall₂_same]
    exact all
  obtain ⟨fits, formed⟩ := fits_flatten each
  refine ⟨Slot.admits_many.mpr fun value mem => ?_, formed, nofun⟩
  refine (fits.isA value mem).mono fun kind mem => ?_
  obtain ⟨_, among, mem⟩ := List.mem_flatMap.mp mem
  obtain ⟨_, -, rfl⟩ := List.mem_map.mp among
  exact mem

/-- A primary expression of a single part is that part. -/
theorem nodeOf_primary {values : List Value} {part : Value} (single : flatten values = [part]) :
    nodeOf .primaryExpr values = .ok part := by
  simp [nodeOf, NodeKind.isLeaf, single]

/-- The node that is made of a row stands in the slot that is told for it. -/
theorem yields_nodeOf {kind : NodeKind} {row : List Slot} {slot : Slot} {values : List Value}
    {value : Value} (told : nodeSlot? kind row = some slot) (all : List.Forall₂ Yields row values)
    (made : nodeOf kind values = .ok value) : Yields slot value := by
  obtain ⟨fits, formed⟩ := fits_flatten all
  unfold nodeSlot? at told
  split at told
  next primary =>
    subst primary
    split at told
    next part =>
      split at told
      next needed =>
        obtain rfl := Option.some.inj told
        obtain ⟨required, single⟩ := Bool.and_eq_true_iff.mp needed
        have admits : part.Admits (flatten values) := by
          obtain ⟨_, _, same, admits, rest⟩ := fits_cons.mp fits
          rwa [same, fits_nil.mp rest, List.append_nil]
        obtain ⟨only, flat⟩ := List.length_eq_one_iff.mp (Nat.le_antisymm (admits.single single)
          (List.length_pos_iff.mpr (admits.required required)))
        obtain rfl := Except.ok.inj ((nodeOf_primary flat).symm.trans made)
        have whole := spliced_of_nodeOf made
        rw [flat, ← whole] at admits formed
        exact ⟨admits, formed, fun _ _ => whole⟩
      next => exact nomatch told
    next => exact nomatch told
  next other =>
    split at told
    next checked =>
      obtain rfl := Option.some.inj told
      obtain ⟨inner, filled⟩ := Bool.and_eq_true_iff.mp checked
      rcases eq_of_nodeOf_inner ((Bool.not_eq_true' _).mp inner) made with rfl | ⟨primary, -⟩
      · exact yields_tree (.node (fits.of_fills filled) formed)
      · exact absurd primary other
    next => exact nomatch told

/-! ## Values of rules -/

theorem forall₂_of_mapM {α β : Type} {f : α → Option β} {items : List α} {results : List β}
    (all : items.mapM f = some results) :
    List.Forall₂ (fun item result => f item = some result) items results := by
  induction items generalizing results with
  | nil =>
    obtain rfl := Option.some.inj all
    exact .nil
  | cons item rest ih =>
    rw [List.mapM_cons] at all
    obtain ⟨result, first, more⟩ := Option.bind_eq_some_iff.mp all
    obtain ⟨results, others, same⟩ := Option.bind_eq_some_iff.mp more
    obtain rfl := Option.some.inj same
    exact .cons first (ih others)

theorem exists_of_mem_forall₂ {α β : Type} {related : α → β → Prop} {items : List α} {results : List β}
    (all : List.Forall₂ related items results) {item : α} (mem : item ∈ items) :
    ∃ result ∈ results, related item result := by
  induction all with
  | nil => exact nomatch mem
  | @cons first result rest results holds _ ih =>
    rcases List.mem_cons.mp mem with rfl | mem
    · exact ⟨result, List.mem_cons_self, holds⟩
    · obtain ⟨other, among, holds⟩ := ih mem
      exact ⟨other, List.mem_cons_of_mem _ among, holds⟩

section Rules

variable {store : Store} {grammar : Grammar} {buffer : TokenBuffer} {part : RuleId → Option Slot}
  {rule : Rule} {slot : Slot} {start next : Nat} {value : Value}

/-- The values of rules stand in the slots that are told for them. -/
def KeepTo (part : RuleId → Option Slot) (id : RuleId) (_ : Nat) (value : Value) (_ : Nat) : Prop :=
  ∀ slot, part id = some slot → Yields slot value

/-- What a sequence collects stands in the row of the components that it captures. -/
theorem yields_of_collects {components : List RuleId} {values : List Value} {row : List Slot}
    (collects : Setting.Collects ⟨store, grammar, trees, buffer⟩ (KeepTo part) components start values
      next)
    (told : List.Forall₂ (fun id slot => part id = some slot) (components.filter store.captures) row) :
    List.Forall₂ Yields row values := by
  induction collects generalizing row with
  | none =>
    cases told
    exact .nil
  | captured captures yielded _ ih =>
    rw [List.filter_cons_of_pos captures] at told
    cases told with
    | cons told rest => exact .cons (yielded _ told) (ih rest)
  | passed captures _ _ ih =>
    rw [List.filter_cons_of_neg (by rw [captures]; exact Bool.false_ne_true)] at told
    exact ih told

theorem yields_of_repeats {sub : RuleId} {values : List Value}
    (repeats : Setting.Repeats (KeepTo part sub) start values next) (known : part sub = some slot) :
    ∀ value ∈ values, Yields slot value := by
  induction repeats with
  | none => simp
  | element yielded _ ih =>
    intro value mem
    rcases List.mem_cons.mp mem with rfl | mem
    · exact yielded slot known
    · exact ih value mem

/-- Operands and operations stand in a slot, if operands do and operations of what stands there do. -/
theorem yields_of_operated {operand : RuleId} {tag : Option NodeTag} {table : OperatorTable}
    {kind : NodeKind} {side : Slot}
    (operated : Setting.Operated ⟨store, grammar, trees, buffer⟩ (KeepTo part operand) tag table start
      value next)
    (named : tag.bind NodeKind.ofTag? = some kind) (known : part operand = some slot)
    (within : slot.within side = true)
    (folds : (nodeSlot? kind [side, .one [.text], side]).any (·.within side) = true) :
    Yields side value := by
  induction operated with
  | operand yielded => exact (yielded slot known).within within
  | operator _ _ _ made left right =>
    obtain ⟨folded, told, within⟩ := (Option.any_eq_true _ _).mp folds
    simp only [trees, named] at made
    have mark (text : String) : Yields (.one [.text]) (.scalar (.text text)) :=
      ⟨Slot.admits_one.mpr ⟨_, rfl, .text, List.mem_cons_self, rfl⟩,
        fun _ _ mem => (by cases List.mem_singleton.mp mem), fun _ _ => rfl⟩
    exact (yields_nodeOf told (.cons left (.cons (mark _) (.cons right .nil))) made).within within

theorem exists_of_map_ok {ε α β : Type} {f : α → β} {result : Except ε α} {mapped : β}
    (made : result.map f = .ok mapped) : ∃ value, mapped = f value := by
  cases result with
  | error _ => exact nomatch made
  | ok value => exact ⟨value, (Except.ok.inj made).symm⟩

/-- A literal reads tokens as values of its kind. -/
theorem kind?_of_literal {literal : Literal} {token : Token} {scalar : Scalar}
    (read : literal.value token = .ok scalar) :
    (Value.scalar scalar).kind? = some (literalKind literal) := by
  cases literal with
  | number =>
    simp only [Literal.value, Literal.readNumber] at read
    split at read
    next =>
      obtain ⟨_, rfl⟩ := exists_of_map_ok read
      rfl
    next =>
      obtain ⟨_, rfl⟩ := exists_of_map_ok read
      rfl
  | name | string | null | truth _ =>
    obtain rfl := Except.ok.inj read
    rfl

/-- A rule other than a choice keeps to its slot, if the rules that its value is made of do. -/
theorem yields_of_madeOf (other : rule.kind ≠ .alternation)
    (made : Setting.MadeOf ⟨store, grammar, trees, buffer⟩ (KeepTo part) rule start value next)
    (told : ruleSlot? store part rule = some slot) : Yields slot value := by
  cases made with
  | delimiter kind delimiter _ =>
    simp only [ruleSlot?, kind, delimiter] at told
    obtain rfl := Option.some.inj told
    exact yields_absent rfl
  | literal kind isLiteral _ read made =>
    simp only [ruleSlot?, kind, isLiteral] at told
    obtain ⟨leaf, named, told⟩ := Option.bind_eq_some_iff.mp told
    split at told
    next checked =>
      obtain rfl := Option.some.inj told
      simp only [Bool.and_eq_true, decide_eq_true_eq] at checked
      obtain ⟨isLeaf, slots⟩ := checked
      simp only [trees, named] at made
      obtain rfl := eq_of_nodeOf_leaf isLeaf made
      refine yields_tree (.node ?_ fun _ _ mem => ?_)
      · rw [slots, fits_one_cons]
        exact ⟨_, [], rfl, ⟨_, List.mem_singleton_self _, kind?_of_literal read⟩, .nil⟩
      · cases List.mem_singleton.mp mem
    next => cases told
  | tagged kind tagged collects made =>
    simp only [ruleSlot?, kind] at told
    obtain ⟨row, each, told⟩ := Option.bind_eq_some_iff.mp told
    obtain ⟨tag, isTag⟩ := Option.ne_none_iff_exists'.mp tagged
    simp only [isTag] at told
    obtain ⟨node, named, told⟩ := Option.bind_eq_some_iff.mp told
    have all := yields_of_collects collects (forall₂_of_mapM each)
    simp only [trees, isTag, Option.bind_some, named] at made
    exact yields_nodeOf told all made
  | untagged kind untagged collects =>
    simp only [ruleSlot?, kind, untagged] at told
    obtain ⟨row, each, told⟩ := Option.bind_eq_some_iff.mp told
    obtain rfl := Option.some.inj told
    cases yields_of_collects collects (forall₂_of_mapM each) with
    | nil => exact yields_absent rfl
    | cons yields _ => exact yields
  | alternative kind _ _ => exact absurd kind other
  | present kind children yielded =>
    simp only [ruleSlot?, kind, children, List.head?_cons, Option.bind_some] at told
    obtain ⟨sub, known, rfl⟩ := Option.map_eq_some_iff.mp told
    exact (yielded sub known).optional
  | absent kind =>
    simp only [ruleSlot?, kind] at told
    obtain ⟨sub, known, rfl⟩ := Option.map_eq_some_iff.mp told
    exact yields_absent rfl
  | repeated kind children repeats =>
    simp only [ruleSlot?, kind, children, List.head?_cons, Option.bind_some] at told
    obtain ⟨sub, known, rfl⟩ := Option.map_eq_some_iff.mp told
    exact yields_list (yields_of_repeats repeats known)
  | capture kind children yielded =>
    simp only [ruleSlot?, kind, children, List.head?_cons, Option.bind_some] at told
    exact yielded slot told
  | operated kind children table? operated =>
    simp only [ruleSlot?, kind, children, List.head?_cons, Option.bind_some] at told
    obtain ⟨operand, known, told⟩ := Option.bind_eq_some_iff.mp told
    obtain ⟨node, named, told⟩ := Option.bind_eq_some_iff.mp told
    split at told
    next checked =>
      obtain rfl := Option.some.inj told
      obtain ⟨within, folds⟩ := Bool.and_eq_true_iff.mp checked
      exact yields_of_operated operated named known within folds
    next => cases told

/-- A choice keeps to its slot, if the alternative that it takes does. -/
theorem yields_of_chosen {setting : Setting Value BuildError} {earlier later : List RuleId}
    {alternative : RuleId} (kind : rule.kind = .alternation)
    (children : rule.children = earlier ++ alternative :: later)
    (fails : ∀ other ∈ earlier, setting.Fails other start)
    (keeps : KeepTo part alternative start value next)
    (told : ruleSlot? setting.store part rule = some slot) : Yields slot value := by
  simp only [ruleSlot?, kind] at told
  obtain ⟨slots, each, rfl⟩ := Option.map_eq_some_iff.mp told
  have goOn : ∀ other ∈ earlier,
      setting.store.neverFails setting.store.rules.size other = false := by
    intro other mem
    exact eq_false_of_ne_true fun never => Setting.not_fails_of_neverFails never (fails other mem)
  have mem : alternative ∈
      Store.upTo (setting.store.neverFails setting.store.rules.size) rule.children := by
    rw [children]
    exact Store.mem_upTo_append goOn
  obtain ⟨own, among, known⟩ := exists_of_mem_forall₂ (forall₂_of_mapM each) mem
  exact (keeps own known).within (Slot.within_either among)

/-- A rule keeps to what is known of it and to what is told of it, if it keeps to what its parts tell. -/
theorem keepTo_of_told {known : RuleId → Option Slot}
    (checked : ∀ id, known id ≠ none → keepsTo store known id = true) {id : RuleId}
    (found : store.rules[id]? = some rule)
    (keeps : ∀ depth slot, ruleSlot? store (slot? store known depth) rule = some slot →
      Yields slot value) (depth : Nat) : KeepTo (slot? store known depth) id start value next := by
  intro slot isSlot
  cases isKnown : known id with
  | some own =>
    obtain rfl : own = slot := by
      cases depth <;> simpa [slot?, isKnown] using isSlot
    have check := checked id (by simp [isKnown])
    simp only [keepsTo, found, Option.bind_some, isKnown, Option.all_some] at check
    obtain ⟨inner, told, within⟩ := (Option.any_eq_true _ _).mp check
    exact (keeps _ inner told).within within
  | none =>
    cases depth with
    | zero => exact nomatch isKnown.symm.trans isSlot
    | succ depth =>
      simp only [slot?, isKnown, found, Option.bind_some] at isSlot
      exact keeps depth slot isSlot

end Rules

/-- If the rules of which slots are known keep to them, then all rules keep to what is told of them. -/
theorem keepTo_of_gives {store : Store} {grammar : Grammar} {buffer : TokenBuffer}
    {known : RuleId → Option Slot}
    (checked : ∀ id, known id ≠ none → keepsTo store known id = true) {id : RuleId} {start next : Nat}
    {value : Value}
    (gives : Setting.Gives ⟨store, grammar, trees, buffer⟩ id start (.matched value next)) :
    ∀ depth, KeepTo (slot? store known depth) id start value next := by
  refine gives.chosen_induction (motive := fun id start value next =>
    ∀ depth, KeepTo (slot? store known depth) id start value next) ?_ ?_
  · intro id rule start value next earlier alternative later found kind children fails keeps
    refine keepTo_of_told checked found fun depth slot told => ?_
    exact yields_of_chosen kind children fails (keeps depth) told
  · intro id rule start value next found other made
    refine keepTo_of_told checked found fun depth slot told => ?_
    exact yields_of_madeOf other (made.mono fun _ _ _ _ keeps => keeps depth) told

/-! ## Units of scripts -/

namespace ScriptParser

/-- Whether the rules of a script parser keep to their slots. -/
def keepsSlots (script : ScriptParser) : Bool :=
  script.entries.slot? script.parser.root = some (.one unitNodes) &&
    [Nonterminal.expression, .block, .statement, .program].all fun name =>
      keepsTo script.store script.entries.slot? (script.entries.rule name)

theorem keepsTo_of_keepsSlots {script : ScriptParser} (keeps : script.keepsSlots = true) (id : RuleId)
    (known : script.entries.slot? id ≠ none) : keepsTo script.store script.entries.slot? id = true := by
  obtain ⟨slot, isSlot⟩ := Option.ne_none_iff_exists'.mp known
  obtain ⟨name, found, -⟩ := Option.map_eq_some_iff.mp isSlot
  obtain rfl : script.entries.rule name = id := by simpa using List.find?_some found
  obtain ⟨-, all⟩ := Bool.and_eq_true_iff.mp keeps
  exact List.all_eq_true.mp all name (List.mem_of_find?_eq_some found)

/-- A unit, in a series or alone, is a match of the root. -/
theorem exists_gives_of_unit {script : ScriptParser} {buffer : TokenBuffer} {unit : Value × Nat}
    (mem : unit ∈ (script.units buffer).values ∨ ∃ position, unit ∈ (script.unit buffer position).values) :
    ∃ start, (script.setting buffer).Gives script.parser.root start (.matched unit.1 unit.2) := by
  rcases mem with mem | ⟨position, mem⟩
  · exact Setting.exists_gives_of_mem_units mem
  · exact ⟨position, Setting.gives_of_mem_unit mem⟩

/-- A unit of a script is a formed tree of one of the kinds of units. -/
theorem unit_formed {script : ScriptParser} (keeps : script.keepsSlots = true) {buffer : TokenBuffer}
    {start next : Nat} {value : Value}
    (gives : (script.setting buffer).Gives script.parser.root start (.matched value next)) :
    value.IsA unitNodes ∧ Formed value := by
  have known : script.entries.slot? script.parser.root = some (.one unitNodes) :=
    of_decide_eq_true (Bool.and_eq_true_iff.mp keeps).1
  have yields := keepTo_of_gives (keepsTo_of_keepsSlots keeps) gives 0 _ known
  have whole := yields.whole rfl rfl
  have isUnit : value.IsA unitNodes := yields.admits.kinds value (by rw [whole]; exact List.mem_cons_self)
  obtain ⟨node, children, rfl⟩ : ∃ node children, value = .tree node children := by
    obtain ⟨_, mem, same⟩ := isUnit
    obtain ⟨node, rfl⟩ := isNode_of_mem_unitNodes _ mem
    exact ⟨node, Value.exists_children_of_kind? same⟩
  exact ⟨isUnit, yields.formed node children (by rw [whole]; exact List.mem_cons_self)⟩

/-- The rules of both vocabularies keep to their slots. -/
theorem keepsSlots_of_known {vocabulary : Vocabulary}
    (known : vocabulary = english ∨ vocabulary = chinese) {bare : ScriptParser}
    (bareMade : ofLexer vocabulary.bareLexer = .ok bare) : bare.keepsSlots = true :=
  of_known_check _ known (by decide +kernel) (by decide +kernel) bareMade

end ScriptParser

/-- For both vocabularies and any tokens, each unit of a script is an expression, another statement, or an
empty statement. Every node in it has the children of its kind. Each part of it that has a name can be had,
and is of the type of the name; no other name is a part. And it has a text and a skeleton. This holds of the
units of a series and of single units. -/
theorem units_formed {vocabulary : Vocabulary}
    (known : vocabulary = english ∨ vocabulary = chinese) :
    ∃ script, ScriptParser.ofVocabulary vocabulary = .ok script ∧
      ∀ (buffer : TokenBuffer) (unit : Value × Nat),
        (unit ∈ (script.units buffer).values ∨
          ∃ position, unit ∈ (script.unit buffer position).values) →
        unit.1.IsA unitNodes ∧
          ∀ kind children, Occurs (.tree kind children) unit.1 →
            let node := Value.tree kind children
            Fits kind.slots children ∧
              (∀ name type, (name, type) ∈ kind.parts → ∃ part, node.part name = .ok part ∧ type.Has part) ∧
              (∀ name, name ∉ kind.parts.map (·.1) → node.part name = .error (.noPart kind.tag name)) ∧
              (∃ text, node.plain = .ok text) ∧ ∃ skeleton, node.skeleton = .ok skeleton := by
  obtain ⟨bare, lexer, bareMade, _, made, _⟩ := exists_bare known
  have keeps := ScriptParser.keepsSlots_of_known known bareMade
  refine ⟨_, made, fun buffer unit mem => ?_⟩
  obtain ⟨start, gives⟩ := bare.exists_gives_of_unit mem
  obtain ⟨isUnit, formed⟩ := ScriptParser.unit_formed keeps gives
  refine ⟨isUnit, fun kind children occurs => ?_⟩
  have formed := formed.of_occurs occurs
  exact ⟨formed.fits, fun _ _ => part_of_formed formed, fun _ => part_of_other, formed.plain_ok,
    formed.skeleton_ok⟩

/-- A for statement with no clauses and an empty block. -/
def emptyLoop : List Token := [
  .mark "kw_for" 0, .mark "paren_o" 4, .mark "semi" 5, .mark "semi" 6, .mark "paren_c" 7,
  .mark "brace_o" 9, .mark "brace_c" 11]

/-- The clauses that are left out leave nodes behind, and its parts are at their places. -/
theorem emptyLoop_formed :
    ∃ script, ScriptParser.ofVocabulary english = .ok script ∧
      let units := (script.units (.ofTokens emptyLoop)).values
      units.map (fun unit => (unit.1.shown, unit.2)) =
          [("ForStmt([OptionStmt([]), NullStmt([]), OptionStmt([]), BlockStmnt([])])", 7)] ∧
        ∀ unit ∈ units, unit.1.IsA unitNodes ∧ ∀ kind children, Occurs (.tree kind children) unit.1 →
          Fits kind.slots children := by
  obtain ⟨script, made, formed⟩ := units_formed (.inl (rfl : english = english))
  obtain ⟨bare, lexer, bareMade, rfl⟩ := exists_bare_of_made (.inl rfl) made
  have checked := ScriptParser.of_made_check (fun script =>
    (script.units (.ofTokens emptyLoop)).values.map (fun unit => (unit.1.shown, unit.2)) =
      [("ForStmt([OptionStmt([]), NullStmt([]), OptionStmt([]), BlockStmnt([])])", 7)])
    (by decide +kernel) bareMade
  refine ⟨_, made, of_decide_eq_true checked, fun unit mem => ?_⟩
  obtain ⟨isUnit, all⟩ := formed (.ofTokens emptyLoop) unit (.inl mem)
  exact ⟨isUnit, fun kind children occurs => (all kind children occurs).1⟩

end Script

end Grammatic
