import Grammatic.Value

/-!
# The shape of script trees

Each kind of script node has a row of children, told by `NodeKind.slots`: one value of some kinds, one or
none, or any number of them. A tree is `Formed` if all its nodes have the children of their kind. Nothing
that was dropped or spliced on the way into a tree can be left in it, then, and each child stands at the
place where it is looked for.

So in a tree that is formed every part of a node that has a name can be had, and is of the type that the
name promises (`part_of_formed`), and every node has a plain text and a skeleton (`Formed.plain_ok`,
`Formed.skeleton_ok`).
-/

namespace Grammatic

open Script (NodeKind)

/-! ## Kinds of values -/

/-- What a value is: a node of a script tree, or a scalar of some type. -/
inductive ValueKind where
  | node (kind : NodeKind)
  | text
  | number
  | flag
  | absent
  deriving DecidableEq, Repr

namespace Value

/-- What a value is, unless it is a value that no script tree has in it. -/
def kind? : Value → Option ValueKind
  | .tree kind _ => some (.node kind)
  | .scalar (.text _) => some .text
  | .scalar (.int _) | .scalar (.real _) => some .number
  | .scalar (.flag _) => some .flag
  | .scalar .absent => some .absent
  | .list _ | .tuple _ | .node _ _ | .token _ => none

/-- A value is of one of some kinds. -/
def IsA (value : Value) (kinds : List ValueKind) : Prop := ∃ kind ∈ kinds, value.kind? = some kind

theorem IsA.mono {value : Value} {kinds others : List ValueKind} (sub : kinds ⊆ others)
    (isA : value.IsA kinds) : value.IsA others := by
  obtain ⟨kind, mem, same⟩ := isA
  exact ⟨kind, sub mem, same⟩

theorem exists_children_of_kind? {value : Value} {kind : NodeKind}
    (same : value.kind? = some (.node kind)) : ∃ children, value = .tree kind children := by
  cases value with
  | tree other children =>
    obtain rfl := ValueKind.node.inj (Option.some.inj same)
    exact ⟨children, rfl⟩
  | scalar value => cases value <;> exact nomatch same
  | list _ | tuple _ | node _ _ | token _ => exact nomatch same

end Value

/-! ## Rows of children -/

/-- A stretch of values of some kinds. -/
structure Slot where
  kinds : List ValueKind
  /-- Whether there is a value. -/
  required : Bool
  /-- Whether there is no second value. -/
  single : Bool
  deriving DecidableEq, Repr

namespace Slot

/-- One value of some kinds. -/
def one (kinds : List ValueKind) : Slot := ⟨kinds, true, true⟩

/-- One value of some kinds, or none. -/
def optional (kinds : List ValueKind) : Slot := ⟨kinds, false, true⟩

/-- Any number of values of some kinds. -/
def many (kinds : List ValueKind) : Slot := ⟨kinds, false, false⟩

/-- What can stand in a slot. -/
structure Admits (slot : Slot) (values : List Value) : Prop where
  kinds : ∀ value ∈ values, value.IsA slot.kinds
  required : slot.required = true → values ≠ []
  single : slot.single = true → values.length ≤ 1

variable {kinds : List ValueKind} {values : List Value}

theorem admits_one : (one kinds).Admits values ↔ ∃ value, values = [value] ∧ value.IsA kinds := by
  constructor
  · intro admits
    obtain ⟨value, same⟩ := List.length_eq_one_iff.mp
      (Nat.le_antisymm (admits.single rfl) (List.length_pos_iff.mpr (admits.required rfl)))
    subst same
    exact ⟨value, rfl, admits.kinds value List.mem_cons_self⟩
  · rintro ⟨value, rfl, isA⟩
    exact ⟨List.forall_mem_singleton.mpr isA, by simp, by simp⟩

theorem admits_optional :
    (optional kinds).Admits values ↔ values = [] ∨ ∃ value, values = [value] ∧ value.IsA kinds := by
  constructor
  · intro admits
    cases values with
    | nil => exact .inl rfl
    | cons value rest =>
      have none : rest = [] := by simpa using admits.single rfl
      subst none
      exact .inr ⟨value, rfl, admits.kinds value List.mem_cons_self⟩
  · rintro (rfl | ⟨value, rfl, isA⟩)
    · exact ⟨by simp, nofun, by simp⟩
    · exact ⟨List.forall_mem_singleton.mpr isA, nofun, by simp⟩

theorem admits_many : (many kinds).Admits values ↔ ∀ value ∈ values, value.IsA kinds :=
  ⟨fun admits => admits.kinds, fun all => ⟨all, nofun, nofun⟩⟩

end Slot

/-- Values in a row of slots, one stretch for each. -/
inductive Fits : List Slot → List Value → Prop
  | nil : Fits [] []
  | cons {slot : Slot} {rest : List Slot} {values more : List Value} (admits : slot.Admits values)
      (fits : Fits rest more) : Fits (slot :: rest) (values ++ more)

section Rows

variable {kinds : List ValueKind} {slot : Slot} {rest : List Slot} {values : List Value}

@[simp] theorem fits_nil : Fits [] values ↔ values = [] := by
  constructor
  · rintro ⟨⟩
    rfl
  · rintro rfl
    exact .nil

theorem fits_cons : Fits (slot :: rest) values ↔
    ∃ front back, values = front ++ back ∧ slot.Admits front ∧ Fits rest back := by
  constructor
  · rintro ⟨⟩
    exact ⟨_, _, rfl, ‹_›, ‹_›⟩
  · rintro ⟨front, back, rfl, admits, fits⟩
    exact .cons admits fits

@[simp] theorem fits_one_cons : Fits (.one kinds :: rest) values ↔
    ∃ value more, values = value :: more ∧ value.IsA kinds ∧ Fits rest more := by
  constructor
  · intro fits
    obtain ⟨_, more, rfl, admits, behind⟩ := fits_cons.mp fits
    obtain ⟨value, rfl, isA⟩ := Slot.admits_one.mp admits
    exact ⟨value, more, rfl, isA, behind⟩
  · rintro ⟨value, more, rfl, isA, fits⟩
    exact fits_cons.mpr ⟨[value], more, rfl, Slot.admits_one.mpr ⟨value, rfl, isA⟩, fits⟩

@[simp] theorem fits_optional :
    Fits [.optional kinds] values ↔ values = [] ∨ ∃ value, values = [value] ∧ value.IsA kinds := by
  rw [fits_cons, ← Slot.admits_optional]
  simp

@[simp] theorem fits_many :
    Fits [.many kinds] values ↔ ∀ value ∈ values, value.IsA kinds := by
  rw [fits_cons, ← Slot.admits_many]
  simp

/-- Values in a row are of the kinds of its slots. -/
theorem Fits.isA {row : List Slot} (fits : Fits row values) :
    ∀ value ∈ values, value.IsA (row.flatMap (·.kinds)) := by
  induction fits with
  | nil => simp
  | @cons slot rest values more admits _ ih =>
    intro value mem
    rw [List.flatMap_cons]
    rcases List.mem_append.mp mem with mem | mem
    · exact (admits.kinds value mem).mono (List.subset_append_left _ _)
    · exact (ih value mem).mono (List.subset_append_right _ _)

end Rows

namespace Script

/-! ## The kinds of nodes -/

/-- The nodes that are expressions. A primary expression is none, since it gives way to its part. -/
def expressionNodes : List ValueKind :=
  [.node .numberLiteral, .node .name, .node .stringLiteral, .node .boolLiteral, .node .nullLiteral,
    .node .negativeExpr, .node .notExpr, .node .binaryExpr]

/-- The nodes that are statements. The empty statement is none of them. -/
def statementNodes : List ValueKind :=
  [.node .ifStatement, .node .whileStatement, .node .forStatement, .node .breakStatement,
    .node .importStatement] ++ expressionNodes

/-- The nodes that are program units. -/
def unitNodes : List ValueKind := .node .nullStatement :: statementNodes

theorem isNode_of_mem_unitNodes : ∀ kind ∈ unitNodes, ∃ node, kind = .node node := by
  simp [unitNodes, statementNodes, expressionNodes]

namespace NodeKind

/-- The children of the nodes of a kind. Nothing can be the child of a primary expression, so that there
is no node of that kind. -/
def slots : NodeKind → List Slot
  | .numberLiteral => [.one [.number]]
  | .name | .stringLiteral => [.one [.text]]
  | .boolLiteral => [.one [.flag]]
  | .nullLiteral => [.one [.absent]]
  | .primaryExpr => [.one []]
  | .negativeExpr | .notExpr => [.one expressionNodes]
  | .binaryExpr => [.one expressionNodes, .one [.text], .one expressionNodes]
  | .block => [.many statementNodes]
  | .ifStatement => [.one expressionNodes, .one [.node .block], .optional [.node .block]]
  | .whileStatement => [.one expressionNodes, .one [.node .block]]
  | .clause => [.many expressionNodes]
  | .nullStatement | .breakStatement => []
  | .forStatement =>
    [.one [.node .clause], .one (.node .nullStatement :: expressionNodes), .one [.node .clause],
      .one [.node .block]]
  | .importStatement => [.one [.node .stringLiteral]]

/-- The type of a part of a node: a value of some kinds, or a list of such values. -/
inductive PartType where
  | one (kinds : List ValueKind)
  | list (kinds : List ValueKind)

/-- The values of a type. -/
def PartType.Has : PartType → Value → Prop
  | .one kinds, value => value.IsA kinds
  | .list kinds, value => ∃ items, value = .list items ∧ ∀ item ∈ items, item.IsA kinds

/-- The parts that only nodes of a kind have, by name. -/
def ownParts : NodeKind → List (String × PartType)
  | .numberLiteral => [("value", .one [.number])]
  | .name | .stringLiteral => [("value", .one [.text])]
  | .boolLiteral => [("value", .one [.flag])]
  | .nullLiteral => [("value", .one [.absent])]
  | .negativeExpr | .notExpr => [("operand", .one expressionNodes)]
  | .binaryExpr =>
    [("left", .one expressionNodes), ("operator", .one [.text]), ("right", .one expressionNodes)]
  | .block => [("statements", .list statementNodes)]
  | .ifStatement =>
    [("condition", .one expressionNodes), ("then_block", .one [.node .block]),
      ("else_block", .one [.node .block, .absent])]
  | .whileStatement => [("condition", .one expressionNodes), ("body", .one [.node .block])]
  | .clause => [("expressions", .list expressionNodes)]
  | .forStatement =>
    [("init", .one [.node .clause]), ("condition", .one (.node .nullStatement :: expressionNodes)),
      ("step", .one [.node .clause]), ("body", .one [.node .block])]
  | .importStatement => [("path", .one [.text])]
  | .primaryExpr | .nullStatement | .breakStatement => []

/-- The parts of nodes of a kind, by name. -/
def parts (kind : NodeKind) : List (String × PartType) :=
  ("tag", .one [.text]) :: ("children", .list (kind.slots.flatMap (·.kinds))) :: kind.ownParts

end NodeKind

/-- A script tree all whose nodes have the children of their kind. -/
inductive Formed : Value → Prop
  | node {kind : NodeKind} {children : List Value} (fits : Fits kind.slots children)
      (below : ∀ sub subChildren, .tree sub subChildren ∈ children → Formed (.tree sub subChildren)) :
      Formed (.tree kind children)

theorem Formed.fits {kind : NodeKind} {children : List Value} (formed : Formed (.tree kind children)) :
    Fits kind.slots children := by
  obtain ⟨fits, -⟩ := formed
  exact fits

/-- What holds of scalars, and of a node if it holds of its children, holds of formed trees. -/
theorem Formed.induction_on {motive : Value → Prop} {value : Value} (formed : Formed value)
    (scalar : ∀ value, motive (.scalar value))
    (node : ∀ kind children, Formed (.tree kind children) → (∀ child ∈ children, motive child) →
      motive (.tree kind children)) : motive value := by
  induction formed with
  | @node kind children fits below ih =>
    refine node kind children (.node fits below) fun child mem => ?_
    obtain ⟨_, _, same⟩ := fits.isA child mem
    cases child with
    | tree sub subChildren => exact ih sub subChildren mem
    | scalar value => exact scalar value
    | list _ | tuple _ | node _ _ | token _ => exact nomatch same

/-- A value occurs in a script tree, or is the tree. -/
inductive Occurs (value : Value) : Value → Prop
  | whole : Occurs value value
  | inside {kind : NodeKind} {children : List Value} {child : Value} (mem : child ∈ children)
      (occurs : Occurs value child) : Occurs value (.tree kind children)

/-- Every node of a formed tree is formed. -/
theorem Formed.of_occurs {tree : Value} {kind : NodeKind} {children : List Value}
    (formed : Formed tree) (occurs : Occurs (.tree kind children) tree) :
    Formed (.tree kind children) := by
  induction occurs with
  | whole => exact formed
  | inside mem occurs ih =>
    cases formed with
    | node _ below =>
      apply ih
      cases occurs with
      | whole | inside _ _ => exact below _ _ mem

/-! ## Parts -/

theorem own_part_of_formed {kind : NodeKind} {children : List Value}
    (formed : Formed (.tree kind children)) {name : String} {type : NodeKind.PartType}
    (mem : (name, type) ∈ kind.ownParts) :
    ∃ part, (Value.tree kind children).part name = .ok part ∧ type.Has part := by
  obtain ⟨fits, below⟩ := formed
  cases kind with
  | numberLiteral | name | stringLiteral | boolLiteral | nullLiteral | negativeExpr | notExpr =>
    simp only [NodeKind.slots, fits_one_cons, fits_nil] at fits
    simp only [NodeKind.ownParts, List.mem_singleton, Prod.mk.injEq] at mem
    obtain ⟨value, _, rfl, isA, rfl⟩ := fits
    obtain ⟨rfl, rfl⟩ := mem
    exact ⟨value, rfl, isA⟩
  | binaryExpr =>
    simp only [NodeKind.slots, fits_one_cons, fits_nil] at fits
    simp only [NodeKind.ownParts, List.mem_cons, List.not_mem_nil, or_false, Prod.mk.injEq] at mem
    obtain ⟨left, _, rfl, isLeft, mark, _, rfl, isMark, right, _, rfl, isRight, rfl⟩ := fits
    rcases mem with ⟨rfl, rfl⟩ | ⟨rfl, rfl⟩ | ⟨rfl, rfl⟩
    · exact ⟨left, rfl, isLeft⟩
    · exact ⟨mark, rfl, isMark⟩
    · exact ⟨right, rfl, isRight⟩
  | block | clause =>
    simp only [NodeKind.slots, fits_many] at fits
    simp only [NodeKind.ownParts, List.mem_singleton, Prod.mk.injEq] at mem
    obtain ⟨rfl, rfl⟩ := mem
    exact ⟨.list children, rfl, children, rfl, fits⟩
  | ifStatement =>
    simp only [NodeKind.slots, fits_one_cons, fits_optional] at fits
    simp only [NodeKind.ownParts, List.mem_cons, List.not_mem_nil, or_false, Prod.mk.injEq] at mem
    obtain ⟨condition, _, rfl, isCondition, first, rest, rfl, isFirst, others⟩ := fits
    rcases mem with ⟨rfl, rfl⟩ | ⟨rfl, rfl⟩ | ⟨rfl, rfl⟩
    · exact ⟨condition, rfl, isCondition⟩
    · exact ⟨first, rfl, isFirst⟩
    · rcases others with rfl | ⟨second, rfl, isSecond⟩
      · exact ⟨.absent, rfl, .absent, by simp, rfl⟩
      · exact ⟨second, rfl, isSecond.mono (by simp)⟩
  | whileStatement =>
    simp only [NodeKind.slots, fits_one_cons, fits_nil] at fits
    simp only [NodeKind.ownParts, List.mem_cons, List.not_mem_nil, or_false, Prod.mk.injEq] at mem
    obtain ⟨condition, _, rfl, isCondition, body, _, rfl, isBody, rfl⟩ := fits
    rcases mem with ⟨rfl, rfl⟩ | ⟨rfl, rfl⟩
    · exact ⟨condition, rfl, isCondition⟩
    · exact ⟨body, rfl, isBody⟩
  | forStatement =>
    simp only [NodeKind.slots, fits_one_cons, fits_nil] at fits
    simp only [NodeKind.ownParts, List.mem_cons, List.not_mem_nil, or_false, Prod.mk.injEq] at mem
    obtain ⟨first, _, rfl, isFirst, condition, _, rfl, isCondition, step, _, rfl, isStep, body, _, rfl,
      isBody, rfl⟩ := fits
    rcases mem with ⟨rfl, rfl⟩ | ⟨rfl, rfl⟩ | ⟨rfl, rfl⟩ | ⟨rfl, rfl⟩
    · exact ⟨first, rfl, isFirst⟩
    · exact ⟨condition, rfl, isCondition⟩
    · exact ⟨step, rfl, isStep⟩
    · exact ⟨body, rfl, isBody⟩
  | importStatement =>
    simp only [NodeKind.slots, fits_one_cons, fits_nil] at fits
    simp only [NodeKind.ownParts, List.mem_singleton, Prod.mk.injEq] at mem
    obtain ⟨string, _, rfl, isString, rfl⟩ := fits
    obtain ⟨rfl, rfl⟩ := mem
    obtain ⟨_, mem, same⟩ := isString
    obtain rfl := List.mem_singleton.mp mem
    obtain ⟨held, rfl⟩ := Value.exists_children_of_kind? same
    -- the string has a text, since it is formed as well
    obtain ⟨fits, -⟩ := below .stringLiteral held List.mem_cons_self
    simp only [NodeKind.slots, fits_one_cons, fits_nil] at fits
    obtain ⟨text, _, rfl, isText, rfl⟩ := fits
    exact ⟨text, rfl, isText⟩
  | primaryExpr | nullStatement | breakStatement => exact nomatch mem

/-- Every part of a node that has a name can be had, and is of the type of that name. -/
theorem part_of_formed {kind : NodeKind} {children : List Value}
    (formed : Formed (.tree kind children)) {name : String} {type : NodeKind.PartType}
    (mem : (name, type) ∈ kind.parts) :
    ∃ part, (Value.tree kind children).part name = .ok part ∧ type.Has part := by
  rcases List.mem_cons.mp mem with same | mem
  · obtain ⟨rfl, rfl⟩ := Prod.mk.inj same
    refine ⟨.text kind.tag, ?_, .text, by simp, rfl⟩
    cases kind <;> rfl
  rcases List.mem_cons.mp mem with same | mem
  · obtain ⟨rfl, rfl⟩ := Prod.mk.inj same
    refine ⟨.list children, ?_, children, rfl, ?_⟩
    · cases kind <;> rfl
    · obtain ⟨fits, -⟩ := formed
      exact fits.isA
  · exact own_part_of_formed formed mem

/-- A node has no other parts. -/
theorem part_of_other {kind : NodeKind} {children : List Value} {name : String}
    (other : name ∉ kind.parts.map (·.1)) :
    (Value.tree kind children).part name = .error (.noPart kind.tag name) := by
  rw [Value.part]
  unfold Value.treePart
  split
  case h_20 =>
    -- only leaves hold a value
    have inner : kind.isLeaf = false := by
      cases kind with
      | numberLiteral | name | stringLiteral | boolLiteral | nullLiteral =>
        simp [NodeKind.parts, NodeKind.ownParts] at other
      | _ => rfl
    rw [Value.held, inner, if_neg Bool.false_ne_true]
  case h_21 => rfl
  all_goals simp [NodeKind.parts, NodeKind.ownParts] at other

/-! ## Texts and skeletons -/

theorem mapM_id_ok {ε β : Type} {results : List (Except ε β)}
    (each : ∀ result ∈ results, ∃ value, result = .ok value) :
    ∃ values, results.mapM id = .ok values := by
  induction results with
  | nil => exact ⟨[], rfl⟩
  | cons result rest ih =>
    obtain ⟨value, rfl⟩ := each result List.mem_cons_self
    obtain ⟨values, all⟩ := ih fun other mem => each other (List.mem_cons_of_mem _ mem)
    exact ⟨value :: values, by rw [List.mapM_cons, all]; rfl⟩

theorem plainItems_eq_map (values : List Value) : Value.plainItems values = values.map Value.plain := by
  induction values with
  | nil => rfl
  | cons value rest ih => rw [Value.plainItems, ih, List.map_cons]

theorem skeletons_eq_map (values : List Value) : Value.skeletons values = values.map Value.skeleton := by
  induction values with
  | nil => rfl
  | cons value rest ih => rw [Value.skeletons, ih, List.map_cons]

/-- A node has a text, if its children do. -/
theorem treeText_ok {kind : NodeKind} {children : List Value} (fits : Fits kind.slots children)
    (each : ∀ child ∈ children, ∃ text, child.plain = .ok text) :
    ∃ text, Value.treeText kind children (children.map Value.plain) = .ok text := by
  cases kind with
  | numberLiteral | name | stringLiteral | boolLiteral | nullLiteral | negativeExpr | notExpr
  | importStatement =>
    simp only [NodeKind.slots, fits_one_cons, fits_nil] at fits
    obtain ⟨value, _, rfl, -, rfl⟩ := fits
    obtain ⟨text, plain⟩ := each value List.mem_cons_self
    simp only [List.map_cons, plain]
    exact ⟨_, rfl⟩
  | binaryExpr =>
    simp only [NodeKind.slots, fits_one_cons, fits_nil] at fits
    obtain ⟨left, _, rfl, -, mark, _, rfl, -, right, _, rfl, -, rfl⟩ := fits
    obtain ⟨_, plainLeft⟩ := each left (by simp)
    obtain ⟨_, plainMark⟩ := each mark (by simp)
    obtain ⟨_, plainRight⟩ := each right (by simp)
    simp only [List.map_cons, plainLeft, plainMark, plainRight]
    exact ⟨_, rfl⟩
  | ifStatement =>
    simp only [NodeKind.slots, fits_one_cons, fits_optional] at fits
    obtain ⟨condition, _, rfl, -, first, _, rfl, -, rfl | ⟨second, rfl, -⟩⟩ := fits
    · obtain ⟨_, plainCondition⟩ := each condition (by simp)
      obtain ⟨_, plainFirst⟩ := each first (by simp)
      simp only [List.map_cons, plainCondition, plainFirst]
      exact ⟨_, rfl⟩
    · obtain ⟨_, plainCondition⟩ := each condition (by simp)
      obtain ⟨_, plainFirst⟩ := each first (by simp)
      obtain ⟨_, plainSecond⟩ := each second (by simp)
      simp only [List.map_cons, plainCondition, plainFirst, plainSecond]
      exact ⟨_, rfl⟩
  | whileStatement =>
    simp only [NodeKind.slots, fits_one_cons, fits_nil] at fits
    obtain ⟨condition, _, rfl, -, body, _, rfl, -, rfl⟩ := fits
    obtain ⟨_, plainCondition⟩ := each condition (by simp)
    obtain ⟨_, plainBody⟩ := each body (by simp)
    simp only [List.map_cons, plainCondition, plainBody]
    exact ⟨_, rfl⟩
  | forStatement =>
    simp only [NodeKind.slots, fits_one_cons, fits_nil] at fits
    obtain ⟨first, _, rfl, -, condition, _, rfl, -, step, _, rfl, -, body, _, rfl, -, rfl⟩ := fits
    obtain ⟨_, plainFirst⟩ := each first (by simp)
    obtain ⟨_, plainCondition⟩ := each condition (by simp)
    obtain ⟨_, plainStep⟩ := each step (by simp)
    obtain ⟨_, plainBody⟩ := each body (by simp)
    simp only [List.map_cons, plainFirst, plainCondition, plainStep, plainBody]
    exact ⟨_, rfl⟩
  | nullStatement | breakStatement => exact ⟨_, rfl⟩
  | block | clause | primaryExpr =>
    obtain ⟨texts, all⟩ := mapM_id_ok (List.forall_mem_map.mpr each)
    refine ⟨"(" ++ " ".intercalate texts ++ ")", ?_⟩
    simp only [Value.treeText, all]
    rfl

/-- A node has a skeleton, if it has a text and its children have skeletons. -/
theorem treeSkeleton_ok {kind : NodeKind} {children : List Value} (fits : Fits kind.slots children)
    (plain : ∃ text, (Value.tree kind children).plain = .ok text)
    (each : ∀ child ∈ children, ∃ value, child.skeleton = .ok value) :
    ∃ value, Value.treeSkeleton kind children (children.map Value.skeleton) = .ok value := by
  cases kind with
  | numberLiteral | name | boolLiteral | nullLiteral =>
    simp only [NodeKind.slots, fits_one_cons, fits_nil] at fits
    obtain ⟨value, _, rfl, -, rfl⟩ := fits
    exact ⟨value, rfl⟩
  | stringLiteral =>
    obtain ⟨text, plain⟩ := plain
    refine ⟨.text text, ?_⟩
    simp only [Value.treeSkeleton, plain]
    rfl
  | negativeExpr | notExpr =>
    simp only [NodeKind.slots, fits_one_cons, fits_nil] at fits
    obtain ⟨operand, _, rfl, -, rfl⟩ := fits
    obtain ⟨_, skeleton⟩ := each operand List.mem_cons_self
    simp only [List.map_cons, skeleton]
    exact ⟨_, rfl⟩
  | binaryExpr =>
    simp only [NodeKind.slots, fits_one_cons, fits_nil] at fits
    obtain ⟨left, _, rfl, -, mark, _, rfl, -, right, _, rfl, -, rfl⟩ := fits
    obtain ⟨_, skeletonLeft⟩ := each left (by simp)
    obtain ⟨_, skeletonRight⟩ := each right (by simp)
    simp only [List.map_cons, skeletonLeft, skeletonRight]
    exact ⟨_, rfl⟩
  | primaryExpr | block | ifStatement | whileStatement | clause | nullStatement | forStatement
  | breakStatement | importStatement =>
    obtain ⟨values, all⟩ := mapM_id_ok (List.forall_mem_map.mpr each)
    simp only [Value.treeSkeleton, all]
    exact ⟨_, rfl⟩

theorem Formed.plain_ok {value : Value} (formed : Formed value) : ∃ text, value.plain = .ok text := by
  refine formed.induction_on (motive := fun value => ∃ text, value.plain = .ok text)
    (fun _ => ⟨_, rfl⟩) ?_
  intro kind children formed each
  rw [Value.plain, plainItems_eq_map]
  exact treeText_ok formed.fits each

theorem Formed.skeleton_ok {value : Value} (formed : Formed value) :
    ∃ skeleton, value.skeleton = .ok skeleton := by
  refine formed.induction_on (motive := fun value => ∃ skeleton, value.skeleton = .ok skeleton)
    (fun _ => ⟨_, rfl⟩) ?_
  intro kind children formed each
  rw [Value.skeleton, skeletons_eq_map]
  exact treeSkeleton_ok formed.fits formed.plain_ok each

end Script

end Grammatic
