import Grammatic.Proofs.Evaluation.Values
import Grammatic.Proofs.Language.Realization
import Grammatic.Proofs.Token.Spans
import Grammatic.Script.Parser
import Mathlib.Data.List.Forall2

/-!
# Reading script trees

A script tree is read left to right: its literals, the operators between operands, and the signs
before operands. These `Mark`s are what the tokens of the tree are read as, in their order. Brackets,
keywords and separators leave no mark.

The rules of a grammar keep the marks if each of them passes `legible`. A rule then matches with a
value whose reading is that of the tokens it takes (`Kept`). This is shown by induction on the value:
lists are spliced and what is absent is dropped without a change in the reading
(`flatten_readings_flatten`), and the only nodes with marks of their own are leaves, signs and operators.
-/

namespace Grammatic.Script

/-! ## Marks -/

/-- What is read of a tree. -/
inductive Mark where
  /-- A leaf, by its kind and the value that it holds. -/
  | literal (kind : NodeKind) (value : Scalar)
  /-- The text of an operator between two operands. -/
  | operator (text : String)
  /-- The sign of a negative operand. -/
  | minus
  /-- The sign of a negated operand. -/
  | not
  deriving DecidableEq, Repr

/-- The kinds of tokens that are literals, with the leaf that each becomes and how its value is read. -/
def literalKinds : List (TokenKind × NodeKind × Literal) := [
  ("number", .numberLiteral, .number),
  ("name", .name, .name),
  ("string", .stringLiteral, .string),
  ("true", .boolLiteral, .truth "true"),
  ("false", .boolLiteral, .truth "true"),
  ("null", .nullLiteral, .null)]

/-- Whether tokens of a kind leave a mark: those of literals and operators, and the sign `!`. -/
def isMarked (kind : TokenKind) : Bool :=
  (literalKinds.map (·.1)).contains kind || (operators.map (·.1)).contains kind || kind = "exclaim"

/-- The marks that a token can leave. A dash is an operator or a sign. -/
inductive Leaves (token : Token) : Mark → Prop
  | literal {kind : NodeKind} {literal : Literal} {value : Scalar}
      (mem : (token.kind, kind, literal) ∈ literalKinds) (read : literal.value token = .ok value) :
      Leaves token (.literal kind value)
  | operator (mem : token.kind ∈ operators.map (·.1)) : Leaves token (.operator token.text)
  | minus (dash : token.kind = "dash") : Leaves token .minus
  | not (exclaim : token.kind = "exclaim") : Leaves token .not

/-- The marks that nodes of a kind have before those of their children. -/
def signOf : NodeKind → List Mark
  | .negativeExpr => [.minus]
  | .notExpr => [.not]
  | _ => []

/-- The reading of a node, given those of its children. -/
def nodeReading (kind : NodeKind) (children : List Value) (parts : List (List Mark)) : List Mark :=
  match kind with
  | .binaryExpr =>
    match children, parts with
    | [_, .scalar (.text text), _], [left, _, right] => left ++ .operator text :: right
    | _, _ => []
  | .numberLiteral | .name | .stringLiteral | .boolLiteral | .nullLiteral =>
    match children with
    | [.scalar value] => [.literal kind value]
    | _ => []
  | _ => signOf kind ++ parts.flatten

mutual
/-- What is read of a value, left to right. -/
def reading : Value → List Mark
  | .list items => (readings items).flatten
  | .tree kind children => nodeReading kind children (readings children)
  | .scalar _ | .token _ | .tuple _ | .node _ _ => []

/-- What is read of several values. -/
def readings : List Value → List (List Mark)
  | [] => []
  | value :: rest => reading value :: readings rest
end

@[simp] theorem readings_append (values more : List Value) :
    readings (values ++ more) = readings values ++ readings more := by
  induction values with
  | nil => rfl
  | cons value rest ih => rw [List.cons_append, readings, ih, readings, List.cons_append]

/-! ## Nodes -/

mutual
theorem flatten_readings_spliced (value : Value) :
    (readings (spliced value)).flatten = reading value := by
  cases value with
  | scalar value => cases value <;> simp [spliced, readings, reading]
  | list items =>
    rw [spliced, reading]
    exact flatten_readings_flatten items
  | token _ | tuple _ | node _ _ | tree _ _ => simp [spliced, readings]

/-- Splicing lists and dropping what is absent leaves the reading as it is. -/
theorem flatten_readings_flatten (values : List Value) :
    (readings (flatten values)).flatten = (readings values).flatten := by
  cases values with
  | nil => rfl
  | cons value rest =>
    rw [flatten, readings_append, List.flatten_append, flatten_readings_spliced value,
      flatten_readings_flatten rest, readings, List.flatten_cons]
end

mutual
theorem spliced_of_mem_spliced {part : Value} (value : Value) (mem : part ∈ spliced value) :
    spliced part = [part] := by
  cases value with
  | list items =>
    rw [spliced] at mem
    exact spliced_of_mem_flatten items mem
  | scalar value =>
    cases value with
    | absent => exact absurd mem List.not_mem_nil
    | flag _ | int _ | real _ | text _ => rw [List.mem_singleton.mp mem]; rfl
  | token _ | tuple _ | node _ _ | tree _ _ => rw [List.mem_singleton.mp mem]; rfl

/-- The children of a node are neither absent nor lists. -/
theorem spliced_of_mem_flatten {part : Value} (values : List Value) (mem : part ∈ flatten values) :
    spliced part = [part] := by
  cases values with
  | nil => exact absurd mem List.not_mem_nil
  | cons value rest =>
    rcases List.mem_append.mp mem with mem | mem
    · exact spliced_of_mem_spliced value mem
    · exact spliced_of_mem_flatten rest mem
end

/-- A node is its children under its kind, or the one part of a primary expression. -/
theorem eq_of_nodeOf_inner {kind : NodeKind} (inner : kind.isLeaf = false) {children : List Value}
    {value : Value} (made : nodeOf kind children = .ok value) :
    value = .tree kind (flatten children) ∨ kind = .primaryExpr ∧ flatten children = [value] := by
  simp only [nodeOf, inner, Bool.false_eq_true, if_false] at made
  split at made
  next single =>
    obtain rfl := Except.ok.inj made
    exact .inr ⟨rfl, single⟩
  next =>
    obtain rfl := Except.ok.inj made
    exact .inl rfl

theorem eq_of_nodeOf_leaf {kind : NodeKind} (leaf : kind.isLeaf = true) {children : List Value}
    {value : Value} (made : nodeOf kind children = .ok value) : value = .tree kind children := by
  simp only [nodeOf, leaf, if_true] at made
  split at made
  next => exact (Except.ok.inj made).symm
  next => exact nomatch made

/-- A node is neither absent nor a list. -/
theorem spliced_of_nodeOf {kind : NodeKind} {children : List Value} {value : Value}
    (made : nodeOf kind children = .ok value) : spliced value = [value] := by
  cases leaf : kind.isLeaf with
  | true =>
    rw [eq_of_nodeOf_leaf leaf made]
    rfl
  | false =>
    rcases eq_of_nodeOf_inner leaf made with rfl | ⟨-, single⟩
    · rfl
    · exact spliced_of_mem_flatten children (by rw [single]; exact List.mem_singleton_self value)

theorem reading_leaf {kind : NodeKind} (leaf : kind.isLeaf = true) {scalar : Scalar} {value : Value}
    (made : nodeOf kind [.scalar scalar] = .ok value) : reading value = [.literal kind scalar] := by
  rw [eq_of_nodeOf_leaf leaf made, reading]
  cases kind <;> first | rfl | exact absurd leaf Bool.false_ne_true

/-- A node other than a leaf and an operation is read as its sign and its children. -/
theorem reading_inner {kind : NodeKind} (inner : kind.isLeaf = false) (other : kind ≠ .binaryExpr)
    {children : List Value} {value : Value} (made : nodeOf kind children = .ok value) :
    reading value = signOf kind ++ (readings children).flatten := by
  rw [← flatten_readings_flatten children]
  rcases eq_of_nodeOf_inner inner made with rfl | ⟨rfl, single⟩
  · rw [reading]
    cases kind <;> first | rfl | exact absurd inner.symm Bool.false_ne_true | exact absurd rfl other
  · rw [single]
    simp [readings, signOf]

/-- An operation is read as its left operand, its operator and its right operand. -/
theorem reading_operation {left right value : Value} {text : String}
    (leftNode : spliced left = [left]) (rightNode : spliced right = [right])
    (made : nodeOf .binaryExpr [left, .scalar (.text text), right] = .ok value) :
    reading value = reading left ++ .operator text :: reading right := by
  have children : flatten [left, .scalar (.text text), right] =
      [left, .scalar (.text text), right] := by
    simp [flatten, leftNode, rightNode, spliced]
  rcases eq_of_nodeOf_inner rfl made with rfl | ⟨other, _⟩
  · rw [children]
    rfl
  · exact nomatch other

/-! ## Tokens and their marks -/

/-- The tokens between two positions leave marks, in their order, each one if it is of a marked kind. -/
def LeaveMarks (buffer : TokenBuffer) (start : Nat) (marks : List Mark) (next : Nat) : Prop :=
  ∃ text, buffer.Spans start text next ∧
    List.Forall₂ Leaves (text.filter fun token => isMarked token.kind) marks

namespace LeaveMarks

variable {buffer : TokenBuffer} {start middle next : Nat} {marks more : List Mark}

theorem nil (buffer : TokenBuffer) (start : Nat) : LeaveMarks buffer start [] start :=
  ⟨[], rfl, .nil⟩

theorem append (before : LeaveMarks buffer start marks middle)
    (behind : LeaveMarks buffer middle more next) : LeaveMarks buffer start (marks ++ more) next := by
  obtain ⟨text, spans, leave⟩ := before
  obtain ⟨text', spans', leave'⟩ := behind
  refine ⟨text ++ text', TokenBuffer.spans_append.mpr ⟨middle, spans, spans'⟩, ?_⟩
  rw [List.filter_append]
  exact List.rel_append leave leave'

theorem token (inside : buffer.atEnd start = false) {mark : Mark}
    (marked : isMarked (buffer.peek start).kind = true) (leaves : Leaves (buffer.peek start) mark) :
    LeaveMarks buffer start [mark] (buffer.advance start) := by
  refine ⟨[buffer.peek start], ⟨rfl, inside, TokenBuffer.advance_of_not_atEnd inside⟩, ?_⟩
  simp only [List.filter_cons, marked, if_true, List.filter_nil]
  exact .cons leaves .nil

theorem unmarked (inside : buffer.atEnd start = false)
    (silent : isMarked (buffer.peek start).kind = false) :
    LeaveMarks buffer start [] (buffer.advance start) := by
  refine ⟨[buffer.peek start], ⟨rfl, inside, TokenBuffer.advance_of_not_atEnd inside⟩, ?_⟩
  simp only [List.filter_cons, silent, Bool.false_eq_true, if_false, List.filter_nil]
  exact .nil

end LeaveMarks

/-! ## Rules that keep the marks -/

/-- The signs of a delimiter: its value shows none, so the node around it has to. -/
def delimiterSigns (rule : Rule) : List Mark :=
  if rule.kind = .terminal ∧ rule.literal = none then
    if rule.kinds.toList = ["dash"] then [.minus]
    else if rule.kinds.toList = ["exclaim"] then [.not]
    else []
  else []

/-- The signs of the rule with a number. -/
def signsAt (store : Store) (id : RuleId) : List Mark :=
  (store.rules[id]?.map delimiterSigns).getD []

/-- The signs of the first of some components. -/
def leadSigns (store : Store) (components : List RuleId) : List Mark :=
  (components.head?.map (signsAt store)).getD []

/-- Whether a rule makes nodes only, and neither lists nor nothing. -/
def makesNodes (store : Store) : Nat → RuleId → Bool
  | 0, _ => false
  | depth + 1, id => store.rules[id]?.any fun rule =>
    match rule.kind with
    | .sequence => rule.tag.isSome || rule.children.length = 1 &&
      rule.children.all fun component => store.captures component && makesNodes store depth component
    | .alternation => rule.children.all (makesNodes store depth)
    | _ => false

/-- Whether the value of a rule shows all that the tokens of the rule are read as, besides the signs of a
delimiter. -/
def legible (store : Store) (rule : Rule) : Bool :=
  let kind? := rule.tag.bind NodeKind.ofTag?
  let silent := fun ids : List RuleId => ids.all fun id => signsAt store id = []
  match rule.kind with
  | .terminal =>
    rule.kinds.toList.all fun kind =>
      kind ≠ Token.endOfText &&
        match rule.literal with
        | none => delimiterSigns rule ≠ [] || !isMarked kind
        | some literal =>
          kind?.any fun leaf => leaf.isLeaf && decide ((kind, leaf, literal) ∈ literalKinds)
  | .sequence =>
    match kind?, rule.children with
    | some kind, children =>
      !kind.isLeaf && kind ≠ .binaryExpr && silent children.tail &&
        leadSigns store children = signOf kind
    | none, children => rule.tag.isNone && silent children && store.captureCount rule ≤ 1
  | .expression =>
    kind? = some .binaryExpr && silent rule.children && rule.children.all (makesNodes store 3) &&
      (store.tableOf? rule).all fun table => table.kinds.all fun kind =>
        kind ≠ Token.endOfText && (operators.map (·.1)).contains kind
  | .alternation | .optional | .repetition | .capture => silent rule.children

/-- The tokens of a value that a rule matches with leave the signs of the rule and then what is read of
the value. -/
structure Kept (store : Store) (buffer : TokenBuffer) (id : RuleId) (start : Nat) (value : Value)
    (next : Nat) : Prop where
  marks : LeaveMarks buffer start (signsAt store id ++ reading value) next
  /-- A component that is not captured shows nothing. -/
  silent : store.captures id = false → reading value = []
  node : ∀ depth, makesNodes store depth id = true → spliced value = [value]

section Rules

variable {store : Store} {grammar : Grammar} {buffer : TokenBuffer} {id : RuleId} {rule : Rule}
  {start next : Nat} {value : Value}

theorem signsAt_of_found (found : store.rules[id]? = some rule) :
    signsAt store id = delimiterSigns rule := by
  rw [signsAt, found, Option.map_some, Option.getD_some]

theorem delimiterSigns_of_ne (other : rule.kind ≠ .terminal ∨ rule.literal ≠ none) :
    delimiterSigns rule = [] :=
  if_neg fun delimiter => other.elim (· delimiter.1) (· delimiter.2)

/-- What a rule other than a delimiter has to keep. -/
theorem Kept.of_other (found : store.rules[id]? = some rule)
    (other : rule.kind ≠ .terminal ∨ rule.literal ≠ none)
    (marks : LeaveMarks buffer start (reading value) next)
    (node : ∀ depth, makesNodes store depth id = true → spliced value = [value]) :
    Kept store buffer id start value next where
  marks := by
    rw [signsAt_of_found found, delimiterSigns_of_ne other]
    exact marks
  silent uncaptured := by
    simp only [Store.captures, found, Option.any_some, Rule.captures, Bool.or_eq_false_iff,
      bne_eq_false_iff_eq, Option.isSome_eq_false_iff, Option.isNone_iff_eq_none] at uncaptured
    exact absurd uncaptured fun delimiter => other.elim (· delimiter.1) (· delimiter.2)
  node := node

/-- Only sequences and alternations are known to make nodes. -/
theorem not_makesNodes (found : store.rules[id]? = some rule) (kind : rule.kind ≠ .sequence)
    (kind' : rule.kind ≠ .alternation) (depth : Nat) : makesNodes store depth id ≠ true := by
  cases depth with
  | zero => exact Bool.false_ne_true
  | succ depth =>
    simp only [makesNodes, found, Option.any_some]
    exact Bool.false_ne_true

/-- A single component that makes a node gives it to an untagged sequence. -/
theorem spliced_of_single {components : List RuleId} {values : List Value}
    (collects : Setting.Collects ⟨store, grammar, trees, buffer⟩ (Kept store buffer) components start
      values next) (single : components.length = 1) {depth : Nat}
    (nodes : ∀ component ∈ components,
      store.captures component = true ∧ makesNodes store depth component = true) :
    spliced (values.head?.getD Value.absent) = [values.head?.getD Value.absent] := by
  cases collects with
  | none => exact nomatch single
  | captured _ kept _ => exact kept.node depth (nodes _ List.mem_cons_self).2
  | passed uncaptured _ _ =>
    exact absurd ((nodes _ List.mem_cons_self).1.symm.trans uncaptured) nofun

theorem leadSigns_of_silent {components : List RuleId}
    (silent : ∀ id ∈ components, signsAt store id = []) : leadSigns store components = [] := by
  cases components with
  | nil => rfl
  | cons first rest => exact silent first List.mem_cons_self

/-- What components leave, if only the first has signs. -/
theorem leaveMarks_of_collects {components : List RuleId} {values : List Value}
    (collects : Setting.Collects ⟨store, grammar, trees, buffer⟩ (Kept store buffer) components start
      values next)
    (silent : ∀ id ∈ components.tail, signsAt store id = []) :
    LeaveMarks buffer start (leadSigns store components ++ (readings values).flatten) next := by
  induction collects with
  | none => exact .nil _ _
  | captured _ kept _ ih =>
    rw [List.tail_cons] at silent
    have behind := ih fun id mem => silent id (List.mem_of_mem_tail mem)
    rw [leadSigns_of_silent silent] at behind
    have whole := kept.marks.append behind
    rwa [List.append_assoc] at whole
  | passed uncaptured kept _ ih =>
    rw [List.tail_cons] at silent
    have behind := ih fun id mem => silent id (List.mem_of_mem_tail mem)
    rw [leadSigns_of_silent silent] at behind
    have whole := kept.marks.append behind
    rwa [kept.silent uncaptured, List.append_nil] at whole

theorem leaveMarks_of_repeats {sub : RuleId} {values : List Value}
    (repeats : Setting.Repeats (Kept store buffer sub) start values next)
    (silent : signsAt store sub = []) :
    LeaveMarks buffer start (readings values).flatten next := by
  induction repeats with
  | none => exact .nil _ _
  | element kept _ ih =>
    have first := kept.marks
    rw [silent] at first
    exact first.append ih

/-- Operands and operators are read in the order of their tokens. -/
theorem leaveMarks_of_operated {operand : RuleId} {table : OperatorTable}
    (operated : Setting.Operated ⟨store, grammar, trees, buffer⟩ (Kept store buffer operand) rule.tag
      table start value next)
    (named : rule.tag.bind NodeKind.ofTag? = some .binaryExpr)
    (silent : signsAt store operand = []) (nodes : makesNodes store 3 operand = true)
    (known : ∀ kind ∈ table.kinds, kind ≠ buffer.endKind ∧ kind ∈ operators.map (·.1)) :
    LeaveMarks buffer start (reading value) next ∧ spliced value = [value] := by
  induction operated with
  | operand kept =>
    have marks := kept.marks
    rw [silent] at marks
    exact ⟨marks, kept.node 3 nodes⟩
  | @operator start middle next left right value operator _ found _ made before behind =>
    obtain ⟨notEnd, known⟩ := known _ (Store.find?_iff_mem_kinds.mp ⟨_, found⟩)
    simp only [trees, named] at made
    have sign : LeaveMarks buffer middle [.operator (buffer.peek middle).text]
        (buffer.advance middle) :=
      .token (decide_eq_false notEnd)
        (by simp only [isMarked, List.contains_iff_mem.mpr known, Bool.or_true, Bool.true_or])
        (.operator known)
    rw [reading_operation before.2 behind.2 made]
    exact ⟨before.1.append (sign.append behind.1), spliced_of_nodeOf made⟩

/-- A delimiter keeps its token as its sign, or the token leaves no mark. -/
theorem kept_of_delimiter (endKind : buffer.endKind = Token.endOfText)
    (legible : legible store rule = true) (found : store.rules[id]? = some rule)
    (kind : rule.kind = .terminal) (delimiter : rule.literal = none)
    (mem : (buffer.peek start).kind ∈ rule.kinds) :
    Kept store buffer id start Value.absent (buffer.advance start) where
  marks := by
    simp only [Script.legible, kind, delimiter, List.all_eq_true, Bool.and_eq_true, Bool.or_eq_true,
      decide_eq_true_eq, Bool.not_eq_true'] at legible
    obtain ⟨notEnd, marked⟩ := legible _ mem
    rw [← endKind] at notEnd
    have inside : buffer.atEnd start = false := decide_eq_false notEnd
    rw [signsAt_of_found found, delimiterSigns, if_pos ⟨kind, delimiter⟩, Value.absent, reading,
      List.append_nil]
    split
    next only =>
      have dash : (buffer.peek start).kind = "dash" := by simpa [← StringSet.mem_toList, only] using mem
      exact .token inside (by rw [dash]; rfl) (.minus dash)
    next =>
      split
      next only =>
        have exclaim : (buffer.peek start).kind = "exclaim" := by
          simpa [← StringSet.mem_toList, only] using mem
        exact .token inside (by rw [exclaim]; rfl) (.not exclaim)
      next noDash noExclaim =>
        refine .unmarked inside (marked.resolve_left fun signs => signs ?_)
        rw [delimiterSigns, if_pos ⟨kind, delimiter⟩, if_neg noDash, if_neg noExclaim]
  silent _ := rfl
  node depth nodes := absurd nodes (not_makesNodes found (by simp [kind]) (by simp [kind]) depth)

/-- A literal keeps its token as a leaf. -/
theorem kept_of_literal (endKind : buffer.endKind = Token.endOfText)
    (legible : legible store rule = true) (found : store.rules[id]? = some rule)
    (kind : rule.kind = .terminal) {literal : Literal} (isLiteral : rule.literal = some literal)
    (mem : (buffer.peek start).kind ∈ rule.kinds) {scalar : Scalar}
    (read : literal.value (buffer.peek start) = .ok scalar)
    (made : trees.node rule.tag [.scalar scalar] = .ok value) :
    Kept store buffer id start value (buffer.advance start) := by
  simp only [Script.legible, kind, isLiteral, List.all_eq_true, Bool.and_eq_true,
    decide_eq_true_eq, Option.any_eq_true] at legible
  obtain ⟨notEnd, leaf, named, isLeaf, known⟩ := legible _ mem
  rw [← endKind] at notEnd
  simp only [trees, named] at made
  refine .of_other found (.inr (by simp [isLiteral])) ?_ fun _ _ => spliced_of_nodeOf made
  rw [reading_leaf isLeaf made]
  refine .token (decide_eq_false notEnd) ?_ (.literal known read)
  simp only [isMarked, List.contains_iff_mem.mpr (List.mem_map_of_mem known), Bool.true_or]

/-- A rule that is legible keeps the marks, if the rules that its value is made of do. -/
theorem kept_of_madeOf (endKind : buffer.endKind = Token.endOfText)
    (legible : legible store rule = true) (found : store.rules[id]? = some rule)
    (made : Setting.MadeOf ⟨store, grammar, trees, buffer⟩ (Kept store buffer) rule start value next) :
    Kept store buffer id start value next := by
  have ofSub {sub : RuleId} (kind : rule.kind ≠ .terminal) (silent : signsAt store sub = [])
      (kept : Kept store buffer sub start value next)
      (node : ∀ depth, makesNodes store depth id = true → spliced value = [value]) :
      Kept store buffer id start value next := by
    refine .of_other found (.inl kind) ?_ node
    have marks := kept.marks
    rwa [silent] at marks
  have noNode (kind : rule.kind ≠ .sequence) (kind' : rule.kind ≠ .alternation) (depth : Nat)
      (nodes : makesNodes store depth id = true) : spliced value = [value] :=
    absurd nodes (not_makesNodes found kind kind' depth)
  cases made with
  | delimiter kind delimiter accepted =>
    simp only [Setting.accepts, Bool.and_eq_true, StringSet.contains_iff] at accepted
    exact kept_of_delimiter endKind legible found kind delimiter accepted.1
  | literal kind isLiteral accepted read made =>
    simp only [Setting.accepts, Bool.and_eq_true, StringSet.contains_iff] at accepted
    exact kept_of_literal endKind legible found kind isLiteral accepted.1 read made
  | tagged kind tagged collects made =>
    simp only [Script.legible, kind] at legible
    cases named : rule.tag.bind NodeKind.ofTag? with
    | none => simp [named, tagged] at legible
    | some node =>
      simp only [named, Bool.and_eq_true, Bool.not_eq_true', decide_eq_true_eq,
        List.all_eq_true] at legible
      obtain ⟨⟨⟨inner, other⟩, silent⟩, sign⟩ := legible
      simp only [trees, named] at made
      refine .of_other found (.inl (by simp [kind])) ?_ fun _ _ => spliced_of_nodeOf made
      rw [reading_inner inner other made, ← sign]
      exact leaveMarks_of_collects collects silent
  | @untagged values _ kind untagged collects =>
    simp only [Script.legible, kind, untagged, Option.bind_none, Bool.and_eq_true, decide_eq_true_eq,
      List.all_eq_true] at legible
    obtain ⟨⟨-, silent⟩, few⟩ := legible
    have marks := leaveMarks_of_collects collects fun id mem => silent id (List.mem_of_mem_tail mem)
    rw [leadSigns_of_silent silent] at marks
    have length : values.length ≤ 1 := by
      rw [collects.length_eq]
      exact few
    have single : (readings values).flatten = reading (values.head?.getD (.scalar .absent)) := by
      cases values with
      | nil => rfl
      | cons value rest =>
        obtain rfl := List.length_eq_zero_iff.mp (Nat.le_zero.mp (Nat.le_of_succ_le_succ length))
        simp [readings]
    rw [List.nil_append, single] at marks
    refine .of_other found (.inl (by simp [kind])) marks fun depth nodes => ?_
    cases depth with
    | zero => exact absurd nodes Bool.false_ne_true
    | succ depth =>
      simp only [makesNodes, found, Option.any_some, kind, untagged, Option.isSome_none,
        Bool.false_or, Bool.and_eq_true, decide_eq_true_eq, List.all_eq_true] at nodes
      exact spliced_of_single collects nodes.1 nodes.2
  | alternative kind mem kept =>
    simp only [Script.legible, kind, decide_eq_true_eq, List.all_eq_true] at legible
    refine ofSub (by simp [kind]) (legible _ mem) kept fun depth nodes => ?_
    cases depth with
    | zero => exact absurd nodes Bool.false_ne_true
    | succ depth =>
      simp only [makesNodes, found, Option.any_some, kind, List.all_eq_true] at nodes
      exact kept.node depth (nodes _ mem)
  | present kind children kept =>
    simp only [Script.legible, kind, children, decide_eq_true_eq, List.all_eq_true] at legible
    exact ofSub (by simp [kind]) (legible _ List.mem_cons_self) kept
      (noNode (by simp [kind]) (by simp [kind]))
  | absent kind =>
    exact .of_other found (.inl (by simp [kind])) (.nil _ _)
      (noNode (by simp [kind]) (by simp [kind]))
  | repeated kind children repeats =>
    simp only [Script.legible, kind, children, decide_eq_true_eq, List.all_eq_true] at legible
    have marks := leaveMarks_of_repeats repeats (legible _ List.mem_cons_self)
    exact .of_other found (.inl (by simp [kind])) marks (noNode (by simp [kind]) (by simp [kind]))
  | capture kind children kept =>
    simp only [Script.legible, kind, children, decide_eq_true_eq, List.all_eq_true] at legible
    exact ofSub (by simp [kind]) (legible _ List.mem_cons_self) kept
      (noNode (by simp [kind]) (by simp [kind]))
  | @operated operand rest table _ _ kind children table? operated =>
    simp only [Script.legible, kind, children, table?, decide_eq_true_eq, List.all_eq_true,
      Bool.and_eq_true, Option.all_some, List.contains_iff_mem, ne_eq] at legible
    obtain ⟨⟨⟨named, silent⟩, nodes⟩, known⟩ := legible
    rw [← endKind] at known
    obtain ⟨marks, node⟩ := leaveMarks_of_operated operated named (silent _ List.mem_cons_self)
      (nodes _ List.mem_cons_self) known
    exact .of_other found (.inl (by simp [kind])) marks fun _ _ => node

end Rules

end Grammatic.Script
