import Grammatic.Proofs.Number.Canonical
import Grammatic.Proofs.Script.Completion
import Grammatic.Proofs.Script.LongestMatch
import Grammatic.Proofs.Script.Reading
import Grammatic.Proofs.Script.Shaping

/-!
# A skeleton determines its tree

In a skeleton leaves, signs and operations have lost their names. Still the tree can be restored from it
(`exists_restores`): a text that begins with a quote was a quoted string, and any other a name; a tuple that
begins with a tag was a node of that kind, and any other an operation or a sign. That is right as long as no
name begins with a quote and no operator is a tag, and the marks of a tree say so (`Mark.Plain`). They are left
by tokens, and so it comes down to what the patterns of a vocabulary can match: its words, that are the
keywords and the spellings of operators, are no tags, and no name has a quote in it (`distinct_of_mem_tile`).

Skeletons are compared by value, with their types kept apart (`Value.SameTyped`). That two of them are then
identical is due to their numbers, each in the one form that rounding gives (`eq_of_sameTyped`).

So units with one skeleton are one tree, whichever texts they are from (`skeleton_determines_tree`).
-/

namespace Grammatic.Script

/-! ## From a skeleton to the tree -/

/-- The leaf with a text for a skeleton: a quoted string without its quotes, or a name. -/
def restoredLeaf (text : String) : Value :=
  if text.toList.head? = some '"' then
    .tree .stringLiteral [.text (String.ofList text.toList.tail.dropLast)]
  else .tree .name [.text text]

/-- The node with a tuple for a skeleton, given the text that the tuple begins with and the trees of the other
items. -/
def restoredNode (first : String) (nodes : List Value) : Value :=
  match NodeKind.ofTag? first, nodes with
  | some kind, nodes => .tree kind nodes
  | none, [left, right] => .tree .binaryExpr [left, .text first, right]
  | none, nodes => .tree (if first = "-" then .negativeExpr else .notExpr) nodes

mutual
/-- The tree that has a value for its skeleton. -/
def restored : Value → Value
  | .scalar (.text text) => restoredLeaf text
  | .scalar (.int i) => .tree .numberLiteral [.scalar (.int i)]
  | .scalar (.real d) => .tree .numberLiteral [.scalar (.real d)]
  | .scalar (.flag b) => .tree .boolLiteral [.scalar (.flag b)]
  | .scalar .absent => .tree .nullLiteral [.scalar .absent]
  | .tuple (.scalar (.text first) :: parts) => restoredNode first (restoredAll parts)
  | other => other

/-- The trees that have some values for their skeletons. -/
def restoredAll : List Value → List Value
  | [] => []
  | value :: rest => restored value :: restoredAll rest
end

/-- What a mark has to be for the tree to be restored: a name without quotes, a number in canonical form, or an
operator that is no tag. -/
def Mark.Plain : Mark → Prop
  | .literal .name (.text text) => '"' ∉ text.toList
  | .literal .numberLiteral value => value.Canonical
  | .operator text => NodeKind.ofTag? text = none
  | _ => True

theorem ofTag?_tag (kind : NodeKind) : NodeKind.ofTag? kind.tag = some kind := by
  cases kind <;> decide

theorem readings_eq_map (values : List Value) : readings values = values.map reading := by
  induction values with
  | nil => rfl
  | cons value rest ih => rw [readings, ih, List.map_cons]

theorem exists_text_of_isA {value : Value} (isText : value.IsA [.text]) : ∃ text, value = .scalar (.text text) := by
  obtain ⟨_, mem, same⟩ := isText
  obtain rfl := List.mem_singleton.mp mem
  cases value with
  | scalar value =>
    cases value with
    | text text => exact ⟨text, rfl⟩
    | absent | flag _ | int _ | real _ => cases same
  | list _ | tuple _ | node _ _ | token _ | tree _ _ => cases same

theorem exists_scalar_of_isA {value : Value} {kinds : List ValueKind} (isA : value.IsA kinds)
    (none : ∀ kind, .node kind ∉ kinds) : ∃ scalar, value = .scalar scalar := by
  obtain ⟨_, mem, same⟩ := isA
  cases value with
  | scalar value => exact ⟨value, rfl⟩
  | tree kind _ =>
    obtain rfl := Option.some.inj same
    exact absurd mem (none kind)
  | list _ | tuple _ | node _ _ | token _ => cases same

/-- What is read of a child is read of the node. -/
theorem mem_reading_of_child {kind : NodeKind} {children : List Value} (fits : Fits kind.slots children)
    {child : Value} (mem : child ∈ children) {mark : Mark} (isRead : mark ∈ reading child) :
    mark ∈ reading (.tree kind children) := by
  cases kind with
  | numberLiteral | name | stringLiteral | boolLiteral | nullLiteral =>
    -- a leaf holds a scalar, of which nothing is read
    simp only [NodeKind.slots, fits_one_cons, fits_nil] at fits
    obtain ⟨value, _, rfl, isScalar, rfl⟩ := fits
    obtain rfl := List.mem_singleton.mp mem
    obtain ⟨scalar, rfl⟩ := exists_scalar_of_isA isScalar (by simp)
    simp [reading] at isRead
  | binaryExpr =>
    simp only [NodeKind.slots, fits_one_cons, fits_nil] at fits
    obtain ⟨left, _, rfl, -, operator, _, rfl, isText, right, _, rfl, -, rfl⟩ := fits
    obtain ⟨text, rfl⟩ := exists_text_of_isA isText
    simp only [List.mem_cons, List.not_mem_nil, or_false] at mem
    simp only [reading, readings, nodeReading, List.mem_append, List.mem_cons]
    rcases mem with rfl | rfl | rfl
    · exact .inl isRead
    · simp [reading] at isRead
    · exact .inr (.inr isRead)
  | negativeExpr | notExpr | primaryExpr | block | ifStatement | whileStatement | clause | nullStatement
  | forStatement | breakStatement | importStatement =>
    have among : mark ∈ (readings children).flatten := by
      rw [readings_eq_map]
      exact List.mem_flatten.mpr ⟨_, List.mem_map_of_mem mem, isRead⟩
    exact List.mem_append_right _ among

/-! ## The tree is restored -/

/-- A skeleton is in canonical form, and a tree can be restored from it. -/
structure Restores (skeleton tree : Value) : Prop where
  same : restored skeleton = tree
  canonical : skeleton.Canonical

theorem restores_number {value : Scalar} (isNumber : (Value.scalar value).IsA [.number])
    (canonical : value.Canonical) : Restores (.scalar value) (.tree .numberLiteral [.scalar value]) := by
  obtain ⟨_, mem, same⟩ := isNumber
  obtain rfl := List.mem_singleton.mp mem
  cases value with
  | int _ | real _ => exact ⟨rfl, .scalar canonical⟩
  | absent | flag _ | text _ => cases same

theorem restores_flag {value : Scalar} (isFlag : (Value.scalar value).IsA [.flag]) :
    Restores (.scalar value) (.tree .boolLiteral [.scalar value]) := by
  obtain ⟨_, mem, same⟩ := isFlag
  obtain rfl := List.mem_singleton.mp mem
  cases value with
  | flag _ => exact ⟨rfl, .scalar trivial⟩
  | absent | int _ | real _ | text _ => cases same

theorem restores_absent {value : Scalar} (isAbsent : (Value.scalar value).IsA [.absent]) :
    Restores (.scalar value) (.tree .nullLiteral [.scalar value]) := by
  obtain ⟨_, mem, same⟩ := isAbsent
  obtain rfl := List.mem_singleton.mp mem
  cases value with
  | absent => exact ⟨rfl, .scalar trivial⟩
  | flag _ | int _ | real _ | text _ => cases same

/-- A name begins with no quote. -/
theorem restores_name {text : String} (plain : '"' ∉ text.toList) :
    Restores (.text text) (.tree .name [.text text]) :=
  ⟨if_neg fun first => plain (List.mem_of_head? first), .scalar trivial⟩

/-- A quoted string loses its quotes again. -/
theorem restores_quoted (text : String) :
    Restores (.text ("\"" ++ text ++ "\"")) (.tree .stringLiteral [.text text]) := by
  have chars : ("\"" ++ text ++ "\"").toList = '"' :: (text.toList ++ ['"']) := by simp
  refine ⟨?_, .scalar trivial⟩
  rw [Value.text, restored, restoredLeaf, chars, List.head?_cons, if_pos rfl, List.tail_cons,
    List.dropLast_concat, String.ofList_toList]

/-- A tuple is in canonical form if its items are, and the trees of its items are restored. -/
theorem restores_node (first : String) {skeletons children : List Value}
    (each : List.Forall₂ Restores skeletons children) :
    Restores (.tuple (.text first :: skeletons)) (restoredNode first children) := by
  have all : restoredAll skeletons = children ∧ ∀ item ∈ skeletons, item.Canonical := by
    induction each with
    | nil => exact ⟨rfl, fun _ mem => by cases mem⟩
    | cons head _ ih =>
      obtain ⟨same, canonical⟩ := ih
      exact ⟨by rw [restoredAll, head.same, same], List.forall_mem_cons.mpr ⟨head.canonical, canonical⟩⟩
  obtain ⟨same, canonical⟩ := all
  exact ⟨by rw [Value.text, restored, same], .tuple (List.forall_mem_cons.mpr ⟨.scalar trivial, canonical⟩)⟩

theorem restores_operation {operator : String} {left left' right right' : Value}
    (untagged : NodeKind.ofTag? operator = none) (isLeft : Restores left left')
    (isRight : Restores right right') :
    Restores (.tuple [.text operator, left, right]) (.tree .binaryExpr [left', .text operator, right']) := by
  have node : restoredNode operator [left', right'] = .tree .binaryExpr [left', .text operator, right'] := by
    simp only [restoredNode, untagged]
  exact node ▸ restores_node operator (.cons isLeft (.cons isRight .nil))

theorem restores_tagged (kind : NodeKind) {skeletons children : List Value}
    (each : List.Forall₂ Restores skeletons children) :
    Restores (.tuple (.text kind.tag :: skeletons)) (.tree kind children) := by
  have node : restoredNode kind.tag children = .tree kind children := by simp only [restoredNode, ofTag?_tag]
  exact node ▸ restores_node kind.tag each

/-- If children have skeletons, together they have a list of skeletons. -/
theorem exists_restores_all {children : List Value}
    (each : ∀ child ∈ children, ∃ skeleton, child.skeleton = .ok skeleton ∧ Restores skeleton child) :
    ∃ skeletons, (children.map Value.skeleton).mapM id = .ok skeletons ∧
      List.Forall₂ Restores skeletons children := by
  induction children with
  | nil => exact ⟨[], rfl, .nil⟩
  | cons child rest ih =>
    obtain ⟨skeleton, isSkeleton, restores⟩ := each child List.mem_cons_self
    obtain ⟨skeletons, areSkeletons, all⟩ := ih fun child mem => each child (List.mem_cons_of_mem _ mem)
    refine ⟨skeleton :: skeletons, ?_, .cons restores all⟩
    rw [List.map_cons, List.mapM_cons, id, isSkeleton, areSkeletons]
    rfl

/-- A leaf has a skeleton, from which it is restored if its name or number is plain. -/
theorem exists_restores_leaf {kind : NodeKind} {children : List Value} (leaf : kind.isLeaf = true)
    (fits : Fits kind.slots children) (plain : ∀ mark ∈ reading (.tree kind children), mark.Plain) :
    ∃ skeleton, (Value.tree kind children).skeleton = .ok skeleton ∧ Restores skeleton (.tree kind children) := by
  cases kind with
  | numberLiteral =>
    simp only [NodeKind.slots, fits_one_cons, fits_nil] at fits
    obtain ⟨value, _, rfl, isNumber, rfl⟩ := fits
    obtain ⟨number, rfl⟩ := exists_scalar_of_isA isNumber (by simp)
    have canonical : number.Canonical :=
      plain (.literal .numberLiteral number) (by simp [reading, nodeReading])
    exact ⟨_, rfl, restores_number isNumber canonical⟩
  | boolLiteral =>
    simp only [NodeKind.slots, fits_one_cons, fits_nil] at fits
    obtain ⟨value, _, rfl, isFlag, rfl⟩ := fits
    obtain ⟨flag, rfl⟩ := exists_scalar_of_isA isFlag (by simp)
    exact ⟨_, rfl, restores_flag isFlag⟩
  | nullLiteral =>
    simp only [NodeKind.slots, fits_one_cons, fits_nil] at fits
    obtain ⟨value, _, rfl, isAbsent, rfl⟩ := fits
    obtain ⟨nothing, rfl⟩ := exists_scalar_of_isA isAbsent (by simp)
    exact ⟨_, rfl, restores_absent isAbsent⟩
  | name =>
    simp only [NodeKind.slots, fits_one_cons, fits_nil] at fits
    obtain ⟨value, _, rfl, isText, rfl⟩ := fits
    obtain ⟨text, rfl⟩ := exists_text_of_isA isText
    exact ⟨_, rfl, restores_name (plain (.literal .name (.text text)) (by simp [reading, nodeReading]))⟩
  | stringLiteral =>
    simp only [NodeKind.slots, fits_one_cons, fits_nil] at fits
    obtain ⟨value, _, rfl, isText, rfl⟩ := fits
    obtain ⟨text, rfl⟩ := exists_text_of_isA isText
    exact ⟨_, rfl, restores_quoted text⟩
  | primaryExpr | negativeExpr | notExpr | binaryExpr | block | ifStatement | whileStatement | clause
  | nullStatement | forStatement | breakStatement | importStatement => cases leaf

/-- A tree has a skeleton, from which it is restored if its names, numbers and operators are plain. -/
theorem exists_restores {tree : Value} (formed : Formed tree) (plain : ∀ mark ∈ reading tree, mark.Plain) :
    ∃ skeleton, tree.skeleton = .ok skeleton ∧ Restores skeleton tree := by
  induction formed with
  | @node kind children fits below ih =>
    have each (child : Value) (mem : child ∈ children) {kinds : List ValueKind} (isA : child.IsA kinds)
        (nodes : ∀ kind ∈ kinds, ∃ node, kind = .node node) :
        ∃ skeleton, child.skeleton = .ok skeleton ∧ Restores skeleton child := by
      obtain ⟨_, among, same⟩ := isA
      obtain ⟨sub, rfl⟩ := nodes _ among
      obtain ⟨subChildren, rfl⟩ := Value.exists_children_of_kind? same
      exact ih sub subChildren mem fun mark isRead => plain mark (mem_reading_of_child fits mem isRead)
    cases kind with
    | numberLiteral | name | stringLiteral | boolLiteral | nullLiteral =>
      exact exists_restores_leaf rfl fits plain
    | negativeExpr | notExpr =>
      simp only [NodeKind.slots, fits_one_cons, fits_nil] at fits
      obtain ⟨operand, _, rfl, isOperand, rfl⟩ := fits
      obtain ⟨inner, isSkeleton, restores⟩ := each operand List.mem_cons_self isOperand (by simp [expressionNodes])
      rw [Value.skeleton, skeletons_eq_map, List.map_cons, isSkeleton]
      exact ⟨_, rfl, restores_node _ (.cons restores .nil)⟩
    | binaryExpr =>
      simp only [NodeKind.slots, fits_one_cons, fits_nil] at fits
      obtain ⟨left, _, rfl, isLeft, operator, _, rfl, isText, right, _, rfl, isRight, rfl⟩ := fits
      obtain ⟨text, rfl⟩ := exists_text_of_isA isText
      obtain ⟨first, isFirst, restores⟩ := each left (by simp) isLeft (by simp [expressionNodes])
      obtain ⟨second, isSecond, restores'⟩ := each right (by simp) isRight (by simp [expressionNodes])
      have untagged : NodeKind.ofTag? text = none :=
        plain (.operator text) (by simp [reading, readings, nodeReading])
      simp only [Value.skeleton, skeletons_eq_map, List.map_cons, isFirst, isSecond]
      exact ⟨_, rfl, restores_operation untagged restores restores'⟩
    | primaryExpr =>
      -- no value is of the kind that its child would have to be
      simp only [NodeKind.slots, fits_one_cons] at fits
      obtain ⟨_, _, _, ⟨_, mem, _⟩, _⟩ := fits
      cases mem
    | block | ifStatement | whileStatement | clause | nullStatement | forStatement | breakStatement
    | importStatement =>
      obtain ⟨skeletons, areSkeletons, all⟩ := exists_restores_all fun child mem =>
        each child mem (fits.isA child mem)
          (by simp [NodeKind.slots, Slot.one, Slot.many, Slot.optional, statementNodes, expressionNodes])
      simp only [Value.skeleton, skeletons_eq_map, Value.treeSkeleton, areSkeletons]
      exact ⟨_, rfl, restores_tagged _ all⟩

/-! ## Names and operators in a text -/

/-- A token whose text is not taken for that of another kind: a name has no quotes, and an operator is no
tag. And a number is a decimal. -/
structure Distinct (token : Token) : Prop where
  name : token.kind = "name" → '"' ∉ token.text.toList
  number : token.kind = "number" → Numeral.Decimal token.text.toList
  operator : token.kind ∈ operators.map (·.1) → NodeKind.ofTag? token.text = none

theorem Leaves.plain {token : Token} (distinct : Distinct token) {mark : Mark} (leaves : Leaves token mark) :
    mark.Plain := by
  cases leaves with
  | @literal kind literal value mem read =>
    simp only [literalKinds, List.mem_cons, Prod.mk.injEq, List.not_mem_nil, or_false] at mem
    rcases mem with ⟨isNumber, rfl, rfl⟩ | ⟨isName, rfl, rfl⟩ | ⟨-, rfl, -⟩ | ⟨-, rfl, -⟩ | ⟨-, rfl, -⟩ |
      ⟨-, rfl, -⟩
    case inl =>
      exact Literal.canonical_of_readNumber (distinct.number isNumber) (by rwa [String.ofList_toList])
    case inr.inl =>
      obtain rfl := Except.ok.inj read
      exact distinct.name isName
    all_goals exact trivial
  | operator mem => exact distinct.operator mem
  | minus _ | not _ => exact trivial

theorem distinct_mark (position : Nat) : Distinct (.mark Token.endOfText position) := by
  refine ⟨fun isName => ?_, fun isNumber => ?_, fun isOperator => ?_⟩
  · exact absurd isName (by simp [Token.mark, Token.endOfText])
  · exact absurd isNumber (by simp [Token.mark, Token.endOfText])
  · have other : Token.endOfText ∉ operators.map (·.1) := by decide
    exact absurd isOperator other

/-- Checks that no word of a vocabulary is a tag, and that its keywords have no quotes. -/
def Vocabulary.tellsApart (vocabulary : Vocabulary) : Bool :=
  vocabulary.keywords.all (fun keyword =>
    '"' ∉ keyword.1.toList && (NodeKind.ofTag? keyword.1).isNone) &&
    (wordsOf vocabulary.readTable).all fun word => (NodeKind.ofTag? (String.ofList word)).isNone

/-- A group in the pattern of a lexer is an entry of its table. -/
theorem mem_of_group {lexer : Lexer} {table : List (String × Pattern)} (lists : lexer.Lists table)
    {label : String} {inner : Pattern}
    (mem : .group (some label) inner ∈ lexer.pattern.branches) : (label, inner) ∈ table := by
  rw [lists.pattern] at mem
  clear lists
  induction table with
  | nil => simp [Pattern.choice, Pattern.branches] at mem
  | cons first rest ih =>
    have ofFirst {label : String} {inner : Pattern}
        (same : Pattern.group (some label) inner = .group (some first.1) first.2) : (label, inner) = first := by
      obtain ⟨isLabel, isInner⟩ := Pattern.group.inj same
      exact Prod.ext (Option.some.inj isLabel) isInner
    cases rest with
    | nil => exact List.mem_singleton.mpr (ofFirst (List.mem_singleton.mp mem))
    | cons second rest =>
      rcases List.mem_cons.mp mem with same | mem
      · exact List.mem_cons.mpr (.inl (ofFirst same))
      · exact List.mem_cons_of_mem _ (ih mem)

section

variable {vocabulary : Vocabulary} {lexer : Lexer} {words : List (List Char)}

/-- What a pattern with the name of names takes has no quotes. -/
theorem Spells.not_mem_of_name (spells : Spells lexer vocabulary.readTable words) {inner : Pattern}
    (listed : ("name", inner) ∈ vocabulary.readTable) {chars : List Char} (allows : inner.Allows {} chars) :
    '"' ∉ chars := by
  rcases spells.cases _ listed with isFormed | isName | verbal
  · have others : ∀ entry ∈ formedEntries, entry.1 ≠ "name" := by decide
    exact absurd rfl (others _ isFormed)
  · obtain ⟨-, rfl⟩ := Prod.mk.inj isName
    exact allows.not_mem (avoids_namePattern (by decide) (by decide))
  · obtain ⟨-, avoids, -⟩ := of_isVerbal verbal
    exact allows.not_mem (avoids '"' (by decide))

/-- What a pattern with the name of an operator takes is a word of the table. -/
theorem Spells.mem_wordsOf_of_operator (spells : Spells lexer vocabulary.readTable words) {label : String}
    {inner : Pattern} (listed : (label, inner) ∈ vocabulary.readTable) (isOperator : label ∈ operators.map (·.1))
    {chars : List Char} (allows : inner.Allows {} chars) : chars ∈ wordsOf vocabulary.readTable := by
  rcases spells.cases _ listed with isFormed | isName | verbal
  · have others : ∀ entry ∈ formedEntries, entry.1 ∉ operators.map (·.1) := by decide
    exact absurd isOperator (others _ isFormed)
  · obtain ⟨rfl, -⟩ := Prod.mk.inj isName
    exact absurd isOperator (by decide)
  · obtain ⟨-, -, branches⟩ := of_isVerbal verbal
    obtain ⟨branch, isBranch, allows⟩ := allows.exists_branch
    obtain ⟨word, isSpelling, rfl, -⟩ := branches branch isBranch
    obtain rfl := Pattern.allows_word allows
    exact List.mem_flatMap.mpr ⟨_, listed, List.mem_filterMap.mpr ⟨_, isBranch, isSpelling⟩⟩

/-- The tokens of a text are distinct. -/
theorem distinct_of_mem_tile (spells : Spells lexer vocabulary.readTable words)
    (lexes : LexesScripts lexer vocabulary) (checked : vocabulary.tellsApart = true) {text : String}
    {token : Token} (mem : token ∈ (lexer.tile text).tokens) : Distinct token := by
  simp only [Vocabulary.tellsApart, Bool.and_eq_true, List.all_eq_true, decide_eq_true_eq,
    Option.isNone_iff_eq_none] at checked
  obtain ⟨keywords, spelled⟩ := checked
  rcases lexer.exists_group_of_mem_tile lexes.table mem with
    invalid | ⟨label, inner, chars, branch, allows, isText, kind⟩
  · refine ⟨fun isName => ?_, lexes.decimal mem, fun isOperator => ?_⟩
    · exact absurd (invalid.symm.trans isName) (by decide)
    · rw [invalid] at isOperator
      exact absurd isOperator (by decide)
  · rw [lexes.flags] at allows
    have listed := mem_of_group spells.lists branch
    rcases lexer.kindOf_eq_or_mem label token.text with same | isKeyword
    · rw [same] at kind
      refine ⟨fun isName => ?_, lexes.decimal mem, fun isOperator => ?_⟩
      · obtain rfl := kind.symm.trans isName
        rw [isText, String.toList_ofList]
        exact spells.not_mem_of_name listed allows
      · rw [isText]
        exact spelled chars (spells.mem_wordsOf_of_operator listed (kind ▸ isOperator) allows)
    · rw [lexes.keywords] at isKeyword
      obtain ⟨plain, untagged⟩ := keywords _ isKeyword
      exact ⟨fun _ => plain, lexes.decimal mem, fun _ => untagged⟩

end

/-! ## Units of scripts -/

/-- A script parser reads a tree as a unit of a text: in the series of its units, or alone at some place. -/
def ScriptParser.HasUnit (script : ScriptParser) (source : Source) (unit : Value) : Prop :=
  ∃ buffer next, script.tokens source = .ok buffer ∧
    ((unit, next) ∈ (script.units buffer).values ∨
      ∃ position, (unit, next) ∈ (script.unit buffer position).values)

/-- The tree of a unit is restored from its skeleton. -/
theorem ScriptParser.Conforms.restores_unit {vocabulary : Vocabulary} {script : ScriptParser}
    (conforms : script.Conforms vocabulary) (keeps : script.keepsSlots = true) {buffer : TokenBuffer}
    (endKind : buffer.endKind = Token.endOfText) (distinct : ∀ token ∈ buffer.toList, Distinct token)
    {start next : Nat} {unit : Value}
    (gives : (script.setting buffer).Gives script.parser.root start (.matched unit next)) :
    ∃ skeleton, unit.skeleton = .ok skeleton ∧ Restores skeleton unit := by
  obtain ⟨-, formed⟩ := unit_formed keeps gives
  refine exists_restores formed fun mark isRead => ?_
  obtain ⟨text, spans, leave⟩ := (conforms.kept endKind gives).marks
  rw [conforms.unsigned, List.nil_append] at leave
  obtain ⟨token, mem, leaves⟩ := exists_of_mem_forall₂ leave.flip isRead
  exact Leaves.plain (distinct token (spans.mem_toList (List.mem_filter.mp mem).1)) leaves

/-- For both vocabularies, each unit that the script parser reads in a text has a skeleton, and units whose
skeletons are equal, with the types of values kept apart, are the same tree, whichever texts they are read
in. -/
theorem skeleton_determines_tree {vocabulary : Vocabulary}
    (known : vocabulary = english ∨ vocabulary = chinese) :
    ∃ script, ScriptParser.ofVocabulary vocabulary = .ok script ∧
      ∀ (source source' : Source) (unit unit' : Value),
        script.HasUnit source unit → script.HasUnit source' unit' →
          ∃ skeleton skeleton', unit.skeleton = .ok skeleton ∧ unit'.skeleton = .ok skeleton' ∧
            (skeleton.SameTyped skeleton' → unit = unit') := by
  obtain ⟨lexer, defined, lexes⟩ := exists_lexer (lexes_of_known known)
  obtain ⟨words, spells⟩ := exists_spells known defined lexes.flags
  obtain ⟨bare, _, bareMade, -, -, conforms⟩ := exists_bare known
  have made : ScriptParser.ofVocabulary vocabulary = .ok (bare.withLexer lexer) := by
    rw [ScriptParser.ofVocabulary, defined]
    exact ScriptParser.ofLexer_of_same lexes.keywords lexes.kinds bareMade
  have keeps := ScriptParser.keepsSlots_of_known known bareMade
  have checked : vocabulary.tellsApart = true := by
    rcases known with rfl | rfl
    · decide +kernel
    · decide +kernel
  have restores {source : Source} {unit : Value} (has : (bare.withLexer lexer).HasUnit source unit) :
      ∃ skeleton, unit.skeleton = .ok skeleton ∧ Restores skeleton unit := by
    obtain ⟨buffer, next, tokens, mem⟩ := has
    obtain rfl := Except.ok.inj ((tokens_of_lexes (conforms.withLexer lexer) rfl lexes source).symm.trans tokens)
    obtain ⟨start, gives⟩ := bare.exists_gives_of_unit mem
    refine conforms.restores_unit keeps (TokenBuffer.endKind_ofTokens _ _ _) ?_ gives
    intro token mem
    rw [toList_ofTokens_marked, if_pos rfl, List.mem_append, List.mem_singleton] at mem
    rcases mem with mem | rfl
    · exact distinct_of_mem_tile spells lexes checked (Lexer.mem_tile_of_mem_kept mem)
    · exact distinct_mark source.length
  refine ⟨_, made, fun source source' unit unit' has has' => ?_⟩
  obtain ⟨skeleton, isSkeleton, restored⟩ := restores has
  obtain ⟨skeleton', isSkeleton', restored'⟩ := restores has'
  refine ⟨skeleton, skeleton', isSkeleton, isSkeleton', fun same => ?_⟩
  rw [← restored.same, ← restored'.same, Value.eq_of_sameTyped restored.canonical restored'.canonical same]

/-- Whether a series of units is the number seven and nothing else. -/
def isSeven (units : Units Value BuildError) : Bool :=
  match units.values with
  | [(.tree .numberLiteral [.scalar (.int 7)], 1)] => true
  | _ => false

theorem mem_of_isSeven {units : Units Value BuildError} (seven : isSeven units = true) :
    (.tree .numberLiteral [.scalar (.int 7)], 1) ∈ units.values := by
  unfold isSeven at seven
  split at seven
  next same => rw [same]; exact List.mem_singleton_self _
  next => cases seven

/-- A number that is written with zeros before it has the same skeleton, and is the same tree. -/
theorem sevens_agree :
    ∃ script, ScriptParser.ofVocabulary english = .ok script ∧ ∃ unit unit',
      script.HasUnit (.ofText "short" "7") unit ∧ script.HasUnit (.ofText "long" "007") unit' ∧
        (∃ skeleton skeleton', unit.skeleton = .ok skeleton ∧ unit'.skeleton = .ok skeleton' ∧
          skeleton.SameTyped skeleton') ∧ unit = unit' := by
  obtain ⟨script, made, determines⟩ := skeleton_determines_tree (.inl (rfl : english = english))
  obtain ⟨bare, lexer, bareMade, lexes, made', conforms⟩ := exists_bare (.inl (rfl : english = english))
  obtain rfl := Except.ok.inj (made.symm.trans made')
  have has (name : String) (text : List Char) (nonempty : text ≠ []) (all : ∀ c ∈ text, c ∈ basicDigits)
      (seven : isSeven (bare.units (.ofTokens ([.ofText "number" (String.ofList text) 0] ++
        [.mark Token.endOfText (Source.ofText name (String.ofList text)).length])
        (some (.ofText name (String.ofList text))))) = true) :
      (bare.withLexer lexer).HasUnit (.ofText name (String.ofList text))
        (.tree .numberLiteral [.scalar (.int 7)]) := by
    have tokens := tokens_of_lexes (conforms.withLexer lexer) rfl lexes (.ofText name (String.ofList text))
    have kept : lexer.kept (Source.ofText name (String.ofList text)).text =
        [.ofText "number" (String.ofList text) 0] := kept_digits lexes nonempty all
    rw [kept] at tokens
    exact ⟨_, 1, tokens, .inl (mem_of_isSeven seven)⟩
  have short := has "short" ['7'] (by simp) (by simp [basicDigits])
    (ScriptParser.of_made_check (fun script => isSeven (script.units _)) (by decide +kernel) bareMade)
  have long := has "long" ['0', '0', '7'] (by simp) (by simp [basicDigits])
    (ScriptParser.of_made_check (fun script => isSeven (script.units _)) (by decide +kernel) bareMade)
  have same : (Value.scalar (.int 7)).SameTyped (.scalar (.int 7)) := .scalar rfl (by decide)
  refine ⟨_, made, _, _, short, long, ⟨_, _, rfl, rfl, same⟩, ?_⟩
  obtain ⟨skeleton, skeleton', isSkeleton, isSkeleton', determines⟩ := determines _ _ _ _ short long
  obtain rfl := Except.ok.inj isSkeleton
  obtain rfl := Except.ok.inj isSkeleton'
  exact determines same

end Grammatic.Script
