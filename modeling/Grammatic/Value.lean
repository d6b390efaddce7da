import Grammatic.Scalar
import Grammatic.Script.NodeKind
import Grammatic.Token.Basic

/-!
# Values

The values that parsing makes: scalars, lists of repeated elements, tuples, tagged nodes, the nodes
of script trees, and tokens. A value has a text that shows its structure, and a plain text in which
script trees are written as expressions. Its skeleton is a simpler value: tokens become their
texts, nodes become tuples, and the leaves of script trees become what they hold.

A script tree of an odd shape may lack a part that its text or its skeleton needs. The functions of
this module take values of any depth: a bound on the depth of nested calls, which a machine may set,
is left aside, so a value has its text and its skeleton here however deep it is.
-/

namespace Grammatic

open Script (NodeKind)

/-- A value made by parsing. -/
inductive Value where
  | scalar (value : Scalar)
  | token (token : Token)
  | list (items : List Value)
  | tuple (items : List Value)
  /-- A node with a tag, unless its rule has none. -/
  | node (tag : Option String) (children : List Value)
  /-- A node of a script tree. -/
  | tree (kind : NodeKind) (children : List Value)
  deriving Inhabited, Repr

/-- Why a part of a value cannot be had. -/
inductive PartError where
  /-- There are not enough children. -/
  | missingChild
  /-- Values of the type have no part of the name. -/
  | noPart (type part : String)
  deriving DecidableEq, Repr

/-- The wording of a refusal. -/
def PartError.message : PartError → String
  | .missingChild => "list index out of range"
  | .noPart type part => Text.quoted type ++ " object has no attribute " ++ Text.quoted part

namespace Value

/-- The value of something that is not there. -/
def absent : Value := .scalar .absent

/-- A text as a value. -/
def text (s : String) : Value := .scalar (.text s)

/-- A tag as a value. -/
def ofTag (tag : Option String) : Value :=
  .scalar ((tag.map Scalar.text).getD .absent)

/-- The text of a tag. -/
def shownTag (tag : Option String) : String :=
  ((tag.map Scalar.text).getD .absent).shown

/-- The text of a tuple of shown items; a tuple of one has a comma behind it. -/
def shownTuple : List String → String
  | [item] => "(" ++ item ++ ",)"
  | items => "(" ++ ", ".intercalate items ++ ")"

mutual
/-- The text of a value that shows its structure. -/
def shown : Value → String
  | .scalar s => s.shown
  | .token t => t.shown
  | .list items => "[" ++ ", ".intercalate (shownItems items) ++ "]"
  | .tuple items => shownTuple (shownItems items)
  | .node tag children =>
    "Node(" ++ shownTag tag ++ ", [" ++ ", ".intercalate (shownItems children) ++ "])"
  | .tree kind children => kind.tag ++ "([" ++ ", ".intercalate (shownItems children) ++ "])"

/-- The shown texts of several values. -/
def shownItems : List Value → List String
  | [] => []
  | v :: rest => shown v :: shownItems rest
end

/-- Whether a value counts as true: empty collections and some scalars do not. -/
def isTrue : Value → Bool
  | .scalar s => s.isTrue
  | .list items | .tuple items => !items.isEmpty
  | _ => true

/-- The child at a place. -/
def child {α : Type} (children : List α) (place : Nat) : Except PartError α :=
  match children[place]? with
  | some value => .ok value
  | none => .error .missingChild

/-- The result for the child at a place. -/
def childResult {α : Type} (results : List (Except PartError α)) (place : Nat) :
    Except PartError α := do
  let result ← child results place
  result

/-- The plain text of a node of a script tree, given those of its children. -/
def treeText (kind : NodeKind) (children : List Value) (texts : List (Except PartError String)) :
    Except PartError String := do
  let part := childResult texts
  match kind with
  | .numberLiteral | .name => part 0
  | .stringLiteral => return "\"" ++ (← part 0) ++ "\""
  | .boolLiteral => return if (← child children 0).isTrue then "true" else "false"
  | .nullLiteral => return "null"
  | .negativeExpr => return "-" ++ (← part 0)
  | .notExpr => return "!" ++ (← part 0)
  | .binaryExpr => return "(" ++ (← part 0) ++ " " ++ (← part 1) ++ " " ++ (← part 2) ++ ")"
  | .ifStatement =>
    let otherwise ← if 2 < texts.length then (" else " ++ ·) <$> part 2 else pure ""
    return "(if " ++ (← part 0) ++ " " ++ (← part 1) ++ otherwise ++ ")"
  | .whileStatement => return "(while " ++ (← part 0) ++ " " ++ (← part 1) ++ ")"
  | .nullStatement => return "()"
  | .forStatement =>
    return "(for " ++ (← part 0) ++ " " ++ (← part 1) ++ " " ++ (← part 2) ++ " " ++
      (← part 3) ++ ")"
  | .breakStatement => return "(break)"
  | .importStatement => return "(import " ++ (← part 0) ++ ")"
  | .primaryExpr | .block | .clause => return "(" ++ " ".intercalate (← texts.mapM id) ++ ")"

mutual
/-- The plain text of a value. -/
def plain : Value → Except PartError String
  | .scalar s => .ok s.spelled
  | .token t => .ok t.label
  | .tree kind children => treeText kind children (plainItems children)
  | .list items => .ok (shown (.list items))
  | .tuple items => .ok (shown (.tuple items))
  | .node tag children => .ok (shown (.node tag children))

/-- The plain texts of several values. -/
def plainItems : List Value → List (Except PartError String)
  | [] => []
  | v :: rest => plain v :: plainItems rest
end

/-- The skeleton of a node of a script tree, given those of its children. -/
def treeSkeleton (kind : NodeKind) (children : List Value)
    (skeletons : List (Except PartError Value)) : Except PartError Value := do
  let part := childResult skeletons
  match kind with
  | .numberLiteral | .name | .boolLiteral | .nullLiteral => child children 0
  | .stringLiteral => return text (← plain (.tree kind children))
  | .negativeExpr => return .tuple [text "-", ← part 0]
  | .notExpr => return .tuple [text "!", ← part 0]
  | .binaryExpr => return .tuple [← child children 1, ← part 0, ← part 2]
  | _ => return .tuple (text kind.tag :: (← skeletons.mapM id))

mutual
/-- The skeleton of a value. -/
def skeleton : Value → Except PartError Value
  | .scalar s => .ok (.scalar s)
  | .token t => .ok (text t.text)
  | .list items => return .list (← (skeletons items).mapM id)
  | .tuple items => return .tuple (← (skeletons items).mapM id)
  | .node tag children => return .tuple (ofTag tag :: (← (skeletons children).mapM id))
  | .tree kind children => treeSkeleton kind children (skeletons children)

/-- The skeletons of several values. -/
def skeletons : List Value → List (Except PartError Value)
  | [] => []
  | v :: rest => skeleton v :: skeletons rest
end

mutual
/-- Equality by value: numbers are equal across their types, and a list never equals a tuple. -/
def same : Value → Value → Bool
  | .scalar a, .scalar b => a.same b
  | .token a, .token b => a == b
  | .list a, .list b => sameItems a b
  | .tuple a, .tuple b => sameItems a b
  | .node s a, .node t b => s == t && sameItems a b
  | .tree j a, .tree k b => j == k && sameItems a b
  | _, _ => false

/-- Equality of several values. -/
def sameItems : List Value → List Value → Bool
  | [], [] => true
  | v :: rest, w :: rest' => same v w && sameItems rest rest'
  | _, _ => false
end

/-- The name of the type of a value. -/
def typeName : Value → String
  | .scalar .absent => "NoneType"
  | .scalar (.flag _) => "bool"
  | .scalar (.int _) => "int"
  | .scalar (.real _) => "float"
  | .scalar (.text _) => "str"
  | .token _ => "Token"
  | .list _ => "list"
  | .tuple _ => "tuple"
  | .node _ _ => "Node"
  | .tree kind _ => kind.tag

/-- The value that a leaf holds. -/
def held : Value → Except PartError Value
  | .tree kind children =>
    if kind.isLeaf then child children 0 else .error (.noPart kind.tag "value")
  | other => .error (.noPart other.typeName "value")

/-- A part of a node of a script tree, by name. -/
def treePart (kind : NodeKind) (children : List Value) (part : String) : Except PartError Value :=
  match kind, part with
  | _, "tag" => .ok (text kind.tag)
  | _, "children" => .ok (.list children)
  | .negativeExpr, "operand" | .notExpr, "operand" => child children 0
  | .binaryExpr, "left" => child children 0
  | .binaryExpr, "operator" => child children 1
  | .binaryExpr, "right" => child children 2
  | .block, "statements" => .ok (.list children)
  | .ifStatement, "condition" => child children 0
  | .ifStatement, "then_block" => child children 1
  | .ifStatement, "else_block" => .ok (children[2]?.getD absent)
  | .whileStatement, "condition" => child children 0
  | .whileStatement, "body" => child children 1
  | .clause, "expressions" => .ok (.list children)
  | .forStatement, "init" => child children 0
  | .forStatement, "condition" => child children 1
  | .forStatement, "step" => child children 2
  | .forStatement, "body" => child children 3
  | .importStatement, "path" => do held (← child children 0)
  | _, "value" => held (.tree kind children)
  | _, _ => .error (.noPart kind.tag part)

/-- A part of a value, by name. -/
def part : Value → String → Except PartError Value
  | .tree kind children, name => treePart kind children name
  | .node tag _, "tag" => .ok (ofTag tag)
  | .node _ children, "children" => .ok (.tuple children)
  | .token t, "kind" => .ok (text t.kind)
  | .token t, "text" => .ok (text t.text)
  | .token t, "pos" => .ok (.scalar (.int t.start))
  | .token t, "end" => .ok (.scalar (.int t.stop))
  | other, name => .error (.noPart other.typeName name)

end Value

end Grammatic
