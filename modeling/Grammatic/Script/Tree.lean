import Grammatic.Evaluation.Outcome
import Grammatic.Value

/-!
# Script trees

How the nodes of script trees are made from the values that a rule captures. The lists of repeated
elements are spliced, and what is not there is left out, so that the children of a node are just
the nodes that occurred. A leaf takes exactly one value, as it is. A primary expression of a single
part is that part.
-/

namespace Grammatic.Script

/-- Why a node cannot be made. -/
inductive BuildError where
  | unknownTag (tag : Option String)
  | notOneValue (kind : NodeKind) (children : List Value)

/-- The wording of a refusal. -/
def BuildError.message : BuildError → String
  | .unknownTag tag => "unknown node tag: " ++ Value.shownTag tag
  | .notOneValue kind children =>
    kind.tag ++ " requires exactly one value; received " ++ (Value.list children).shown

mutual
/-- What a captured value adds to the children of a node: nothing if it is absent, its elements if
it is a list, and else itself. -/
def spliced : Value → List Value
  | .scalar .absent => []
  | .list items => flatten items
  | value => [value]

/-- The values in a list and in the lists inside it, without those that are absent. -/
def flatten : List Value → List Value
  | [] => []
  | value :: rest => spliced value ++ flatten rest
end

/-- A node of a kind. -/
def nodeOf (kind : NodeKind) (children : List Value) : Except BuildError Value :=
  if kind.isLeaf then
    if children.length = 1 then .ok (.tree kind children) else .error (.notOneValue kind children)
  else
    match kind, flatten children with
    | .primaryExpr, [part] => .ok part
    | _, children => .ok (.tree kind children)

/-- Makes the nodes of script trees. -/
def trees : Factory Value BuildError where
  scalar := .scalar
  list := .list
  node := fun tag children =>
    match tag.bind NodeKind.ofTag? with
    | some kind => nodeOf kind children
    | none => .error (.unknownTag tag)

/-- Whether a value is an empty statement. -/
def isNullStatement : Value → Bool
  | .tree .nullStatement _ => true
  | _ => false

end Grammatic.Script
