import Grammatic.Number.Shortest
import Grammatic.Text.Quoted

/-!
# Scalars

The values that a literal denotes and that plain data is made of: nothing, truth values, whole
numbers, floating point numbers and text. A scalar has two texts. Its *shown* text tells a text
from the other scalars by quoting it; its *plain* text leaves it as it is.
-/

namespace Grammatic

/-- A value without parts. -/
inductive Scalar where
  | absent
  | flag (value : Bool)
  | int (value : Int)
  | real (value : Double)
  | text (value : String)
  deriving DecidableEq, Repr, Inhabited

namespace Scalar

/-- The text of a scalar other than a text. -/
def spelled : Scalar → String
  | .absent => "None"
  | .flag true => "True"
  | .flag false => "False"
  | .int i => toString i
  | .real d => d.text
  | .text s => s

/-- The text of a scalar that shows its type. -/
def shown : Scalar → String
  | .text s => Text.quoted s
  | other => other.spelled

/-- Whether a scalar counts as true: nothing, zeros and the empty text do not. -/
def isTrue : Scalar → Bool
  | .absent => false
  | .flag b => b
  | .int i => i ≠ 0
  | .real d => !d.isInt 0
  | .text s => s ≠ ""

/-- A scalar taken as a number; the truth values are one and zero. -/
def number? : Scalar → Option (Int ⊕ Double)
  | .flag b => some (.inl (if b then 1 else 0))
  | .int i => some (.inl i)
  | .real d => some (.inr d)
  | _ => none

/-- Exact equality of two numbers. -/
def sameNumber : Int ⊕ Double → Int ⊕ Double → Bool
  | .inl i, .inl j => i == j
  | .inr d, .inr e => d.same e
  | .inl i, .inr d => d.isInt i
  | .inr d, .inl i => d.isInt i

/-- Equality by value: numbers are equal across their types, and texts equal only texts. -/
def same (a b : Scalar) : Bool :=
  match a.number?, b.number? with
  | some m, some n => sameNumber m n
  | none, none => a == b
  | _, _ => false

end Scalar

end Grammatic
