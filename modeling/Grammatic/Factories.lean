import Grammatic.Evaluation.Outcome
import Grammatic.Value

/-!
# Factories of values

The ways to make values that need no grammar of their own: tagged nodes, tuples that begin with the
tag, and nothing at all. None of them refuses anything.
-/

namespace Grammatic.Factory

variable {ε : Type}

/-- Makes tagged nodes. -/
def nodes : Factory Value ε := ⟨.scalar, .list, fun tag children => .ok (.node tag children)⟩

/-- Makes tuples of the tag and the children. -/
def tuples : Factory Value ε :=
  ⟨.scalar, .list, fun tag children => .ok (.tuple (.ofTag tag :: children))⟩

/-- Makes nothing of any tag and children. -/
def nothing : Factory Value ε := ⟨.scalar, .list, fun _ _ => .ok .absent⟩

end Grammatic.Factory
