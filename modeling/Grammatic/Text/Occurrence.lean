/-!
# Occurrence in a text

Whether a word occurs in a text, at any place and in one piece. The empty word occurs in every text.
-/

namespace Grammatic.Text

/-- Whether a word occurs in a text, both as lists of characters. -/
def occursIn (word : List Char) : List Char → Bool
  | [] => word.isEmpty
  | c :: rest => word.isPrefixOf (c :: rest) || occursIn word rest

/-- Whether a word occurs in a text. -/
def occurs (word text : String) : Bool :=
  occursIn word.toList text.toList

theorem occursIn_iff {word text : List Char} : occursIn word text = true ↔ word <:+: text := by
  induction text with
  | nil => simp [occursIn]
  | cons c rest ih => simp [occursIn, ih, List.infix_cons_iff]

theorem occurs_iff {word text : String} : occurs word text = true ↔ word.toList <:+: text.toList :=
  occursIn_iff

end Grammatic.Text
