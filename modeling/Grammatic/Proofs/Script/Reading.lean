import Grammatic.Proofs.Evaluation.Units
import Grammatic.Proofs.Script.Setup

/-!
# Scripts keep their operands and operators

The tree of each unit of a script is read, left to right, as the tokens of the unit: every literal,
operator and sign once, and in the order of the tokens (`units_keep_marks`). Backtracking reads tokens
again, climbing regroups them, and lists are spliced, but no token is lost or doubled on the way into the
tree.
-/

namespace Grammatic

namespace Script

/-- A value that a rule of a script parser matches with is read as the tokens of the rule. -/
theorem ScriptParser.Conforms.kept {script : ScriptParser} {vocabulary : Vocabulary}
    {buffer : TokenBuffer} (conforms : script.Conforms vocabulary)
    (endKind : buffer.endKind = Token.endOfText) {id : RuleId} {start next : Nat} {value : Value}
    (gives : (script.setting buffer).Gives id start (.matched value next)) :
    Kept script.store buffer id start value next :=
  gives.madeOf_induction fun _ _ _ _ _ found made =>
    kept_of_madeOf endKind (conforms.legible _ (Array.mem_of_getElem? found)) found made

/-- For both vocabularies and every list of tokens, the tree of each unit is read as the tokens of the
unit that are literals, operators and signs, one mark a token, in their order. -/
theorem units_keep_marks {vocabulary : Vocabulary}
    (known : vocabulary = english ∨ vocabulary = chinese) :
    ∃ script, ScriptParser.ofVocabulary vocabulary = .ok script ∧
      ∀ (tokens : List Token) (source? : Option Source),
        Units.EachFrom
          (fun start value next => List.Forall₂ Leaves
            (((tokens.take next).drop start).filter fun token => isMarked token.kind) (reading value))
          0 (script.units (.ofTokens tokens source?)).values := by
  obtain ⟨script, made, conforms⟩ := exists_conforming known
  refine ⟨script, made, fun tokens source? => ?_⟩
  refine Setting.eachFrom_unitsWithin (fun start value next gives => ?_) _ 0
  have kept := conforms.kept (TokenBuffer.endKind_ofTokens _ _ _) gives
  obtain ⟨text, spans, leave⟩ := kept.marks
  rw [conforms.unsigned, List.nil_append] at leave
  rw [← spans.eq_slice]
  exact leave

/-- A product of a negative name and of a sum in parentheses, and behind it a negated truth value. -/
def productAndNegation : List Token := [
  .ofText "dash" "-" 0, .ofText "name" "a" 1, .ofText "star" "*" 2, .ofText "paren_o" "(" 3,
  .ofText "name" "b" 4, .ofText "plus" "+" 5, .ofText "number" "1" 6, .ofText "paren_c" ")" 7,
  .ofText "exclaim" "!" 8, .ofText "true" "true" 9]

/-- What is read of the two units, each with the position behind it. -/
def productAndNegationMarks : List (List Mark × Nat) := [
  ([.minus, .literal .name (.text "a"), .operator "*", .literal .name (.text "b"), .operator "+",
    .literal .numberLiteral (.int 1)], 8),
  ([.not, .literal .boolLiteral (.flag true)], 10)]

/-- The two units are read as their tokens without the parentheses. -/
theorem productAndNegation_keeps_marks :
    ∃ script, ScriptParser.ofVocabulary english = .ok script ∧
      let units := (script.units (.ofTokens productAndNegation)).values
      units.map (fun unit => (reading unit.1, unit.2)) = productAndNegationMarks ∧
      Units.EachFrom
        (fun start value next => List.Forall₂ Leaves
          (((productAndNegation.take next).drop start).filter fun token => isMarked token.kind)
          (reading value)) 0 units := by
  obtain ⟨script, made, keeps⟩ := units_keep_marks (.inl (rfl : english = english))
  obtain ⟨bare, lexer, bareMade, _, made', _⟩ := exists_bare (.inl (rfl : english = english))
  obtain rfl := Except.ok.inj (made.symm.trans made')
  refine ⟨_, made, ?_, keeps _ none⟩
  have read : (ScriptParser.ofLexer english.bareLexer).toOption.any (fun script =>
      (script.units (.ofTokens productAndNegation)).values.map (fun unit => (reading unit.1, unit.2)) =
        productAndNegationMarks) = true := by decide +kernel
  rw [bareMade] at read
  exact of_decide_eq_true read

end Script

end Grammatic
