import Grammatic.Proofs.Evaluation.Failures
import Grammatic.Proofs.Script.Setup

/-!
# Where errors in scripts are reported

Every unit of a script consumes a token, so that a series of units never stops because it goes no further.
The error that a series does stop with is reported at the first token of the unit that fails, however far
the parser had read into it (`units_report`). For the last thing that a program unit can be is a separator,
and that fails at once.
-/

namespace Grammatic.Script

namespace ScriptParser

variable {script : ScriptParser} {vocabulary : Vocabulary} {buffer : TokenBuffer}

/-- The kinds that separate statements. -/
def separators : List TokenKind := ["semi", "newline"]

/-- Whether the last thing that a script parser tries for a unit is a separator. -/
def triesSeparator (script : ScriptParser) : Bool :=
  (script.store.lastAttempt? script.store.rules.size script.parser.root).any fun attempt =>
    separators.all attempt.kinds.contains

/-- A unit consumes a token. -/
theorem Conforms.forward (conforms : script.Conforms vocabulary)
    (endKind : buffer.endKind = Token.endOfText) {start next : Nat} {value : Value}
    (gives : (script.setting buffer).Gives script.parser.root start (.matched value next)) :
    start < next := by
  obtain ⟨-, budget, evaluated⟩ := gives
  have took : Setting.Took ((script.setting buffer).evaluateWithin budget)
      (script.entries.rule .program) start next := by
    rw [conforms.root] at evaluated
    exact ⟨value, evaluated⟩
  have realization : (script.setting buffer).store.Realization (script.setting buffer).grammar
      (script.setting buffer).buffer.endKind (Script.grammar vocabulary) script.entries.rule := by
    rw [setting_buffer, endKind]
    exact conforms.realization
  obtain ⟨text, derives, spans⟩ := Setting.derives_of_took realization .program took
  have nonempty : text ≠ [] := by
    intro none
    exact nomatch derives.nullable (clear_grammar vocabulary).solid none
  have length := List.length_pos_iff.mpr nonempty
  rw [spans.stop_eq]
  omega

/-- A unit that fails does so at its first token, and expects a separator among others. -/
theorem failure_at_start (tries : script.triesSeparator = true) {start next : Nat}
    {failure : Failure}
    (gives : (script.setting buffer).Gives script.parser.root start (.failed failure next)) :
    failure.position = start ∧ failure.token = buffer.peek start ∧
      ∀ kind ∈ separators, kind ∈ failure.expected := by
  obtain ⟨attempt, attempted, separates⟩ := (Option.any_eq_true _ _).mp tries
  obtain ⟨position, token, expected⟩ := gives.lastAttempt attempted
  refine ⟨position, token, fun kind mem => expected kind ?_⟩
  exact StringSet.contains_iff.mp (List.all_eq_true.mp separates kind mem)

end ScriptParser

/-- For both vocabularies and every list of tokens, the units of a script parser lie one behind the other
from the start on, and each consumes a token. They never stop for lack of progress. If they stop with an
error, it carries the failure of the unit behind the last of them: at the first token of that unit, with
both separators among the kinds expected. The tokens are left there. -/
theorem units_report {vocabulary : Vocabulary}
    (known : vocabulary = english ∨ vocabulary = chinese) :
    ∃ script, ScriptParser.ofVocabulary vocabulary = .ok script ∧
      ∀ (tokens : List Token) (source? : Option Source),
        let buffer := TokenBuffer.ofTokens tokens source?
        let units := script.units buffer
        Units.EachFrom (fun start _ next => start < next) 0 units.values ∧
          (∀ position, units.stop ≠ .error (.noProgress buffer position)) ∧
          ∀ error, units.stop = .error error → ∃ failure,
            error = .ofFailure buffer failure ∧ error.failure? = some failure ∧
            failure.position = units.behind 0 ∧ failure.token = buffer.peek (units.behind 0) ∧
            "semi" ∈ failure.expected ∧ "newline" ∈ failure.expected ∧
            units.position = units.behind 0 := by
  obtain ⟨bare, lexer, bareMade, _, made, conforms⟩ := exists_bare known
  have tries : bare.triesSeparator = true :=
    ScriptParser.of_known_check _ known (by decide +kernel) (by decide +kernel) bareMade
  refine ⟨_, made, fun tokens source? => ?_⟩
  intro buffer units
  have endKind : buffer.endKind = Token.endOfText := TokenBuffer.endKind_ofTokens _ _ _
  obtain ⟨goes, reports⟩ := (Setting.course_units (bare.setting buffer) bare.parser.root 0).reports
    (conforms.forward endKind)
  refine ⟨goes, ?_, ?_⟩
  · intro position stop
    obtain ⟨_, failure, _, same, _⟩ := reports _ stop
    exact nomatch congrArg ParseError.failure? same
  · intro error stop
    obtain ⟨stays, failure, _, rfl, gives⟩ := reports error stop
    obtain ⟨position, token, expected⟩ := ScriptParser.failure_at_start tries gives
    exact ⟨failure, rfl, rfl, position, token, expected _ (by decide), expected _ (by decide), stays⟩

/-- An assignment, a newline, and another assignment with an operand that is missing. -/
def missingOperand : List Token := [
  .ofText "name" "a" 0, .ofText "eq" "=" 2, .ofText "number" "1" 4, .ofText "newline" "\n" 5,
  .ofText "name" "b" 6, .ofText "eq" "=" 8, .ofText "paren_o" "(" 10, .ofText "number" "1" 11,
  .ofText "plus" "+" 13, .ofText "semi" ";" 15, .ofText "newline" "\n" 16]

/-- The error is reported at the start of the second assignment, which is the fourth token, and not at the
semicolon. -/
theorem missingOperand_report :
    ∃ script, ScriptParser.ofVocabulary english = .ok script ∧
      let buffer := TokenBuffer.ofTokens missingOperand
      let units := script.units buffer
      units.behind 0 = 4 ∧ ∃ error failure, units.stop = .error error ∧
        error.failure? = some failure ∧ failure.position = 4 ∧
        failure.token = .ofText "name" "b" 6 ∧ "semi" ∈ failure.expected := by
  obtain ⟨script, made, reports⟩ := units_report (.inl (rfl : english = english))
  obtain ⟨bare, lexer, bareMade, rfl⟩ := exists_bare_of_made (.inl rfl) made
  let fails (units : Units Value BuildError) : Bool :=
    units.behind 0 = 4 && match units.stop with
      | .error _ => true
      | .done | .fault _ | .exhausted => false
  have stops : fails (bare.units (.ofTokens missingOperand)) = true :=
    ScriptParser.of_made_check (fun script => fails (script.units (.ofTokens missingOperand)))
      (by decide +kernel) bareMade
  obtain ⟨behind, stopped⟩ := Bool.and_eq_true_iff.mp stops
  have behind : (bare.units (.ofTokens missingOperand)).behind 0 = 4 := of_decide_eq_true behind
  obtain ⟨-, -, report⟩ := reports missingOperand none
  refine ⟨_, made, behind, ?_⟩
  cases stop : (bare.units (.ofTokens missingOperand)).stop with
  | error error =>
    obtain ⟨failure, -, carries, position, token, semi, -, -⟩ := report error stop
    rw [ScriptParser.units_withLexer, behind] at position token
    exact ⟨error, failure, stop, carries, position, token, semi⟩
  | done | fault _ | exhausted =>
    rw [stop] at stopped
    exact nomatch stopped

end Grammatic.Script
