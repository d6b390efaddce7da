import Grammatic.Proofs.Language.Series
import Grammatic.Proofs.Script.Setup

/-!
# Script parsers accept the syntax of scripts

A script parser comes to the end of a list of tokens without an error just when the tokens before the
first end token are program units of the grammar, one behind the other (`units_done_iff`). Nothing else
can happen: the units always end at the end of the text or in an error.

A list of tokens may be program units in several ways, since an expression may stop before a dash or go
on with it. The parser reads as much as it can, so units are merged wherever one of them starts with a
dash behind an expression. What is left is a series in which one token ahead finds each unit
(`exists_series`).
-/

namespace Grammatic.Script

open Grammatic.Language (Derives Before Series ahead)

variable {vocabulary : Vocabulary}

/-! ## Units and the token behind them -/

/-- The forms of program units that are no expressions. -/
def otherUnits : List (Form Nonterminal) :=
  [Syntax.ifStatement, Syntax.whileStatement, Syntax.forStatement, Syntax.breakStatement,
    Syntax.importStatement, Syntax.separator]

/-- Units that are no expressions go on with nothing but an alternative, and do not start with a dash. -/
theorem otherUnits_kinds : ∀ form ∈ otherUnits,
    (∀ kind ∈ form.carries Syntax.lead Syntax.tail, kind = "kw_else") ∧
      "dash" ∉ form.first Syntax.lead := by
  decide +kernel

/-- A program unit is an expression, or a unit of another form; it is found as a program unit where it
is found as what it is. -/
theorem unit_cases {text : List Token}
    (derives : Derives (grammar vocabulary) (.symbol .program) text) :
    ∃ part, (part = .symbol .expression ∨ part ∈ otherUnits) ∧
      Derives (grammar vocabulary) part text ∧ part.clear Syntax.lead Syntax.tail = true ∧
        ∀ behind, Before (grammar vocabulary) Syntax.lead behind part text →
          Before (grammar vocabulary) Syntax.lead behind (.symbol .program) text := by
  have clear := clear_grammar vocabulary
  have some : text ≠ [] := by
    intro none
    exact nomatch derives.nullable clear.solid none
  cases derives with
  | symbol derives =>
    obtain ⟨part, mem, derives, clearPart, found⟩ :=
      clear.exists_alternative derives (clear.clear .program) some
    simp only [List.mem_cons, List.not_mem_nil, or_false] at mem
    rcases mem with rfl | rfl
    · cases derives with
      | symbol derives =>
        obtain ⟨part, mem, derives, clearPart, found'⟩ :=
          clear.exists_alternative derives (clear.clear .statement) some
        have foundProgram (behind) (before : Before (grammar vocabulary) Syntax.lead behind part text) :
            Before (grammar vocabulary) Syntax.lead behind (.symbol .program) text :=
          .symbol (found behind (.symbol (found' behind before)))
        have kinds : part = Syntax.simple ∨ part ∈ otherUnits := by
          simp only [List.mem_cons, List.not_mem_nil, or_false] at mem
          rcases mem with rfl | rfl | rfl | rfl | rfl <;> simp [otherUnits]
        rcases kinds with rfl | other
        · obtain ⟨part, mem, derives, clearPart, found''⟩ :=
            clear.exists_alternative derives clearPart some
          have known : part = .symbol .expression ∨ part ∈ otherUnits := by
            simp only [List.mem_cons, List.not_mem_nil, or_false] at mem
            rcases mem with rfl | rfl <;> simp [otherUnits]
          refine ⟨part, known, derives, clearPart, ?_⟩
          intro behind before
          exact foundProgram behind (found'' behind before)
        · exact ⟨part, .inr other, derives, clearPart, foundProgram⟩
    · refine ⟨Syntax.separator, .inr (by simp [otherUnits]), derives, clearPart, ?_⟩
      intro behind before
      exact .symbol (found behind before)

theorem program_of_expression {text : List Token}
    (derives : Derives (grammar vocabulary) (.symbol .expression) text) :
    Derives (grammar vocabulary) (.symbol .program) text :=
  .symbol (.left (.symbol (.right (.right (.right (.right (.left derives)))))))

/-! ## Merging at a dash -/

/-- What follows the dash of a negative factor is a factor. -/
theorem factor_of_dash {token : Token} {rest : List Token} (dash : token.kind = "dash")
    (derives : Derives (grammar vocabulary) Syntax.factor (token :: rest)) :
    Derives (grammar vocabulary) Syntax.factor rest := by
  have clear := clear_grammar vocabulary
  have positive {form : Form Nonterminal} (other : "dash" ∉ form.first Syntax.lead)
      (derives : Derives (grammar vocabulary) form (token :: rest)) : False :=
    other (dash ▸ derives.first clear.solid clear.leads rfl)
  generalize text : token :: rest = whole at derives
  cases derives with
  | left negative =>
    cases negative with
    | sequence first primary =>
      cases first
      obtain ⟨-, rfl⟩ := List.cons.inj text
      exact .right (.right primary)
  | right derives =>
    subst text
    cases derives with
    | left derives => exact (positive (by decide +kernel) derives).elim
    | right derives => exact (positive (by decide +kernel) derives).elim

/-- What follows the dash that an expression starts with is an expression. -/
theorem chain_of_dash {token : Token} {rest : List Token} (dash : token.kind = "dash")
    (derives : Derives (grammar vocabulary) Syntax.expression (token :: rest)) :
    Derives (grammar vocabulary) Syntax.expression rest := by
  have clear := clear_grammar vocabulary
  generalize text : token :: rest = whole at derives
  cases derives with
  | operand derives =>
    subst text
    exact .operand (factor_of_dash dash derives)
  | @operation _ _ first _ _ derives mem more =>
    cases first with
    | nil =>
      have nullable := derives.nullable clear.solid rfl
      exact absurd nullable (by decide +kernel)
    | cons other first =>
      obtain ⟨rfl, rfl⟩ := List.cons.inj text
      exact .operation (factor_of_dash dash derives) mem more

/-- An expression goes on with another one that starts with a dash. -/
theorem expression_append {text rest : List Token} {token : Token} (dash : token.kind = "dash")
    (first : Derives (grammar vocabulary) (.symbol .expression) text)
    (second : Derives (grammar vocabulary) (.symbol .expression) (token :: rest)) :
    Derives (grammar vocabulary) (.symbol .expression) (text ++ token :: rest) := by
  cases first with
  | symbol first =>
    cases second with
    | symbol second =>
      have mem : token.kind ∈ operators.map (·.1) := by
        rw [dash]
        decide +kernel
      exact .symbol (Language.Derives.chain_append first mem (chain_of_dash dash second))

/-- An expression and a program unit that starts with a dash are one program unit. -/
theorem program_of_dash {text next more : List Token}
    (first : Derives (grammar vocabulary) (.symbol .expression) text)
    (second : Derives (grammar vocabulary) (.symbol .program) next)
    (dash : ahead (next ++ more) Token.endOfText = "dash") :
    Derives (grammar vocabulary) (.symbol .program) (text ++ next) := by
  have clear := clear_grammar vocabulary
  cases next with
  | nil => exact nomatch second.nullable clear.solid rfl
  | cons token rest =>
    obtain ⟨part, known, derives, _, _⟩ := unit_cases second
    rcases known with rfl | other
    · exact program_of_expression (expression_append dash first derives)
    · have starts := derives.first clear.solid clear.leads rfl
      change token.kind = "dash" at dash
      rw [dash] at starts
      exact absurd starts (otherUnits_kinds part other).2

/-- What a program unit can start with and an expression can go on with is a dash. -/
theorem eq_dash_of_mem : ∀ kind ∈ operators.map (·.1),
    kind = Token.endOfText ∨ kind ∈ Syntax.lead .program → kind = "dash" := by
  decide +kernel

/-- Program units can be read as a series in which one token ahead finds each of them. -/
theorem exists_series {texts : List (List Token)}
    (all : ∀ text ∈ texts, Derives (grammar vocabulary) (.symbol .program) text) :
    ∃ series, Series (grammar vocabulary) Syntax.lead Token.endOfText (.symbol .program) series ∧
      series.flatten = texts.flatten ∧ series.length ≤ texts.length := by
  have clear := clear_grammar vocabulary
  induction count : texts.length using Nat.strongRecOn generalizing texts with
  | ind length ih =>
    cases texts with
    | nil => exact ⟨[], .nil, rfl, Nat.zero_le _⟩
    | cons text rest =>
      rw [List.length_cons] at count
      have derives := all text List.mem_cons_self
      obtain ⟨series, following, same, shorter⟩ := ih rest.length (by omega)
        (fun other mem => all other (List.mem_cons_of_mem _ mem)) rfl
      have extend (before : Before (grammar vocabulary) Syntax.lead
            (ahead series.flatten Token.endOfText) (.symbol .program) text) :
          ∃ series, Series (grammar vocabulary) Syntax.lead Token.endOfText (.symbol .program) series ∧
            series.flatten = (text :: rest).flatten ∧ series.length ≤ length := by
        refine ⟨text :: series, .cons before following, ?_, ?_⟩
        · rw [List.flatten_cons, List.flatten_cons, same]
        · rw [List.length_cons]
          omega
      have behind := following.ahead_flatten clear.solid clear.leads rfl
      obtain ⟨part, known, derivesPart, clearPart, found⟩ := unit_cases derives
      by_cases carried : ahead series.flatten Token.endOfText ∈ part.carries Syntax.lead Syntax.tail
      · rcases known with rfl | other
        · -- an expression, and a unit that starts with a dash: they are one unit
          have dash := eq_dash_of_mem _ carried behind
          cases following with
          | nil => exact absurd dash (by decide +kernel)
          | @cons next series before following =>
            rw [List.flatten_cons] at dash same
            rw [List.length_cons] at shorter
            have merged := program_of_dash derivesPart before.derives dash
            obtain ⟨series', following', same', shorter'⟩ := ih (series.length + 1) (by omega)
              (List.forall_mem_cons.mpr ⟨merged, following.derives⟩) List.length_cons
            refine ⟨series', following', ?_, by omega⟩
            rw [same', List.flatten_cons, List.flatten_cons, List.append_assoc, same]
        · have alternative := (otherUnits_kinds part other).1 _ carried
          rw [alternative] at behind
          exact absurd behind (by decide +kernel)
      · exact extend (found _ (clear.before derivesPart clearPart carried))

/-! ## Acceptance -/

/-- For both vocabularies and every list of tokens whose numbers can be read, the units of a script
parser end at the end of the text or in an error, and they end at the end of the text just when the
tokens before the first end token are program units of the grammar, one behind the other. -/
theorem units_done_iff (known : vocabulary = english ∨ vocabulary = chinese) :
    ∃ script, ScriptParser.ofVocabulary vocabulary = .ok script ∧
      ∀ (tokens : List Token) (source? : Option Source),
        (∀ token ∈ tokens, token.kind = "number" → ∃ value, Literal.number.value token = .ok value) →
        let stop := (script.units (.ofTokens tokens source?)).stop
        (stop = .done ∨ ∃ error, stop = .error error) ∧
          (stop = .done ↔ ∃ texts : List (List Token),
            (∀ text ∈ texts, Derives (grammar vocabulary) (.symbol .program) text) ∧
              tokens.takeWhile (fun token => token.kind ≠ Token.endOfText) = texts.flatten) := by
  obtain ⟨script, made, conforms⟩ := exists_conforming known
  refine ⟨script, made, fun tokens source? numbers => ?_⟩
  let buffer := TokenBuffer.ofTokens tokens source?
  have clear := clear_grammar vocabulary
  have endKind : buffer.endKind = Token.endOfText := TokenBuffer.endKind_ofTokens _ _ _
  have text : (buffer.toList.takeWhile fun token => token.kind ≠ buffer.endKind) =
      tokens.takeWhile fun token => token.kind ≠ Token.endOfText := by
    rw [endKind]
    exact TokenBuffer.takeWhile_ofTokens tokens source? _
  have numbers' (position) (isNumber : (buffer.peek position).kind = "number") :
      ∃ value, Literal.number.value (buffer.peek position) = .ok value := by
    rcases TokenBuffer.mem_or_kind_eq_of_mem_ofTokens (buffer.peek_mem_toList position) with mem | ended
    · exact numbers _ mem isNumber
    · rw [isNumber] at ended
      exact absurd ended (by decide)
  have reader := conforms.reader endKind numbers'
  have realizes : (script.setting buffer).store.Realizes (script.setting buffer).buffer.endKind
      script.entries.rule (.symbol .program) (.rule script.parser.root) := by
    rw [conforms.root]
    exact .symbol .refl
  have inside (stop : Nat) (le : stop ≤ max 0 buffer.body.size) : stop - 0 < buffer.size + 1 := by
    unfold TokenBuffer.size
    omega
  refine ⟨?_, ?_, ?_⟩
  · exact reader.stop_cases (reader.realization.lt_size realizes)
      (inside _ (buffer.endFrom_le_size 0))
  · intro done
    obtain ⟨texts, stop, all, spans, ended⟩ := reader.derives_of_done realizes done
    exact ⟨texts, all, text.symm.trans (TokenBuffer.spans_text_iff.mp ⟨stop, spans, ended⟩).symm⟩
  · rintro ⟨texts, all, same⟩
    obtain ⟨series, found, flatten, -⟩ := exists_series all
    rw [← text, ← flatten] at same
    obtain ⟨stop, spans, ended⟩ := TokenBuffer.spans_text_iff.mpr same.symm
    rw [← endKind] at found
    exact reader.done_of_series clear.solid clear.leads realizes rfl found spans ended
      (inside stop spans.stop_le)

/-- A name and a negated name are two program units. The parser reads them as one, and accepts them. -/
theorem negated_name_accepted :
    ∃ script, ScriptParser.ofVocabulary english = .ok script ∧
      (script.units (.ofTokens [.ofText "name" "a" 0, .ofText "dash" "-" 1,
        .ofText "name" "b" 2])).stop = .done := by
  obtain ⟨script, made, accepts⟩ := units_done_iff (.inl (rfl : english = english))
  have name (word : String) (start : Int) (free : (grammar english).reserved word = false) :
      Derives (grammar english) Syntax.primary [.ofText "name" word start] :=
    .right (.right (.left (.unreserved List.mem_cons_self free)))
  have dash : Derives (grammar english) (Syntax.delimiter "dash") [.ofText "dash" "-" 1] :=
    .token List.mem_cons_self
  have first : Derives (grammar english) (.symbol .program) [.ofText "name" "a" 0] :=
    program_of_expression (.symbol (.operand (.right (.right (name "a" 0 (by decide +kernel))))))
  have negative := dash.sequence (name "b" 2 (by decide +kernel))
  have second : Derives (grammar english) (.symbol .program)
      [.ofText "dash" "-" 1, .ofText "name" "b" 2] :=
    program_of_expression (.symbol (.operand (.left negative)))
  refine ⟨script, made, ?_⟩
  refine (accepts [.ofText "name" "a" 0, .ofText "dash" "-" 1, .ofText "name" "b" 2] none ?_).2.mpr
    ⟨[[.ofText "name" "a" 0], [.ofText "dash" "-" 1, .ofText "name" "b" 2]], ?_, by decide +kernel⟩
  · intro token mem isNumber
    have kinds : ∀ token ∈ [Token.ofText "name" "a" 0, .ofText "dash" "-" 1, .ofText "name" "b" 2],
        token.kind ≠ "number" := by decide +kernel
    exact absurd isNumber (kinds token mem)
  · intro text mem
    rcases List.mem_cons.mp mem with rfl | mem
    · exact first
    · rw [List.mem_singleton.mp mem]
      exact second

end Grammatic.Script
