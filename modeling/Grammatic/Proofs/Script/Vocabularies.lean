import Grammatic.Proofs.Evaluation.SideBySide
import Grammatic.Proofs.Language.Series
import Grammatic.Proofs.Script.Keywords
import Grammatic.Proofs.Script.Orders

/-!
# Two vocabularies, one language

Of the texts of tokens, scripts read those of names, numbers, strings and operators. Other texts and all
positions make no difference to the trees, within one vocabulary or between the two
(`vocabularies_give_one_language`).

The rules that are compiled for the vocabularies are the same. They differ in the words that names must not
be, so tokens are read alike on both sides if names are reserved on both or on none. A terminal that reads
its token, or refuses reserved words, takes tokens with texts that are read; so do the operator tables
(`legible`, `reservesNames`).
-/

namespace Grammatic.Script

/-- The kinds of the tokens whose texts are read. -/
def readKinds : List TokenKind := ["name", "number", "string"] ++ operators.map (·.1)

/-- Tokens of one kind, with one text if it is read. -/
structure ReadAlike (token token' : Token) : Prop where
  kind : token.kind = token'.kind
  text : token.kind ∈ readKinds → token.text = token'.text

instance (token token' : Token) : Decidable (ReadAlike token token') :=
  decidable_of_iff (token.kind = token'.kind ∧ (token.kind ∈ readKinds → token.text = token'.text))
    ⟨fun both => ⟨both.1, both.2⟩, fun alike => ⟨alike.kind, alike.text⟩⟩

/-- Tokens that two vocabularies read alike: a name is reserved in both or in none. -/
structure TreatedAlike (vocabulary vocabulary' : Vocabulary) (token token' : Token) : Prop
    extends ReadAlike token token' where
  reserved : token.kind = "name" →
    (grammar vocabulary).reserved token.text = (grammar vocabulary').reserved token'.text

variable {vocabulary vocabulary' : Vocabulary} {token token' : Token}

/-- In one vocabulary, texts that are read are reserved or not. -/
theorem ReadAlike.treated (alike : ReadAlike token token') (vocabulary : Vocabulary) :
    TreatedAlike vocabulary vocabulary token token' where
  toReadAlike := alike
  reserved isName := by rw [alike.text (by rw [isName]; decide)]

/-- Names that are keywords in neither vocabulary are treated alike. -/
theorem ReadAlike.treated_of_free (alike : ReadAlike token token')
    (free : token.kind = "name" → token.text ∉ vocabulary.keywords.map (·.1))
    (free' : token'.kind = "name" → token'.text ∉ vocabulary'.keywords.map (·.1)) :
    TreatedAlike vocabulary vocabulary' token token' where
  toReadAlike := alike
  reserved isName := by
    have unlisted := free isName
    have unlisted' := free' (alike.kind ▸ isName)
    rw [← List.contains_iff_mem, Bool.not_eq_true] at unlisted unlisted'
    exact unlisted.trans unlisted'.symm

/-- The kind of a literal says which value its text has, if it matters at all. -/
theorem ReadAlike.value_eq (alike : ReadAlike token token') {kind : NodeKind} {literal : Literal}
    (mem : (token.kind, kind, literal) ∈ literalKinds) : literal.value token = literal.value token' := by
  cases literal with
  | null => rfl
  | truth trueKind => simp only [Literal.value, alike.kind]
  | number | name | string =>
    have isRead : token.kind ∈ readKinds := by
      simp only [literalKinds, List.mem_cons, Prod.mk.injEq, reduceCtorEq, and_false, or_false, false_or,
        List.not_mem_nil, and_true] at mem
      rw [mem.1]
      decide
    simp only [Literal.value, alike.text isRead]

/-- End tokens are treated alike wherever they stand. -/
theorem treated_mark (position position' : Int) :
    TreatedAlike vocabulary vocabulary' (.mark Token.endOfText position)
      (.mark Token.endOfText position') where
  kind := rfl
  text _ := rfl
  reserved isName := by
    have same : Token.endOfText = "name" := isName
    exact absurd same (by decide)

namespace ScriptParser

variable {script script' : ScriptParser} {buffer buffer' : TokenBuffer}

/-- Whether two script parsers have the same rules, operators and root. -/
def sameRules (script script' : ScriptParser) : Bool :=
  script.store.rules = script'.store.rules && script.store.tables = script'.store.tables &&
    script.parser.root = script'.parser.root

theorem sameRules_refl (script : ScriptParser) : script.sameRules script = true := by
  simp only [sameRules, decide_true, Bool.and_self]

/-- What is compiled for the two vocabularies has the same rules. -/
theorem sameRules_of_made (made : ofLexer english.bareLexer = .ok script)
    (made' : ofLexer chinese.bareLexer = .ok script') : script.sameRules script' = true := by
  have checked : ((ofLexer english.bareLexer).toOption.any fun script =>
      (ofLexer chinese.bareLexer).toOption.any script.sameRules) = true := by decide +kernel
  have checked := of_made_check (fun script => (ofLexer chinese.bareLexer).toOption.any script.sameRules)
    checked made
  exact of_made_check script.sameRules checked made'

/-- Rules of script parsers do not tell apart tokens that the vocabularies treat alike. -/
theorem tokenAlike_of_treated (conforms : script.Conforms vocabulary)
    (conforms' : script'.Conforms vocabulary') (reserves : script.reservesNames = true) {rule : Rule}
    (mem : rule ∈ script.store.rules) (alike : TreatedAlike vocabulary vocabulary' token token') :
    Setting.TokenAlike (script.setting buffer) (script'.setting buffer') rule rule token token' where
  kind := alike.kind
  accepts _ := by
    rw [Setting.accepts, Setting.accepts, ← alike.kind]
    have form := Array.all_eq_true'.mp reserves rule mem
    simp only [Bool.or_eq_true, Bool.and_eq_true, decide_eq_true_eq] at form
    rcases form with none | ⟨ofGrammar, kinds⟩
    · simp only [Setting.reserves, none]
    · by_cases isName : token.kind = "name"
      · have same : script.store.hasWord script.grammar.words token.text =
            script'.store.hasWord script'.grammar.words token'.text := by
          rw [conforms.realization.reserved, conforms'.realization.reserved]
          exact alike.reserved isName
        simp only [Setting.reserves, ofGrammar, setting, same]
      · have other : rule.kinds.contains token.kind = false := by
          simpa [StringSet.contains, kinds] using isName
        rw [other, Bool.false_and, Bool.false_and]
  value terminal accepted literal isLiteral := by
    rw [Setting.accepts, Bool.and_eq_true] at accepted
    have legible := conforms.legible rule mem
    simp only [Script.legible, terminal, isLiteral, List.all_eq_true, Bool.and_eq_true] at legible
    obtain ⟨-, reads⟩ := legible _ (StringSet.contains_iff.mp accepted.1)
    obtain ⟨kind, -, reads⟩ := (Option.any_eq_true _ _).mp reads
    exact alike.value_eq (of_decide_eq_true (Bool.and_eq_true_iff.mp reads).2)
  text expression table isTable operator found := by
    have legible := conforms.legible rule mem
    have isTable : script.store.tableOf? rule = some table := isTable
    simp only [Script.legible, expression, isTable, Bool.and_eq_true, Option.all_some,
      List.all_eq_true, List.contains_iff_mem] at legible
    obtain ⟨-, known⟩ := legible
    obtain ⟨-, isOperator⟩ := known _ (Store.find?_iff_mem_kinds.mp ⟨operator, found⟩)
    exact alike.text (List.mem_append_right _ isOperator)

section

variable (conforms : script.Conforms vocabulary) (conforms' : script'.Conforms vocabulary')
  (reserves : script.reservesNames = true) (same : script.sameRules script' = true)
  {tokens tokens' : List Token} (alike : List.Forall₂ (TreatedAlike vocabulary vocabulary') tokens tokens')
  (source? source?' : Option Source)

include conforms conforms' reserves same alike

theorem simulates_of_treated :
    (script.setting (.ofTokens tokens source?)).Simulates (script'.setting (.ofTokens tokens' source?'))
      (fun _ => True) (· = ·) (· = ·) (TreatedAlike vocabulary vocabulary') where
  rules id _ := by
    simp only [sameRules, Bool.and_eq_true, decide_eq_true_eq] at same
    obtain ⟨⟨rules, tables⟩, -⟩ := same
    simp only [setting, ← rules]
    cases found : script.store.rules[id]? with
    | none => exact .none
    | some rule =>
      have mem := Array.mem_of_getElem? found
      refine .some ⟨rfl, rfl, rfl, fun _ _ => trivial, rfl, rfl, ?_, fun position token' shown => ?_⟩
      · simp only [Store.tableOf?, tables]
      · exact tokenAlike_of_treated conforms conforms' reserves mem shown
  factories := .refl _
  buffers := TokenBuffer.parallel_ofTokens (·.kind) treated_mark alike source? source?'

/-- Tokens that are treated alike have the same units, which stop alike. -/
theorem units_of_treated :
    (script.units (.ofTokens tokens source?)).Alike (· = ·) (TreatedAlike vocabulary vocabulary') (· = ·)
      (.ofTokens tokens source?) (.ofTokens tokens' source?')
      (script'.units (.ofTokens tokens' source?')) := by
  have sim := simulates_of_treated conforms conforms' reserves same alike source? source?'
  have sizes : (TokenBuffer.ofTokens tokens source?).size = (TokenBuffer.ofTokens tokens' source?').size :=
    TokenBuffer.size_ofTokens_eq (·.kind) treated_mark alike source? source?'
  simp only [sameRules, Bool.and_eq_true, decide_eq_true_eq] at same
  obtain ⟨⟨rules, -⟩, root⟩ := same
  have budgets : (script.setting (.ofTokens tokens source?)).budget =
      (script'.setting (.ofTokens tokens' source?')).budget := by
    simp only [Setting.budget, setting, rules, sizes]
  rw [units, units, ← root]
  exact sim.units_alike budgets trivial rfl

end

/-- Where number tokens can be read, units stop at the end of the tokens or with a failure. -/
theorem Conforms.done_or_failed (conforms : script.Conforms vocabulary)
    (endKind : buffer.endKind = Token.endOfText)
    (numbers : ∀ position, (buffer.peek position).kind = "number" →
      ∃ value, Literal.number.value (buffer.peek position) = .ok value) :
    (script.units buffer).stop = .done ∨
      ∃ failure, (script.units buffer).stop = .error (.ofFailure buffer failure) := by
  obtain ⟨-, reports⟩ := (Setting.course_units (script.setting buffer) script.parser.root 0).reports
    (conforms.forward endKind)
  rcases (conforms.reader endKind numbers).stop_cases conforms.root_lt_size
    (Setting.enough_rounds buffer 0) with done | ⟨error, stop⟩
  · exact .inl done
  · obtain ⟨-, failure, -, rfl, -⟩ := reports error stop
    exact .inr ⟨failure, stop⟩

end ScriptParser

/-- The English and the Chinese script parser yield the same units of tokens of equal kinds, with equal texts
of names, numbers, strings and operators, if the numbers can be read and no name is a keyword of its own
vocabulary. Both come to the end of the tokens, or both fail behind the last of these units, at the same
token and for want of the same kinds. And what else there is of tokens, other texts and all positions, makes
no difference to the trees of either parser, nor to how it stops. -/
theorem vocabularies_give_one_language :
    ∃ script script', ScriptParser.ofVocabulary english = .ok script ∧
      ScriptParser.ofVocabulary chinese = .ok script' ∧
      ∀ (tokens tokens' : List Token) (source? source?' : Option Source),
        List.Forall₂ ReadAlike tokens tokens' →
        let buffer := TokenBuffer.ofTokens tokens source?
        let buffer' := TokenBuffer.ofTokens tokens' source?'
        ((∀ token ∈ tokens, token.kind = "number" → ∃ value, Literal.number.value token = .ok value) →
          (∀ token ∈ tokens, token.kind = "name" → token.text ∉ english.keywords.map (·.1)) →
          (∀ token ∈ tokens', token.kind = "name" → token.text ∉ chinese.keywords.map (·.1)) →
          let units := script.units buffer
          let units' := script'.units buffer'
          units'.values = units.values ∧ units'.position = units.position ∧
            ((units.stop = .done ∧ units'.stop = .done) ∨ ∃ failure failure',
              units.stop = .error (.ofFailure buffer failure) ∧
                units'.stop = .error (.ofFailure buffer' failure') ∧
                failure'.position = failure.position ∧ failure'.expected = failure.expected)) ∧
        ∀ each, each = script ∨ each = script' →
          let units := each.units buffer
          let units' := each.units buffer'
          units'.values = units.values ∧ units'.position = units.position ∧
            units.stop.Alike ReadAlike (· = ·) buffer buffer' units'.stop := by
  obtain ⟨bare, lexer, bareMade, _, made, conforms⟩ := exists_bare (.inl (rfl : english = english))
  obtain ⟨bare', lexer', bareMade', _, made', conforms'⟩ := exists_bare (.inr (rfl : chinese = chinese))
  have reserves := ScriptParser.reservesNames_of_known (.inl rfl) bareMade
  have reserves' := ScriptParser.reservesNames_of_known (.inr rfl) bareMade'
  refine ⟨_, _, made, made', fun tokens tokens' source? source?' alike => ?_⟩
  intro buffer buffer'
  refine ⟨fun numbers free free' => ?_, fun each isOne => ?_⟩
  · have treated : List.Forall₂ (TreatedAlike english chinese) tokens tokens' := by
      refine List.forall₂_iff_zip.mpr ⟨alike.length_eq, fun mem => ?_⟩
      obtain ⟨inOne, inOther⟩ := List.of_mem_zip mem
      exact (List.forall₂_zip alike mem).treated_of_free (free _ inOne) (free' _ inOther)
    have same := ScriptParser.units_of_treated conforms conforms' reserves
      (ScriptParser.sameRules_of_made bareMade bareMade') treated source? source?'
    refine ⟨same.values_eq, same.position.symm, ?_⟩
    have stops := same.stop
    rcases conforms.done_or_failed (TokenBuffer.endKind_ofTokens tokens source? _)
      (numbers_of_ofTokens numbers) with done | ⟨failure, failed⟩
    · rw [done] at stops
      exact .inl ⟨done, stops.eq_done⟩
    · rw [failed] at stops
      obtain ⟨failure', failed', failures⟩ := stops.exists_failed
      exact .inr ⟨failure, failure', failed, failed', failures.position.symm, failures.expected.symm⟩
  · have treated (vocabulary : Vocabulary) :
        List.Forall₂ (TreatedAlike vocabulary vocabulary) tokens tokens' :=
      alike.imp fun _ _ alike => alike.treated vocabulary
    rcases isOne with rfl | rfl
    · have same := ScriptParser.units_of_treated conforms conforms reserves
        (ScriptParser.sameRules_refl bare) (treated english) source? source?'
      exact ⟨same.values_eq, same.position.symm, same.stop.imp (·.toReadAlike)⟩
    · have same := ScriptParser.units_of_treated conforms' conforms' reserves'
        (ScriptParser.sameRules_refl bare') (treated chinese) source? source?'
      exact ⟨same.values_eq, same.position.symm, same.stop.imp (·.toReadAlike)⟩

/-- In English, a conditional with an assignment in its block, a semicolon, and an `else` of its own. -/
def englishConditional : List Token := [
  .ofText "kw_if" "if" 0, .ofText "paren_o" "(" 3, .ofText "name" "a" 4, .ofText "paren_c" ")" 5,
  .ofText "brace_o" "\x7b" 7, .ofText "name" "b" 9, .ofText "eq" "=" 11, .ofText "true" "true" 13,
  .ofText "brace_c" "\x7d" 18, .ofText "semi" ";" 19, .ofText "kw_else" "else" 21]

/-- The same in Chinese, without spaces. -/
def chineseConditional : List Token := [
  .ofText "kw_if" "如果" 0, .ofText "paren_o" "(" 2, .ofText "name" "a" 3, .ofText "paren_c" ")" 4,
  .ofText "brace_o" "\x7b" 5, .ofText "name" "b" 6, .ofText "eq" "=" 7, .ofText "true" "真" 8,
  .ofText "brace_c" "\x7d" 9, .ofText "semi" ";" 10, .ofText "kw_else" "那么" 11]

/-- Read by the parser of its own vocabulary, each has the conditional and the empty statement, and fails
behind them. -/
theorem conditionals_agree :
    ∃ script script', ScriptParser.ofVocabulary english = .ok script ∧
      ScriptParser.ofVocabulary chinese = .ok script' ∧
      let buffer := TokenBuffer.ofTokens englishConditional
      let buffer' := TokenBuffer.ofTokens chineseConditional
      let units := script.units buffer
      let units' := script'.units buffer'
      units.values.map (fun unit => (unit.1.shown, unit.2)) =
          [("IfStmnt([Name(['a']), BlockStmnt([BinaryExpr([Name(['b']), '=', BoolLiteral([True])])])])", 9),
            ("NullStmt([])", 10)] ∧
        units'.values = units.values ∧ units'.position = units.position ∧ ∃ failure failure',
          units.stop = .error (.ofFailure buffer failure) ∧
            units'.stop = .error (.ofFailure buffer' failure') ∧
            failure'.position = failure.position ∧ failure'.expected = failure.expected := by
  obtain ⟨script, script', made, made', agree⟩ := vocabularies_give_one_language
  obtain ⟨bare, lexer, bareMade, rfl⟩ := exists_bare_of_made (.inl rfl) made
  let reads (units : Units Value BuildError) : Bool :=
    units.values.map (fun unit => (unit.1.shown, unit.2)) =
        [("IfStmnt([Name(['a']), BlockStmnt([BinaryExpr([Name(['b']), '=', BoolLiteral([True])])])])", 9),
          ("NullStmt([])", 10)] &&
      match units.stop with
        | .error _ => true
        | .done | .fault _ | .exhausted => false
  have checked : reads (bare.units (.ofTokens englishConditional)) = true :=
    ScriptParser.of_made_check (fun script => reads (script.units (.ofTokens englishConditional)))
      (by decide +kernel) bareMade
  simp only [reads, Bool.and_eq_true, decide_eq_true_eq] at checked
  obtain ⟨values, stops⟩ := checked
  have alike : List.Forall₂ ReadAlike englishConditional chineseConditional := by decide +kernel
  have kinds : ∀ token ∈ englishConditional, token.kind ≠ "number" := by decide +kernel
  have free : ∀ token ∈ englishConditional, token.kind = "name" →
      token.text ∉ english.keywords.map (·.1) := by decide +kernel
  have free' : ∀ token ∈ chineseConditional, token.kind = "name" →
      token.text ∉ chinese.keywords.map (·.1) := by decide +kernel
  obtain ⟨between, -⟩ := agree _ _ none none alike
  obtain ⟨sameValues, samePosition, stop⟩ := between
    (fun token mem isNumber => absurd isNumber (kinds token mem)) free free'
  refine ⟨_, script', made, made', values, sameValues, samePosition, ?_⟩
  rcases stop with ⟨done, -⟩ | failed
  · rw [ScriptParser.units_withLexer] at done
    rw [done] at stops
    cases stops
  · exact failed

end Grammatic.Script
