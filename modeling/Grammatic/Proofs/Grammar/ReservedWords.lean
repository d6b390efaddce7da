import Grammatic.Proofs.Evaluation.Steps
import Grammatic.Proofs.Grammar.Compilation

/-!
# What compilation makes of reserved words

Before a compilation a text stands for all the words that occur in it; from then on it stands for its
characters. Sets have the same members before and after. So compilation changes what rules match exactly
where a text that is reserved for a terminal meets a token of which one is true and the other is not
(`compilation_keeps_rules_iff`).
-/

namespace Grammatic

/-- The words that a rule must not be, in a grammar. -/
def Grammar.wordsOf? (grammar : Grammar) (rule : Rule) : Option Words :=
  match rule.reserved with
  | .none => none
  | .ofGrammar => some grammar.words
  | .words words => some words

namespace Store

/-- The words that a rule must not be, in a grammar of the store. -/
def wordsOf? (store : Store) (id : GrammarId) (rule : Rule) : Option Words :=
  store.grammars[id]?.bind (·.wordsOf? rule)

/-- A word is in a collection that has been fixed exactly if it was in it before, but for a text. -/
theorem contains_wordSet_iff (store : Store) (words : Words) (word : String) :
    (store.wordSet words).contains word = store.hasWord words word ↔
      ∀ text, words = .within text →
        (Text.occurs word text = true ↔ ∃ c ∈ text.toList, word = c.toString) := by
  cases words with
  | shared id =>
    cases found : store.wordSets[id]? with
    | none => simp [wordSet, hasWord, found, StringSet.contains, StringSet.empty]
    | some set => simp [wordSet, hasWord, found]
  | fixed set => simp [wordSet, hasWord]
  | within text =>
    have members : (StringSet.ofCharacters text).contains word = true ↔
        ∃ c ∈ text.toList, word = c.toString := by
      simp [StringSet.ofCharacters, @eq_comm String word]
    simp only [wordSet, hasWord, Words.within.injEq, forall_eq']
    rw [Bool.eq_iff_iff, members]
    exact Iff.comm

end Store

namespace Setting

theorem reserves_eq {α ε : Type} (setting : Setting α ε) (rule : Rule) (word : String) :
    setting.reserves rule.reserved word =
      (setting.grammar.wordsOf? rule).any (setting.store.hasWord · word) := by
  unfold reserves Grammar.wordsOf?
  cases rule.reserved <;> rfl

end Setting

/-! ## Before and after a compilation -/

section Compiled

variable {α ε : Type} {store : Store} {id : GrammarId} {rules : List RuleId} {grammar : Grammar}
  {factory : Factory α ε} {buffer : TokenBuffer}

theorem wordsOf?_sealRule (store : Store) (grammar : Grammar) (rule : Rule) :
    (store.sealGrammar grammar).wordsOf? (store.sealRule rule) =
      (grammar.wordsOf? rule).map store.fixWords := by
  unfold Grammar.wordsOf? Store.sealRule
  cases rule.reserved <;> rfl

/-- A rule accepts a token after a compilation as before, unless the token has one of its kinds, and it
is told from the reserved words in one of the two ways only. -/
theorem accepts_sealRule_iff (rule : Rule) (token : Token) :
    Setting.accepts ⟨store.freeze id rules, store.sealGrammar grammar, factory, buffer⟩
        (store.sealRule rule) token =
      Setting.accepts ⟨store, grammar, factory, buffer⟩ rule token ↔
    ∀ text, grammar.wordsOf? rule = some (.within text) → token.kind ∈ rule.kinds →
      (Text.occurs token.text text = true ↔ ∃ c ∈ text.toList, token.text = c.toString) := by
  simp only [Setting.accepts, Setting.reserves_eq, wordsOf?_sealRule, Option.any_map]
  have kinds : (store.sealRule rule).kinds = rule.kinds := rfl
  rw [kinds]
  by_cases has : token.kind ∈ rule.kinds
  · rw [StringSet.contains_iff.mpr has, Bool.true_and, Bool.true_and, Bool.not_inj_iff]
    cases grammar.wordsOf? rule with
    | none => simp
    | some words =>
      have agree := store.contains_wordSet_iff words token.text
      simp only [Option.any_some, Option.some.injEq, has, true_imp_iff]
      exact agree
  · have lacks : rule.kinds.contains token.kind = false := by
      rw [Bool.eq_false_iff, ne_eq, StringSet.contains_iff]
      exact has
    simp [lacks, has]

end Compiled

section Kept

variable {α ε : Type} {store compiled : Store} {id : GrammarId} {root : Argument}
  {lexer : Option Lexer} {parser : Parser}

/-- Compilation leaves what rules match as it is, if terminals accept the tokens there are as before. -/
theorem simulates_of_compiled
    (run : (Building.compile id root lexer).run store = .ok parser compiled) {grammar : Grammar}
    (factory : Factory α ε) (buffer : TokenBuffer)
    (accepts : ∀ i ∈ parser.rules, ∀ rule, store.rules[i]? = some rule → rule.kind = .terminal →
      ∀ position,
        Setting.accepts ⟨compiled, store.sealGrammar grammar, factory, buffer⟩ (store.sealRule rule)
            (buffer.peek position) =
          Setting.accepts ⟨store, grammar, factory, buffer⟩ rule (buffer.peek position)) :
    Setting.Simulates ⟨store, grammar, factory, buffer⟩
      ⟨compiled, store.sealGrammar grammar, factory, buffer⟩ (· ∈ parser.rules) (· = ·) (· = ·) where
  rules i mem := by
    obtain ⟨_, facts⟩ := Building.exists_of_compiled run
    obtain rfl := facts.freezes
    obtain ⟨rule, found⟩ := exists_rule_of_compiled run mem
    simp only [Store.getElem?_rules_freeze_of_mem mem, found, Option.map_some]
    refine .some ⟨rfl, rfl, rfl, ?_, rfl, rfl, ?_, ?_⟩
    · intro child isChild
      exact child_mem_of_compiled run mem found isChild
    · exact (Store.entries_tableOf?_freeze rule).symm
    · rintro position _ rfl
      exact .of_accepts fun kind => (accepts i mem rule found kind position).symm
  factories := .refl factory
  buffers := .refl buffer

/-- Over the tokens of a buffer, every rule of a parser gives after the compilation what it gave before,
exactly if each text that is reserved for a terminal tells the tokens of its kinds by the words that
occur in it as by its characters. -/
theorem compilation_keeps_rules_iff
    (run : (Building.compile id root lexer).run store = .ok parser compiled) (factory : Factory α ε)
    (buffer : TokenBuffer) :
    parser.root ∈ parser.rules ∧
      ((∀ i ∈ parser.rules, ∀ start outcome,
          compiled.Gives id factory buffer i start outcome ↔
            store.Gives id factory buffer i start outcome) ↔
        ∀ i ∈ parser.rules, ∀ rule text, store.rules[i]? = some rule → rule.kind = .terminal →
          store.wordsOf? id rule = some (.within text) →
          ∀ token ∈ buffer.toList, token.kind ∈ rule.kinds →
            (Text.occurs token.text text = true ↔ ∃ c ∈ text.toList, token.text = c.toString)) := by
  refine ⟨root_mem_of_compiled run, ?_⟩
  obtain ⟨grammar, facts⟩ := Building.exists_of_compiled run
  have isGrammar := facts.isGrammar
  have isGrammar' : compiled.grammars[id]? = some (store.sealGrammar grammar) := by
    rw [facts.freezes, Store.getElem?_grammars_freeze_self, isGrammar, Option.map_some]
  have words (rule : Rule) : store.wordsOf? id rule = grammar.wordsOf? rule := by
    rw [Store.wordsOf?, isGrammar, Option.bind_some]
  simp only [Store.gives_iff_of_getElem? isGrammar, Store.gives_iff_of_getElem? isGrammar', words]
  constructor
  · intro kept i mem rule text found kind own token isToken has
    obtain ⟨position, rfl⟩ := TokenBuffer.exists_peek_of_mem_toList isToken
    have found' : compiled.rules[i]? = some (store.sealRule rule) := by
      rw [facts.freezes, Store.getElem?_rules_freeze_of_mem mem, found, Option.map_some]
    have fails : Setting.Fails ⟨compiled, store.sealGrammar grammar, factory, buffer⟩ i position ↔
        Setting.Fails ⟨store, grammar, factory, buffer⟩ i position := by
      unfold Setting.Fails
      simp only [kept i mem]
    have kind' : (store.sealRule rule).kind = .terminal := kind
    rw [Setting.fails_terminal_iff found' kind', Setting.fails_terminal_iff found kind] at fails
    have accepted : Setting.accepts ⟨compiled, store.sealGrammar grammar, factory, buffer⟩
          (store.sealRule rule) (buffer.peek position) =
        Setting.accepts ⟨store, grammar, factory, buffer⟩ rule (buffer.peek position) := by
      rwa [← Bool.not_inj_iff, Bool.eq_iff_iff, Bool.not_eq_true', Bool.not_eq_true']
    rw [facts.freezes] at accepted
    exact (accepts_sealRule_iff rule _).mp accepted text own has
  · intro agree i mem start outcome
    refine (simulates_of_compiled run factory buffer ?_).gives_iff mem start outcome
    intro i mem rule found kind position
    rw [facts.freezes]
    refine (accepts_sealRule_iff rule _).mpr ?_
    intro text own has
    exact agree i mem rule text found kind own _ (buffer.peek_mem_toList position) has

end Kept

/-- A name that does not occur in the text `if`. -/
def textGuardedName : Store where
  rules := #[
    { kind := .sequence, children := [1] },
    { kind := .terminal, tag := some "name", kinds := .ofList ["name"], literal := some .name,
      reserved := .words (.within "if") }]
  tables := #[{}]
  grammars := #[{ words := .within "", table := 0 }]
  closed := by decide

/-- The name `x` matches before the compilation, so it does after it. -/
theorem textGuardedName_keeps_rules :
    let parser : Parser := { grammar := 0, root := 0, lexer := none, tokenKinds := none, rules := [0, 1] }
    let compiled := textGuardedName.freeze 0 [0, 1]
    let buffer : TokenBuffer := .ofTokens [.ofText "name" "x" 0]
    let outcome : Outcome Value Unit := .matched (.node (some "name") [.text "x"]) 1
    (Building.compile 0 (.item 0) none).run textGuardedName = .ok parser compiled ∧
      textGuardedName.Gives 0 .nodes buffer 0 0 outcome ∧
      compiled.Gives 0 .nodes buffer 0 0 outcome := by
  intro parser compiled buffer outcome
  have run : (Building.compile 0 (.item 0) none).run textGuardedName = .ok parser compiled := by rfl
  have given : textGuardedName.Gives 0 .nodes buffer 0 0 outcome :=
    ⟨_, rfl, by simp, 3, by cbv⟩
  refine ⟨run, given, ?_⟩
  obtain ⟨isRule, kept⟩ := compilation_keeps_rules_iff (ε := Unit) run .nodes buffer
  refine (kept.mpr ?_ 0 isRule 0 outcome).mpr given
  intro i mem rule text found kind own token isToken has
  rcases List.mem_cons.mp mem with rfl | mem
  · cases found
    cases kind
  · obtain rfl := List.mem_singleton.mp mem
    cases found
    cases own
    rcases List.mem_cons.mp isToken with rfl | isLast
    · have unlike : ¬ ∃ c ∈ "if".toList, "x" = c.toString := by simp
      exact iff_of_false (by decide) unlike
    · obtain rfl := List.mem_singleton.mp isLast
      exact absurd (StringSet.contains_iff.mpr has) (by decide)

/-- The name `if` is refused before the compilation, and matches after it. -/
theorem textGuardedName_changed :
    let parser : Parser := { grammar := 0, root := 0, lexer := none, tokenKinds := none, rules := [0, 1] }
    let compiled := textGuardedName.freeze 0 [0, 1]
    let token : Token := .ofText "name" "if" 0
    let buffer : TokenBuffer := .ofTokens [token]
    let refused : Outcome Value Unit := .failed ⟨0, token, .ofList ["name"]⟩ 0
    let matched : Outcome Value Unit := .matched (.node (some "name") [.text "if"]) 1
    (Building.compile 0 (.item 0) none).run textGuardedName = .ok parser compiled ∧
      textGuardedName.Gives 0 .nodes buffer parser.root 0 refused ∧
      compiled.Gives 0 .nodes buffer parser.root 0 matched ∧
      ¬ compiled.Gives 0 .nodes buffer parser.root 0 refused := by
  intro parser compiled token buffer refused matched
  have run : (Building.compile 0 (.item 0) none).run textGuardedName = .ok parser compiled := by rfl
  have failed : Setting.evaluateWithin ⟨textGuardedName, { words := .within "", table := 0 }, .nodes,
      .ofTokens [.ofText "name" "if" 0]⟩ 3 0 0 = refused := by
    unfold refused token
    cbv
  have given : textGuardedName.Gives 0 .nodes buffer 0 0 refused := ⟨_, rfl, by simp [refused], 3, failed⟩
  have given' : compiled.Gives 0 .nodes buffer 0 0 matched := ⟨_, rfl, by simp, 3, by cbv⟩
  refine ⟨run, given, given', ?_⟩
  rintro ⟨setting, isSetting, other⟩
  obtain ⟨setting', isSetting', gives⟩ := given'
  obtain rfl := Option.some.inj (isSetting.symm.trans isSetting')
  exact absurd (gives.unique other) (by simp [matched, refused])

end Grammatic
