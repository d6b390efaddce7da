import Grammatic.Proofs.Evaluation.Units
import Grammatic.Proofs.Grammar.Freezing
import Grammatic.Proofs.Lexer.Definition
import Grammatic.Proofs.Lexer.Scanning

/-!
# The mark at the end of a text

A parser puts one mark of the end kind of its grammar behind the tokens of its lexer, unless the last of
them has that kind already. The last of them is the end token of the lexer, whose kind does not depend on
the grammar. So the end is marked once if the grammar leaves the end kind as it is and no other token has
it, and not otherwise (`tokens_endOnce_iff`).

Where the end is marked once, a series of units that comes to its end has read all tokens, and one that
has read all tokens comes to its end.
-/

namespace Grammatic

/-- A buffer holds a list of tokens and, behind them, the one token of its end kind, at a position. -/
structure TokenBuffer.EndsOnce (buffer : TokenBuffer) (tokens : List Token) (kind : TokenKind)
    (position : Int) : Prop where
  endKind : buffer.endKind = kind
  toList : buffer.toList = tokens ++ [.mark kind position]
  before : ∀ token ∈ tokens, token.kind ≠ kind

/-- A buffer whose end is marked once is at its end behind all other tokens only. -/
theorem TokenBuffer.EndsOnce.atEnd_iff {buffer : TokenBuffer} {tokens : List Token} {kind : TokenKind}
    {place : Int} (once : buffer.EndsOnce tokens kind place) (position : Nat) :
    buffer.atEnd position = true ↔ tokens.length ≤ position := by
  have size : buffer.body.size = tokens.length := by
    have := congrArg List.length once.toList
    rw [length_toList, List.length_append, List.length_singleton] at this
    exact Nat.succ.inj this
  constructor
  · intro ended
    by_contra within
    have valid : position < tokens.length := Nat.lt_of_not_le within
    rw [atEnd, decide_eq_true_eq, peek_eq_getD, once.toList, List.getElem?_append_left valid,
      List.getElem?_eq_getElem valid, Option.getD_some, once.endKind] at ended
    exact once.before _ (List.getElem_mem valid) ended
  · intro past
    apply atEnd_of_le
    rwa [size]

/-- Where the end is marked once, units that come to it have read all tokens, and units that have read
all tokens have come to it. -/
theorem TokenBuffer.EndsOnce.done_iff {α ε : Type} {setting : Setting α ε} {tokens : List Token}
    {kind : TokenKind} {place : Int} (once : setting.buffer.EndsOnce tokens kind place) (root : RuleId) :
    (setting.units root 0).stop = .done ↔ (setting.units root 0).behind 0 = tokens.length := by
  obtain ⟨⟨-, before⟩, stops⟩ := setting.stop_units root 0
  have last : setting.buffer.endFrom 0 ≤ tokens.length :=
    endFrom_le (Nat.zero_le _) ((once.atEnd_iff _).mpr (Nat.le_refl _))
  rw [stops, Setting.stopAt_eq_done_iff, once.atEnd_iff]
  omega

/-- What the tokens of a text are made of. -/
theorem Parser.tokens_of_lexer {parser : Parser} {lexer : Lexer} (isLexer : parser.lexer = some lexer)
    (store : Store) {source : Source} (lexed : (lexer.tile source.text).fault = none) :
    parser.tokens store source = .ok (.ofTokens
      (lexer.kept source.text ++ [.mark Token.endOfText source.length]) (some source)
      (parser.endKind store)) := by
  have tokens : lexer.lex source.text lexer.drop.contains true =
      ⟨lexer.kept source.text ++ [.mark Token.endOfText source.length], none⟩ := by
    simp only [Lexer.lex, lexed, Option.isNone_none, Bool.and_self, if_true]
    rfl
  simp only [Parser.tokens, isLexer, tokens]

section Marked

variable {store compiled : Store} {id : GrammarId} {root : Argument} {spec : LexerSpec} {lexer : Lexer}
  {parser : Parser} {grammar : Grammar} {source : Source}

/-- A parser keeps the end kind of its grammar. -/
theorem endKind_of_compiled (isGrammar : store.grammars[id]? = some grammar) {lexer : Option Lexer}
    (run : (Building.compile id root lexer).run store = .ok parser compiled) :
    parser.endKind compiled = grammar.endKind := by
  obtain ⟨grammar', facts⟩ := Building.exists_of_compiled run
  obtain rfl := Option.some.inj (isGrammar.symm.trans facts.isGrammar)
  rw [Parser.endKind, facts.ofGrammar, facts.freezes, Store.getElem?_grammars_freeze_self, isGrammar]
  rfl

theorem tokens_of_compiled (isGrammar : store.grammars[id]? = some grammar)
    (run : (Building.compile id root (some lexer)).run store = .ok parser compiled)
    (lexed : (lexer.tile source.text).fault = none) :
    parser.tokens compiled source = .ok (.ofTokens
      (lexer.kept source.text ++ [.mark Token.endOfText source.length]) (some source)
      grammar.endKind) := by
  obtain ⟨_, facts⟩ := Building.exists_of_compiled run
  rw [Parser.tokens_of_lexer facts.ofLexer compiled lexed, endKind_of_compiled isGrammar run]

/-- Behind the end token of a lexer stands that of the grammar, if its kind is another. -/
theorem toList_ofTokens_marked (tokens : List Token) (source : Source) (endKind : TokenKind) :
    (TokenBuffer.ofTokens (tokens ++ [.mark Token.endOfText source.length]) (some source)
      endKind).toList =
      tokens ++ .mark Token.endOfText source.length ::
        if endKind = Token.endOfText then [] else [.mark endKind source.length] := by
  have last : (tokens ++ [Token.mark Token.endOfText source.length]).getLast? =
      some (.mark Token.endOfText source.length) := by simp
  by_cases same : endKind = Token.endOfText
  · rw [if_pos same, TokenBuffer.toList_ofTokens_of_ended _ last same.symm]
  · rw [if_neg same, TokenBuffer.toList_ofTokens_of_open, List.append_assoc]
    · rfl
    · intro other isLast
      obtain rfl := Option.some.inj (last.symm.trans isLast)
      exact fun kind => same kind.symm

/-- The tokens of a lexer whose pattern has no group of that name do not have the kind of the end
token. -/
theorem kept_ne_endOfText (defined : Lexer.define spec = .ok lexer)
    (unnamed : Token.endOfText ∉ lexer.pattern.labels) (text : String) :
    ∀ token ∈ lexer.kept text, token.kind ≠ Token.endOfText := by
  intro token mem same
  rcases Lexer.kind_cases_of_mem_tile (Lexer.mem_tile_of_mem_kept mem) with invalid | named | keyword
  · exact absurd (same.symm.trans invalid) (by decide)
  · exact unnamed (same ▸ named)
  · exact Lexer.keyword_ne_endOfText defined keyword same

/-- The end of a text is marked once exactly if the grammar leaves the end kind as it is and no token of
the lexer has it; none has it if the pattern of the lexer has no group of that name. Where it is marked
once, units come to the end exactly if they have read all tokens of the lexer. -/
theorem tokens_endOnce_iff (defined : Lexer.define spec = .ok lexer)
    (isGrammar : store.grammars[id]? = some grammar)
    (run : (Building.compile id root (some lexer)).run store = .ok parser compiled)
    (lexed : (lexer.tile source.text).fault = none) :
    ∃ buffer, parser.tokens compiled source = .ok buffer ∧
      (buffer.EndsOnce (lexer.kept source.text) grammar.endKind source.length ↔
        grammar.endKind = Token.endOfText ∧
          ∀ token ∈ lexer.kept source.text, token.kind ≠ Token.endOfText) ∧
      (Token.endOfText ∉ lexer.pattern.labels →
        ∀ token ∈ lexer.kept source.text, token.kind ≠ Token.endOfText) ∧
      (buffer.EndsOnce (lexer.kept source.text) grammar.endKind source.length →
        ∀ {α ε : Type} (setting : Setting α ε), setting.buffer = buffer →
          ((setting.units parser.root 0).stop = .done ↔
            (setting.units parser.root 0).behind 0 = (lexer.kept source.text).length)) := by
  have all := toList_ofTokens_marked (lexer.kept source.text) source grammar.endKind
  refine ⟨_, tokens_of_compiled isGrammar run lexed, ⟨?_, ?_⟩,
    fun unnamed => kept_ne_endOfText defined unnamed _, ?_⟩
  · intro once
    have same : grammar.endKind = Token.endOfText := by
      by_contra other
      rw [if_neg other] at all
      have := congrArg List.length (all.symm.trans once.toList)
      simp at this
    exact ⟨same, fun token mem => same ▸ once.before token mem⟩
  · rintro ⟨same, others⟩
    rw [if_pos same] at all
    rw [same] at all ⊢
    exact ⟨TokenBuffer.endKind_ofTokens _ _ _, all, others⟩
  · intro once α ε setting same
    rw [← same] at once
    exact once.done_iff parser.root

end Marked

/-- A lexer of names and blanks, which drops the blanks. -/
def spacedNames : Lexer where
  flags := {}
  patterns := [
    ⟨"name", "(?P<name>[a-z]+)",
      .group "name" (.repeated true 1 none (.set ⟨false, [.range 'a' 'z']⟩))⟩,
    ⟨"blank", "(?P<blank> +)", .group "blank" (.repeated true 1 none (.set (.single ' ')))⟩]
  pattern := .alt (.group "name" (.repeated true 1 none (.set ⟨false, [.range 'a' 'z']⟩)))
    (.group "blank" (.repeated true 1 none (.set (.single ' '))))
  keywords := []
  keywordKind := "name"
  drop := .ofList ["blank"]

theorem spacedNames_defined :
    Lexer.define { patterns := [("name", "[a-z]+"), ("blank", " +")], drop := ["blank"] } =
      .ok spacedNames :=
  eq_ok_of_toOption (by decide +kernel)

/-- A rule for names, with a grammar that has an end kind. -/
def singleNames (endKind : TokenKind) : Store where
  rules := #[
    { kind := .sequence, children := [1] },
    { kind := .terminal, tag := some "Name", kinds := .ofList ["name"], literal := some .name }]
  tables := #[{}]
  grammars := #[{ words := .fixed .empty, table := 0, endKind,
                  tokenKinds := some (.ofList ["name", endKind]) }]
  closed := by decide

/-- The parser of names for an end kind. -/
def singleNamesParser (endKind : TokenKind) : Parser :=
  ⟨0, 0, some spacedNames, some (.ofList ["name", endKind]), [0, 1]⟩

/-- The end of two names is marked once. -/
theorem singleNames_end_once :
    let compiled := (singleNames Token.endOfText).freeze 0 [0, 1]
    let source : Source := .ofText "names" "a b"
    (Building.compile 0 (.item 0) (some spacedNames)).run (singleNames Token.endOfText) =
        .ok (singleNamesParser Token.endOfText) compiled ∧
      (spacedNames.tile source.text).fault = none ∧
      ∃ buffer, (singleNamesParser Token.endOfText).tokens compiled source = .ok buffer ∧
        buffer.EndsOnce [.ofText "name" "a" 0, .ofText "name" "b" 2] Token.endOfText 3 := by
  intro compiled source
  have run : (Building.compile 0 (.item 0) (some spacedNames)).run (singleNames Token.endOfText) =
      .ok (singleNamesParser Token.endOfText) compiled := by rfl
  have lexed : (spacedNames.tile source.text).fault = none := by decide +kernel
  have kept : spacedNames.kept source.text = [.ofText "name" "a" 0, .ofText "name" "b" 2] := by
    decide +kernel
  have length : (source.length : Int) = 3 := by decide +kernel
  obtain ⟨buffer, made, once, others, -⟩ := tokens_endOnce_iff spacedNames_defined rfl run lexed
  refine ⟨run, lexed, buffer, made, ?_⟩
  rw [kept] at others
  rw [kept, length] at once
  exact once.mpr ⟨rfl, others (by decide)⟩

/-- With another end kind the end of a name is marked twice, and units that have read the name, which is
all that there is, fail at the first mark. -/
theorem singleNames_end_twice :
    let compiled := (singleNames "eof").freeze 0 [0, 1]
    let source : Source := .ofText "names" "a"
    (Building.compile 0 (.item 0) (some spacedNames)).run (singleNames "eof") =
        .ok (singleNamesParser "eof") compiled ∧
      (spacedNames.tile source.text).fault = none ∧
      spacedNames.kept source.text = [.ofText "name" "a" 0] ∧
      ∃ (buffer : TokenBuffer) (setting : Setting Value Unit),
        (singleNamesParser "eof").tokens compiled source = .ok buffer ∧
        buffer.toList = [.ofText "name" "a" 0, .mark Token.endOfText 1, .mark "eof" 1] ∧
        ¬ buffer.EndsOnce (spacedNames.kept source.text) "eof" 1 ∧
        compiled.setting? 0 .nodes buffer = some setting ∧ (setting.units 0 0).behind 0 = 1 ∧
        (setting.units 0 0).stop =
          .error (.ofFailure buffer ⟨1, .mark Token.endOfText 1, .ofList ["name"]⟩) := by
  intro compiled source
  have run : (Building.compile 0 (.item 0) (some spacedNames)).run (singleNames "eof") =
      .ok (singleNamesParser "eof") compiled := by rfl
  have lexed : (spacedNames.tile source.text).fault = none := by decide +kernel
  have kept : spacedNames.kept source.text = [.ofText "name" "a" 0] := by decide +kernel
  have length : (source.length : Int) = 1 := by decide +kernel
  have isGrammar : (singleNames "eof").grammars[0]? = some (singleNames "eof").grammars[0] := rfl
  have made := tokens_of_compiled isGrammar run lexed
  have all := toList_ofTokens_marked (spacedNames.kept source.text) source "eof"
  rw [kept, length] at made all
  refine ⟨run, lexed, kept, _, _, made, all, ?_, rfl, rfl, rfl⟩
  rw [kept]
  intro once
  exact absurd (all.symm.trans once.toList) (by decide)

end Grammatic
