import Mathlib.Data.List.Infix
import Grammatic.Proofs.Evaluation.SideBySide
import Grammatic.Proofs.Script.Completion
import Grammatic.Proofs.Script.LongestMatch

/-!
# Keywords in running text

Chinese keywords stand in a text without spaces around them. Wherever one occurs, it is inside one token: a quoted
text, a comment, or a keyword as a whole (`Spells.whole_of_hit`). Three things are needed for that. A name ends where
a keyword starts; no other pattern of a form of its own takes a character that keywords begin with; and where two
keywords overlap, one of them ends the other (`KeepsWhole.whole`).

So no name contains a keyword. In English the keyword table sees to it that no name is one. In both vocabularies
the words that the grammar reserves have nothing left to refuse: without them every text has the same units
(`keywords_stay_whole`).
-/

namespace Grammatic

/-! ## Evaluation without reserved words -/

namespace Setting

variable {α ε : Type} {store : Store} {grammar grammar' : Grammar} {factory : Factory α ε} {buffer : TokenBuffer}

/-- Two grammars give the same units if their terminals accept the same of the tokens that there are. -/
theorem units_of_accepts
    (accepts : ∀ rule ∈ store.rules, ∀ position,
      Setting.accepts ⟨store, grammar, factory, buffer⟩ rule (buffer.peek position) =
        Setting.accepts ⟨store, grammar', factory, buffer⟩ rule (buffer.peek position))
    (root : RuleId) (position : Nat) :
    units ⟨store, grammar, factory, buffer⟩ root position = units ⟨store, grammar', factory, buffer⟩ root position := by
  have sim : Simulates ⟨store, grammar, factory, buffer⟩ ⟨store, grammar', factory, buffer⟩ (fun _ => True)
      (· = ·) (· = ·) := by
    refine ⟨fun id _ => ?_, .refl factory, .refl buffer⟩
    cases found : store.rules[id]? with
    | none => exact .none
    | some rule =>
      have mem := Array.mem_of_getElem? found
      refine .some ⟨rfl, rfl, rfl, fun _ _ => trivial, rfl, rfl, rfl, ?_⟩
      rintro position _ rfl
      exact .of_accepts fun _ => accepts rule mem position
  exact (sim.units_alike rfl trivial rfl).eq

end Setting

namespace Script

open Pattern Lexer

variable {words : List (List Char)} {table : List (String × Pattern)} {lexer : Lexer}
  {keywords : List (String × TokenKind)} {keyword : String × TokenKind} {label : String}
  {before more behind part text : List Char}

/-! ## Overlaps -/

/-- In a table each occurrence of a keyword is whole: keywords have no characters with which comments and quoted texts
end, nothing but names, comments and quoted texts takes their first characters, and where one overlaps a word of
the table, it ends inside the word, which is a keyword too. -/
structure KeepsWhole (table : List (String × Pattern)) (words : List (List Char))
    (keywords : List (String × TokenKind)) : Prop where
  isWord : ∀ keyword ∈ keywords, keyword.1.toList ∈ words
  kind : ∀ keyword ∈ keywords, keyword.2 ≠ "name"
  nonempty : ∀ keyword ∈ keywords, keyword.1.toList ≠ []
  enclosed : ∀ keyword ∈ keywords, '\n' ∉ keyword.1.toList ∧ '"' ∉ keyword.1.toList
  foreign : ∀ keyword ∈ keywords, ∀ entry ∈ formedEntries, entry = ("comment", commentPattern) ∨
    entry = ("string", quotedPattern) ∨ keyword.1.toList.head?.all (entry.2.avoids {}) = true
  whole : ∀ keyword ∈ keywords, ∀ entry ∈ table, ∀ word ∈ spellings entry.2, ∀ before more, word = before ++ more →
    more ≠ [] → (keyword.1.toList <+: more ∨ more <+: keyword.1.toList) →
    keyword.1.toList <+: more ∧ (String.ofList word, entry.1) ∈ keywords

/-- The last character of a quoted text is the quote that closes it. -/
theorem getLast?_of_closing {escaped : Bool} (closed : closing escaped part = some part.length) :
    part.getLast? = some '"' := by
  induction part generalizing escaped with
  | nil => cases closed
  | cons c part ih =>
    have later {escaped : Bool} (closed : (closing escaped part).map (1 + ·) = some (c :: part).length) :
        (c :: part).getLast? = some '"' := by
      obtain ⟨count, isClosing, length⟩ := Option.map_eq_some_iff.mp closed
      obtain rfl : count = part.length := Nat.add_left_cancel (length.trans (Nat.add_comm _ 1))
      rw [List.getLast?_cons, ih isClosing]
      rfl
    rw [closing] at closed
    split at closed
    next => cases closed
    next =>
      split at closed
      next => exact later closed
      next =>
        split at closed
        next quote =>
          obtain rfl : part = [] := List.length_eq_zero_iff.mp (Nat.succ.inj (Option.some.inj closed)).symm
          rw [quote]
          rfl
        next => exact later closed

theorem getLast?_of_quotedPattern (taken : quotedPattern.first {} (part ++ text) = some part.length) :
    part.getLast? = some '"' := by
  cases part with
  | nil =>
    rw [first_quotedPattern] at taken
    split at taken
    next => simp at taken
    next => cases taken
  | cons c body =>
    rw [first_quotedPattern] at taken
    split at taken
    next =>
      obtain ⟨count, isClosing, length⟩ := Option.map_eq_some_iff.mp taken
      obtain rfl : count = body.length := Nat.add_left_cancel (length.trans (Nat.add_comm _ 1))
      have closed : closing false (body ++ []) = some body.length := closing_append_eq_length isClosing
      rw [List.append_nil] at closed
      rw [List.getLast?_cons, getLast?_of_closing closed]
      rfl
    next => cases taken

/-- No name goes on where a word starts. -/
theorem startsWord_eq_false_of_name (nonempty : more ≠ [])
    (taken : (namePattern words).first {} (before ++ more ++ behind) = some (before ++ more).length) :
    startsWord words (more ++ behind) = false := by
  have free {s : CharSet} (passes : begins words s (more ++ behind) = true) :
      startsWord words (more ++ behind) = false := by
    rw [begins, Bool.and_eq_true, Bool.not_eq_true'] at passes
    exact passes.1
  rw [first_namePattern] at taken
  split at taken
  next here =>
    cases before with
    | nil => exact free here
    | cons c before =>
      have count := Option.some.inj taken
      have less : before.length < runLength (begins words wordChars) (before ++ more ++ behind) := by
        have := List.length_pos_iff.mpr nonempty
        simp only [List.cons_append, List.drop_succ_cons, List.drop_zero, List.length_cons, List.length_append] at count
        omega
      have passes := test_of_lt_runLength less
      rw [List.append_assoc, List.drop_left] at passes
      exact free passes
  next => cases taken

namespace Spells

variable (spells : Spells lexer table words) (keeps : KeepsWhole table words keywords)
include spells keeps

/-- What is hit holds each keyword as a whole that begins inside it, and it is a quoted text, a comment or a keyword
itself. -/
theorem whole_of_hit (isHit : hit {} table (before ++ more ++ behind) = some (label, (before ++ more).length))
    (nonempty : more ≠ []) (listed : keyword ∈ keywords) (occurs : keyword.1.toList <+: more ++ behind) :
    keyword.1.toList <+: more ∧
      (label = "string" ∨ label = "comment" ∨ (String.ofList (before ++ more), label) ∈ keywords) := by
  obtain ⟨entry, mem, rfl, taken⟩ := exists_of_hit isHit
  have overlaps := List.prefix_or_prefix_of_prefix occurs (List.prefix_append more behind)
  obtain ⟨newline, quote⟩ := keeps.enclosed keyword listed
  rcases spells.cases entry mem with isFormed | rfl | verbal
  · rcases keeps.foreign keyword listed entry isFormed with rfl | rfl | avoids
    · -- a comment ends before a newline
      refine ⟨overlaps.elim id fun begins => ?_, .inr (.inl rfl)⟩
      obtain ⟨c, part, isPart⟩ := List.exists_cons_of_ne_nil (List.append_ne_nil_of_right_ne_nil before nonempty)
      rw [isPart] at taken
      obtain ⟨rest, whole⟩ := begins
      rw [← whole] at occurs newline ⊢
      cases rest with
      | nil => simp
      | cons c rest =>
        obtain ⟨others, goesOn⟩ := (List.prefix_append_right_inj more).mp occurs
        rcases ends_of_comment taken with rfl | ends
        · cases goesOn
        · rw [← goesOn] at ends
          obtain rfl := Option.some.inj ends
          simp at newline
    · -- a quoted text ends with a quote
      have last : more.getLast? = some '"' := by
        have last := getLast?_of_quotedPattern taken
        rwa [List.getLast?_append_of_ne_nil _ nonempty] at last
      exact ⟨overlaps.resolve_right fun begins => quote (begins.subset (List.mem_of_getLast? last)), .inl rfl⟩
    · -- the other patterns of a form of their own do not take the first character of a keyword
      have allows := allows_of_first (spells.lists.plain entry mem) taken
      obtain ⟨c, rest, chars⟩ := List.exists_cons_of_ne_nil (keeps.nonempty keyword listed)
      obtain ⟨d, others, rfl⟩ := List.exists_cons_of_ne_nil nonempty
      rw [chars] at occurs avoids
      obtain ⟨rfl, -⟩ := List.cons_prefix_cons.mp occurs
      exact absurd (List.mem_append_right before List.mem_cons_self) (allows.not_mem avoids)
  · have starts : startsWord words (more ++ behind) = true :=
      List.any_eq_true.mpr ⟨_, keeps.isWord keyword listed, List.isPrefixOf_iff_prefix.mpr occurs⟩
    exact absurd starts (Bool.eq_false_iff.mp (startsWord_eq_false_of_name nonempty taken))
  · obtain ⟨word, spelled, isPrefix, length⟩ := exists_of_mem_verbal verbal (mem_of_first taken)
    have isWord : word = before ++ more :=
      (List.prefix_of_prefix_length_le isPrefix (List.prefix_append _ _) (Nat.le_of_eq length)).eq_of_length length
    obtain ⟨whole, known⟩ := keeps.whole keyword listed entry mem word spelled before more isWord nonempty overlaps
    exact ⟨whole, .inr (.inr (isWord ▸ known))⟩

end Spells

/-! ## The Chinese vocabulary -/

/-- Checks the keywords of a vocabulary in which names end where one of some words starts. -/
def Vocabulary.keepsWhole (vocabulary : Vocabulary) (words : List (List Char)) : Bool :=
  vocabulary.keywords.all fun keyword =>
    let w := keyword.1.toList
    words.contains w && decide (keyword.2 ≠ "name" ∧ w ≠ [] ∧ '\n' ∉ w ∧ '"' ∉ w) &&
      formedEntries.all (fun entry => decide (entry = ("comment", commentPattern)) ||
        decide (entry = ("string", quotedPattern)) || w.head?.all (entry.2.avoids {})) &&
      vocabulary.readTable.all fun entry => (spellings entry.2).all fun word => word.tails.all fun more =>
        decide (more ≠ [] → w.isPrefixOf more = true ∨ more.isPrefixOf w = true →
          w.isPrefixOf more = true ∧ vocabulary.keywords.contains (String.ofList word, entry.1) = true)

theorem KeepsWhole.of_check {vocabulary : Vocabulary} (check : vocabulary.keepsWhole words = true) :
    KeepsWhole vocabulary.readTable words vocabulary.keywords := by
  simp only [Vocabulary.keepsWhole, List.all_eq_true, Bool.and_eq_true, Bool.or_eq_true, decide_eq_true_eq,
    List.isPrefixOf_iff_prefix, List.contains_iff_mem] at check
  refine ⟨fun keyword mem => (check keyword mem).1.1.1, fun keyword mem => (check keyword mem).1.1.2.1,
    fun keyword mem => (check keyword mem).1.1.2.2.1, fun keyword mem => (check keyword mem).1.1.2.2.2,
    fun keyword mem entry listed => or_assoc.mp ((check keyword mem).1.2 entry listed), ?_⟩
  rintro keyword mem entry listed word spelled before more rfl nonempty overlaps
  have isTail := (List.mem_tails _ _).mpr (List.suffix_append before more)
  exact (check keyword mem).2 entry listed _ spelled more isTail nonempty overlaps

/-- The keywords that end a name in Chinese. -/
def chineseWords : List (List Char) := (Spelling.longestFirst chineseKeywords).map (·.1.toList)

theorem chinese_keepsWhole : KeepsWhole chinese.readTable chineseWords chineseKeywords :=
  .of_check (by decide +kernel)

section

variable {token : Token} {start next place : Nat}

/-- A keyword that occurs inside a token ends inside it, and the token is a quoted text, a comment or a keyword
itself. -/
theorem Spells.whole_of_covers (spells : Spells lexer table words) (keeps : KeepsWhole table words keywords)
    (keywordKind : lexer.keywordKind = "name") (covers : Covers text start token next)
    (sees : Sees lexer text start next token) (ge : start ≤ place) (lt : place < next)
    (listed : keyword ∈ keywords) (occurs : keyword.1.toList <+: text.drop place) :
    place + keyword.1.toList.length ≤ next ∧
      (token.kind = "string" ∨ token.kind = "comment" ∨ (token.text, token.kind) ∈ keywords) := by
  cases sees with
  | passed kind nowhere =>
    -- where a keyword starts, something matches
    have starts : startsWord words (text.drop place) = true :=
      List.any_eq_true.mpr ⟨_, keeps.isWord keyword listed, List.isPrefixOf_iff_prefix.mpr occurs⟩
    have never := nowhere place ge lt
    rw [spells.lists.matchAt, Cursor.rest_place, Option.map_eq_none_iff, spells.flags] at never
    exact absurd never (spells.hit_of_startsWord starts)
  | @matched found name here stops named kind =>
    rw [spells.lists.matchAt, Cursor.rest_place] at here
    obtain ⟨⟨label, count⟩, isHit, rfl⟩ := Option.map_eq_some_iff.mp here
    obtain rfl := Option.some.inj named
    have stop : start + count = next := by simpa using stops
    have within := covers.le
    -- the text behind the start, in the part before the keyword, the rest of the token, and what stands behind it
    let first := (text.take place).drop start
    let rest := (text.take next).drop place
    have behindPlace : text.drop place = rest ++ text.drop next := drop_eq_append (Nat.le_of_lt lt) within
    have behindStart : text.drop start = first ++ rest ++ text.drop next := by
      rw [List.append_assoc, ← behindPlace]
      exact drop_eq_append ge (by omega)
    have firstLength : first.length = place - start := by
      simp only [first, List.length_drop, List.length_take]
      omega
    have restLength : rest.length = next - place := by
      simp only [rest, List.length_drop, List.length_take]
      omega
    have length : count = (first ++ rest).length := by
      rw [List.length_append]
      omega
    have isText : token.text = String.ofList (first ++ rest) := by
      have same := (drop_eq_append (Nat.le_of_lt covers.lt) within).symm.trans behindStart
      rw [covers.isText, List.append_cancel_right same]
    have nonempty : rest ≠ [] := List.ne_nil_of_length_pos (by omega)
    rw [spells.flags, behindStart, length] at isHit
    rw [behindPlace] at occurs
    obtain ⟨isPrefix, sort⟩ := spells.whole_of_hit keeps isHit nonempty listed occurs
    have other : label ≠ lexer.keywordKind := by
      rw [keywordKind]
      rcases sort with rfl | rfl | isKeyword
      · decide
      · decide
      · exact keeps.kind _ isKeyword
    rw [kind, isText, kindOf, if_neg other]
    have := isPrefix.length_le
    exact ⟨by omega, sort⟩

end

/-! ## Without reserved words -/

namespace ScriptParser

/-- A script parser whose grammar reserves no words. -/
def withoutWords (script : ScriptParser) : ScriptParser :=
  { script with grammar := { script.grammar with words := .fixed .empty } }

/-- Whether a rule that asks for the reserved words of the grammar takes names only. -/
def reservesNames (script : ScriptParser) : Bool :=
  script.store.rules.all fun rule =>
    rule.reserved = .none || rule.reserved = .ofGrammar && rule.kinds.toList = ["name"]

variable {script : ScriptParser} {vocabulary : Vocabulary} {source : Source}

/-- A word of the keyword table is no name. -/
theorem lookup_eq_none_of_name (lexes : LexesScripts lexer vocabulary) (kinds : "name" ∉ vocabulary.keywords.map (·.2))
    {token : Token} {text : String} (mem : token ∈ (lexer.tile text).tokens) (isName : token.kind = "name") :
    vocabulary.keywords.lookup token.text = none := by
  have same : lexer.keywords = vocabulary.keywords := lexes.keywords
  obtain ⟨place, next, stepped⟩ := exists_step_of_mem_scan mem
  rcases exists_of_step stepped with invalid | ⟨found, label, -, -, kind, -⟩
  · exact absurd (invalid.symm.trans isName) (by decide)
  · rw [isName, kindOf, lexes.keywordKind, same] at kind
    split at kind
    next isName =>
      cases found : vocabulary.keywords.lookup token.text with
      | none => rfl
      | some keyword =>
        rw [found] at kind
        obtain ⟨before, after, split, -⟩ := List.lookup_eq_some_iff.mp found
        obtain rfl : "name" = keyword := kind
        exact absurd (by simp [split]) kinds
    next other => exact absurd kind.symm other

/-- Where no name is a reserved word, the reserved words refuse nothing. -/
theorem units_withoutWords {buffer : TokenBuffer} (reserves : script.reservesNames = true)
    (names : ∀ position, (buffer.peek position).kind = "name" →
      script.store.hasWord script.grammar.words (buffer.peek position).text = false) :
    script.withoutWords.units buffer = script.units buffer := by
  refine Setting.units_of_accepts (fun rule mem position => ?_) _ _
  have form := Array.all_eq_true'.mp reserves rule mem
  simp only [Bool.or_eq_true, Bool.and_eq_true, decide_eq_true_eq] at form
  rcases form with none | ⟨ofGrammar, kinds⟩
  · simp only [Setting.accepts, Setting.reserves, none]
  · simp only [Setting.accepts, Setting.reserves, ofGrammar]
    by_cases isName : (buffer.peek position).kind = "name"
    · have free : script.withoutWords.store.hasWord script.grammar.words (buffer.peek position).text = false :=
        names position isName
      rw [free]
      rfl
    · have other : rule.kinds.contains (buffer.peek position).kind = false := by
        simpa [StringSet.contains, kinds] using isName
      rw [other, Bool.false_and, Bool.false_and]

/-- In both vocabularies, a rule that asks for the reserved words takes names only. -/
theorem reservesNames_of_known (known : vocabulary = english ∨ vocabulary = chinese) {bare : ScriptParser}
    (bareMade : ofLexer vocabulary.bareLexer = .ok bare) : bare.reservesNames = true :=
  of_known_check _ known (by decide +kernel) (by decide +kernel) bareMade

/-- In both vocabularies every text has the same tokens and the same units without the reserved words. -/
theorem units_withoutWords_of_known (known : vocabulary = english ∨ vocabulary = chinese) :
    ∃ script, ofVocabulary vocabulary = .ok script ∧ ∀ source, ∃ buffer, script.tokens source = .ok buffer ∧
      script.withoutWords.tokens source = .ok buffer ∧ script.withoutWords.units buffer = script.units buffer := by
  obtain ⟨bare, lexer, made, lexes, made', conforms⟩ := exists_bare known
  have reserves := reservesNames_of_known known made
  have kinds : "name" ∉ vocabulary.keywords.map (·.2) := by
    rcases known with rfl | rfl
    · decide
    · decide
  refine ⟨_, made', fun source => ?_⟩
  have tokens := tokens_of_lexes (conforms.withLexer lexer) rfl lexes source
  refine ⟨_, tokens, tokens, units_withoutWords reserves fun position isName => ?_⟩
  have mem := TokenBuffer.peek_mem_toList (.ofTokens
    (lexer.kept source.text ++ [.mark Token.endOfText source.length]) (some source)) position
  rw [toList_ofTokens_marked, if_pos rfl, List.mem_append, List.mem_singleton] at mem
  rcases mem with mem | isEnd
  · have unknown := lookup_eq_none_of_name lexes kinds (mem_tile_of_mem_kept mem) isName
    refine (conforms.realization.reserved _).trans (Bool.eq_false_iff.mpr fun listed => ?_)
    obtain ⟨keyword, mem, same⟩ := List.mem_map.mp (List.contains_iff_mem.mp listed)
    exact bne_iff_ne.mp (List.lookup_eq_none_iff.mp unknown keyword mem) same.symm
  · rw [isEnd] at isName
    have same : Token.endOfText = "name" := isName
    exact absurd same (by decide)

end ScriptParser

/-- In Chinese each keyword that occurs in a text is inside one token, which is a quoted text, a comment, or a keyword
with its kind, so no name contains one. And neither in Chinese nor in English do the words that are reserved make a
difference to what a text is parsed to. -/
theorem keywords_stay_whole :
    (∃ lexer, chinese.lexer = .ok lexer ∧ ∀ text : String,
      let tokens := (lexer.lex text fun _ => false).tokens
      (∀ keyword ∈ chineseKeywords, ∀ place, keyword.1.toList <+: text.toList.drop place →
        ∃ token ∈ tokens, token.start ≤ place ∧ place + keyword.1.length ≤ token.stop ∧
          (token.kind = "string" ∨ token.kind = "comment" ∨ (token.text, token.kind) ∈ chineseKeywords)) ∧
      ∀ token ∈ tokens, token.kind = "name" → ∀ keyword ∈ chineseKeywords,
        ¬ keyword.1.toList <:+: token.text.toList) ∧
    ∀ vocabulary, vocabulary = english ∨ vocabulary = chinese →
      ∃ script, ScriptParser.ofVocabulary vocabulary = .ok script ∧ ∀ source, ∃ buffer,
        script.tokens source = .ok buffer ∧ script.withoutWords.tokens source = .ok buffer ∧
        script.withoutWords.units buffer = script.units buffer := by
  refine ⟨?_, fun vocabulary known => ScriptParser.units_withoutWords_of_known known⟩
  obtain ⟨lexer, defined, lexes⟩ := exists_lexer (lexes_of_known (.inr rfl))
  have spells : Spells lexer chinese.readTable chineseWords := .of_check (by decide +kernel) defined lexes.flags
  have keeps := chinese_keepsWhole
  refine ⟨lexer, defined, fun text => ?_⟩
  intro tokens
  have splits := splits_lex lexer text fun _ => false
  have faultless := (spells.lists.parts_of_splits splits (Nat.zero_le _)).1
  constructor
  · intro keyword listed place occurs
    have nonempty := List.length_pos_iff.mpr (keeps.nonempty keyword listed)
    have within := occurs.length_le
    rw [List.length_drop] at within
    obtain ⟨token, mem, start, next, covers, sees, ge, lt⟩ :=
      splits.exists_sees_at faultless (Nat.zero_le place) (by omega)
    obtain ⟨ends, sort⟩ := spells.whole_of_covers keeps lexes.keywordKind covers sees ge lt listed occurs
    refine ⟨token, mem, ?_, ?_, sort⟩
    · rw [covers.starts]
      exact Int.ofNat_le.mpr ge
    · rw [covers.stops]
      exact Int.ofNat_le.mpr ends
  · rintro token mem isName keyword listed ⟨before, behind, isInfix⟩
    obtain ⟨start, next, covers, sees⟩ := splits.exists_sees mem
    have nonempty := List.length_pos_iff.mpr (keeps.nonempty keyword listed)
    rw [covers.isText, String.toList_ofList] at isInfix
    have length := congrArg List.length isInfix
    simp only [List.length_append, List.length_drop, List.length_take] at length
    have occurs : keyword.1.toList <+: text.toList.drop (start + before.length) := by
      rw [← List.drop_drop, drop_eq_append (Nat.le_of_lt covers.lt) covers.le, ← isInfix, List.append_assoc,
        List.append_assoc, List.drop_left]
      exact List.prefix_append _ _
    obtain ⟨-, sort⟩ := spells.whole_of_covers keeps lexes.keywordKind covers sees (Nat.le_add_right _ _) (by omega)
      listed occurs
    rw [isName] at sort
    rcases sort with same | same | isKeyword
    · exact absurd same (by decide)
    · exact absurd same (by decide)
    · exact keeps.kind _ isKeyword rfl

/-- The first two characters and the last two of a loop's keyword are not split off, though the last two are a keyword
by themselves. -/
theorem countedLoop_stays_whole :
    ∃ lexer, chinese.lexer = .ok lexer ∧ ∃ token ∈ (lexer.lex "计次循环真" fun _ => false).tokens,
      token.start ≤ 2 ∧ 4 ≤ token.stop ∧ (token.kind = "string" ∨ token.kind = "comment" ∨
        (token.text, token.kind) ∈ chineseKeywords) := by
  obtain ⟨⟨lexer, defined, whole⟩, -⟩ := keywords_stay_whole
  obtain ⟨occurs, -⟩ := whole "计次循环真"
  obtain ⟨token, mem, ge, le, sort⟩ := occurs ("循环", "kw_while") (by decide) 2 (by decide)
  exact ⟨lexer, defined, token, mem, ge, le, sort⟩

end Script

end Grammatic
