import Grammatic.Proofs.Lexer.Unmatched
import Grammatic.Proofs.Script.Completion
import Grammatic.Proofs.Script.Errors
import Grammatic.Proofs.Script.Table
import Grammatic.Proofs.Source.Diagnostics

/-!
# Errors in scripts can be shown

A token of a script stays in the line that it starts in: a newline can only be its last character, and it is a newline
token then (`KeepsLine`). For a match this is read off the table, of which all patterns but one avoid newlines
(`Spells.avoids_newline`). For unmatched text the table tells it too, but the other way round: a newline is always
hit, so text with a newline in it is not unmatched (`Spells.keepsLine_of_sees`).

An error is reported at the token where the last unit starts, and this is a token of the lexer, not the end mark
(`ScriptParser.exists_failure`). So the stretch of an error is not empty, it ends in the line where it starts, and
nothing of it is cut when it is shown in its source (`ParseError.exists_picture`).
-/

namespace Grammatic

open Source (Picture Records lineOf lineIndex)

/-! ## Errors with their stretch in one line -/

theorem TokenBuffer.source?_ofTokens (tokens : List Token) (source? : Option Source) (endKind : TokenKind) :
    (ofTokens tokens source? endKind).source? = source? := by
  unfold ofTokens
  split
  · split <;> rfl
  · rfl

namespace ParseError

variable {error : ParseError} {source : Source} {start stop : Nat}

/-- A single stretch has the diagnostic of the stretch. -/
theorem diagnostic_of_single {after : Source} {shown : String} (isSource : error.source? = some source)
    (isShown : Source.diagnosticAt error.span.start error.span.stop ("parse error: " ++ error.message) source =
      .ok shown after) : error.diagnostic = .ok shown := by
  have single : (Source.diagnostic [some (error.span, "parse error: " ++ error.message)]).run source =
      .ok shown after := by
    show (Source.diagnostic [some (error.span, "parse error: " ++ error.message)]) source = _
    simp only [Source.diagnostic, List.filterMap_cons, List.filterMap_nil, id_eq, List.foldlM_cons, List.foldlM_nil,
      bind_pure]
    show EStateM.bind _ _ source = _
    simp only [EStateM.bind, isShown]
    rw [String.empty_append]
    rfl
  simp only [diagnostic, isSource, single]

/-- A stretch that ends in the line where it starts is shown as a whole: the columns are those of its two ends. -/
theorem exists_picture {after : Source} {index : Nat} (isSource : error.source? = some source)
    (isSpan : error.span = ⟨start, stop⟩) (lt : start < stop) (within : stop ≤ source.lineEnd start)
    (le : start ≤ source.length) (told : lineIndex start source = .ok index after) :
    ∃ picture : Picture, error.diagnostic = .ok picture.rendered ∧
      picture.head = (if source.name = "" then "" else source.name ++ ":") ++ toString (index + 1) ++ ":" ++
        toString ((start : Int) - source.lineStart start + 1) ++ "-" ++
        toString ((stop : Int) - source.lineStart start + 1) ++ ": parse error: " ++ error.message := by
  have ordered : (start : Int) ≤ stop := Int.ofNat_le.mpr (Nat.le_of_lt lt)
  refine ⟨_, diagnostic_of_single isSource (by rw [isSpan]; exact Source.diagnosticAt_eq_ok le ordered told), ?_⟩
  have uncut : min (stop : Int) (source.lineEnd start) = stop := by omega
  have first : ("parse error: " ++ error.message).toList.head? = some 'p' := by
    rw [String.toList_append]
    rfl
  have gap : ¬ ("parse error: " ++ error.message = "" ∨
      ("parse error: " ++ error.message).toList.head? = some '\n') := by
    rintro (none | newline)
    · rw [none] at first
      cases first
    · rw [first] at newline
      exact absurd newline (by decide)
  have head := (Source.shows_pictureOf le ordered ("parse error: " ++ error.message) index).head
  simp only [uncut, if_pos (Int.ofNat_lt.mpr lt), if_neg gap] at head
  rw [head]
  simp only [String.append_assoc]
  rfl

end ParseError

namespace Script

open Lexer Pattern

variable {lexer : Lexer} {table : List (String × Pattern)} {words : List (List Char)} {text part : List Char}
  {token : Token} {start next : Nat} {label : String} {entry : String × Pattern}

/-! ## Tokens in one line -/

/-- A newline is in a token only as the last character of a newline token. -/
def KeepsLine (token : Token) : Prop :=
  ∀ i, token.text.toList[i]? = some '\n' → token.kind = "newline" ∧ i + 1 = token.text.toList.length

theorem keepsLine_mark (kind : TokenKind) (position : Int) : KeepsLine (.mark kind position) := by
  intro i found
  cases found

/-- A newline is the last character of what the pattern of newlines takes. -/
theorem last_of_allows_newlinePattern (allows : newlinePattern.Allows {} part) {i : Nat}
    (found : part[i]? = some '\n') : i + 1 = part.length := by
  obtain ⟨carriage, _, allows, ⟨newline, -, rfl⟩, rfl⟩ := allows
  have returns : '\n' ∉ carriage := by
    rcases allows.optional_cases with rfl | ⟨c, isCarriage, rfl⟩
    · exact List.not_mem_nil
    · rw [contains_single, beq_iff_eq] at isCarriage
      subst isCarriage
      decide
  rw [List.getElem?_append] at found
  split at found
  next => exact absurd (List.mem_of_getElem? found) returns
  next behind =>
    obtain ⟨less, -⟩ := List.getElem?_eq_some_iff.mp found
    rw [List.length_singleton] at less
    rw [List.length_append, List.length_singleton]
    omega

namespace Spells

variable (spells : Spells lexer table words)

include spells

/-- All patterns but that of newlines take no newline. -/
theorem avoids_newline (mem : entry ∈ table) :
    entry = ("newline", newlinePattern) ∨ entry.2.avoids {} '\n' = true := by
  rcases spells.cases entry mem with isFormed | rfl | verbal
  · have formed : ∀ entry ∈ formedEntries,
        entry = ("newline", newlinePattern) ∨ entry.2.avoids {} '\n' = true := by decide
    exact formed entry isFormed
  · exact .inr (avoids_namePattern (by decide) (by decide))
  · obtain ⟨-, avoids, -⟩ := of_isVerbal verbal
    exact .inr (avoids '\n' (by decide))

/-- A newline in what is hit is its last character, and then it is a newline that is hit. -/
theorem newline_of_hit {count i : Nat} (isHit : hit {} table text = some (label, count))
    (found : (text.take count)[i]? = some '\n') : label = "newline" ∧ i + 1 = count := by
  obtain ⟨entry, mem, rfl, taken⟩ := exists_of_hit isHit
  obtain ⟨within, allows⟩ := allows_of_mem_lengths (spells.lists.plain entry mem) (List.mem_of_mem_head? taken)
  rcases spells.avoids_newline mem with rfl | avoids
  · have last := last_of_allows_newlinePattern allows found
    rw [List.length_take_of_le within] at last
    exact ⟨rfl, last⟩
  · exact absurd (List.mem_of_getElem? found) (allows.not_mem avoids)

/-- At a newline there is a match. -/
theorem matchAt_newline (newline : text[start]? = some '\n') :
    lexer.pattern.matchAt lexer.flags (Cursor.place text start) ≠ none := by
  obtain ⟨less, isNewline⟩ := List.getElem?_eq_some_iff.mp newline
  rw [spells.lists.matchAt, Cursor.rest_place, List.drop_eq_getElem_cons less, isNewline, spells.flags,
    spells.hit_newline]
  exact Option.some_ne_none _

/-- What a step gives keeps its line. -/
theorem keepsLine_of_sees (keywordKind : lexer.keywordKind = "name") (covers : Covers text start token next)
    (sees : Sees lexer text start next token) : KeepsLine token := by
  intro i found
  rw [covers.isText, String.toList_ofList] at found ⊢
  cases sees with
  | passed _ nowhere _ =>
    obtain ⟨less, newline⟩ := Source.getElem?_stretch_iff.mp found
    exact absurd (nowhere (start + i) (Nat.le_add_right _ _) less) (spells.matchAt_newline newline)
  | matched here stops named kind =>
    rw [spells.lists.matchAt, Cursor.rest_place, spells.flags] at here
    obtain ⟨⟨label, count⟩, isHit, rfl⟩ := Option.map_eq_some_iff.mp here
    obtain rfl := Option.some.inj named
    obtain rfl : start + count = next := by simpa using stops
    rw [Source.length_stretch covers.le, Nat.add_sub_cancel_left]
    rw [List.drop_take, Nat.add_sub_cancel_left] at found
    obtain ⟨rfl, last⟩ := spells.newline_of_hit isHit found
    refine ⟨?_, last⟩
    rw [kind, Lexer.kindOf, keywordKind, if_neg (by decide)]

/-- The tokens of a text keep their lines. -/
theorem exists_covers_of_mem_tile (keywordKind : lexer.keywordKind = "name") {text : String}
    (mem : token ∈ (lexer.tile text).tokens) :
    KeepsLine token ∧ ∃ start next, Covers text.toList start token next := by
  obtain ⟨start, next, covers, sees⟩ := (splits_tile lexer text).exists_sees mem
  exact ⟨spells.keepsLine_of_sees keywordKind covers sees, start, next, covers⟩

end Spells

/-- Before the last character of a token there is no newline in it. -/
theorem KeepsLine.free (keeps : KeepsLine token) (covers : Covers text start token next) :
    ∀ i, start ≤ i → i + 1 < next → text[i]? ≠ some '\n' := by
  intro i behind early newline
  have isText : token.text.toList = (text.take next).drop start := by
    rw [covers.isText, String.toList_ofList]
  have here : token.text.toList[i - start]? = some '\n' := by
    rw [isText, Source.getElem?_stretch_iff, Nat.add_sub_cancel' behind]
    exact ⟨by omega, newline⟩
  obtain ⟨-, last⟩ := keeps _ here
  rw [isText, Source.length_stretch covers.le] at last
  omega

/-- All characters of a token are in the line that it starts in. -/
theorem KeepsLine.lineOf_eq (keeps : KeepsLine token) (covers : Covers text start token next) {place : Nat}
    (behind : start ≤ place) (before : place < next) : lineOf text start = lineOf text place :=
  Source.lineOf_eq behind (Nat.lt_of_lt_of_le before covers.le) fun i after less =>
    keeps.free covers i after (by omega)

/-- A source tells one line for the position of a token and for each of its characters. -/
def InOneLine (source : Source) (token : Token) : Prop :=
  ∃ line after, lineIndex token.start source = .ok line after ∧
    ∀ place, token.start ≤ place → place < token.stop → ∃ after', lineIndex place after = .ok line after'

theorem KeepsLine.inOneLine (keeps : KeepsLine token) {text : String} (covers : Covers text.toList start token next)
    (name : String) : InOneLine (.ofText name text) token := by
  have le : start ≤ text.toList.length := Nat.le_trans (Nat.le_of_lt covers.lt) covers.le
  obtain ⟨after, told, records⟩ := (Source.records_ofText name text).exists_lineIndex le
  rw [InOneLine, covers.starts, covers.stops]
  refine ⟨_, after, told, fun place behind before => ?_⟩
  obtain ⟨place, rfl⟩ := Int.eq_ofNat_of_zero_le (Int.le_trans (Int.natCast_nonneg start) behind)
  have behind : start ≤ place := Int.ofNat_le.mp behind
  have before : place < next := Int.ofNat_lt.mp before
  obtain ⟨after', told', -⟩ := records.exists_lineIndex (Nat.le_trans (Nat.le_of_lt before) covers.le)
  rw [keeps.lineOf_eq covers behind before]
  exact ⟨after', told'⟩

/-- The end of a text is in a line, and there is no character of its mark. -/
theorem inOneLine_mark (name text : String) (kind : TokenKind) :
    InOneLine (.ofText name text) (.mark kind text.toList.length) := by
  obtain ⟨after, told, -⟩ := (Source.records_ofText name text).exists_lineIndex (Nat.le_refl _)
  exact ⟨_, after, told, fun place behind before => absurd before (Int.not_lt.mpr behind)⟩

/-- The tokens that a lexer gives are those of the text, and the end mark. -/
theorem mem_tile_or_eq_mark {text : String} {dropped : TokenKind → Bool} {endToken : Bool}
    (mem : token ∈ (lexer.lex text dropped endToken).tokens) :
    token ∈ (lexer.tile text).tokens ∨ token = .mark Token.endOfText text.toList.length := by
  unfold Lexer.lex at mem
  simp only at mem
  split at mem
  next =>
    rcases List.mem_append.mp mem with kept | isMark
    · exact .inl (List.mem_filter.mp kept).1
    · exact .inr (List.mem_singleton.mp isMark)
  next => exact .inl (List.mem_filter.mp mem).1

/-! ## The token of an error -/

/-- An error is shown in a source, by a picture: it has the stretch of a token, which is not empty and ends in the
line that it starts in. Behind the name of the source the picture has the number of newlines before the token, plus
one, and the columns of the two ends of the token, and then the message. -/
structure ShownAt (error : ParseError) (source : Source) (token : Token) (picture : Picture) : Prop where
  span : error.span = ParseError.spanOf token
  nonempty : token.start < token.stop
  inside : 0 ≤ token.start ∧ token.stop ≤ source.lineEnd token.start
  shown : error.diagnostic = .ok picture.rendered
  head : picture.head = (if source.name = "" then "" else source.name ++ ":") ++
    toString ((source.chars.take token.start.toNat).count '\n' + 1) ++ ":" ++
    toString (token.start - source.lineStart token.start + 1) ++ "-" ++
    toString (token.stop - source.lineStart token.start + 1) ++ ": parse error: " ++ error.message

/-- An error at a token that keeps its line is shown. -/
theorem KeepsLine.exists_shownAt (keeps : KeepsLine token) {name text : String}
    (covers : Covers text.toList start token next) {error : ParseError}
    (isSource : error.source? = some (.ofText name text)) (isSpan : error.span = ParseError.spanOf token) :
    ∃ picture, ShownAt error (.ofText name text) token picture := by
  have less : start < text.toList.length := Nat.lt_of_lt_of_le covers.lt covers.le
  have stop : next ≤ (Source.ofText name text).lineEnd start :=
    Source.stop_le_lineEnd covers.lt covers.le (keeps.free covers)
  obtain ⟨after, told, -⟩ := (Source.records_ofText name text).exists_lineIndex (Nat.le_of_lt less)
  have count : lineOf text.toList start = (text.toList.take start).count '\n' :=
    if_neg fun ended => absurd ended.1 (Nat.ne_of_lt less)
  have span : error.span = ⟨start, next⟩ := by
    rw [isSpan, ParseError.spanOf, covers.starts, covers.stops]
  rw [count] at told
  obtain ⟨picture, shown, head⟩ :=
    ParseError.exists_picture isSource span covers.lt stop (Nat.le_of_lt less) told
  refine ⟨picture, isSpan, ?_, ?_, shown, ?_⟩
  · rw [covers.starts, covers.stops]
    exact Int.ofNat_lt.mpr covers.lt
  · rw [covers.starts, covers.stops]
    exact ⟨Int.natCast_nonneg start, Int.ofNat_le.mpr stop⟩
  · rw [covers.starts, covers.stops]
    exact head

/-- The error of a series of units carries a failure, at a token before the end. -/
theorem ScriptParser.exists_failure {script : ScriptParser} {vocabulary : Vocabulary} {buffer : TokenBuffer}
    {error : ParseError} (conforms : script.Conforms vocabulary) (tries : script.triesSeparator = true)
    (endKind : buffer.endKind = Token.endOfText) (stop : (script.units buffer).stop = .error error) :
    ∃ failure position, error = .ofFailure buffer failure ∧ failure.token = buffer.peek position ∧
      buffer.atEnd position = false := by
  let setting := script.setting buffer
  obtain ⟨-, reports⟩ := (Setting.course_units setting script.parser.root 0).reports (conforms.forward endKind)
  obtain ⟨-, failure, _, isError, gives⟩ := reports error stop
  obtain ⟨-, token, -⟩ := ScriptParser.failure_at_start tries gives
  refine ⟨failure, _, isError, token, eq_false_of_ne_true fun ended => ?_⟩
  -- at the end of the tokens the series would have been done
  obtain ⟨-, decided⟩ := setting.stop_units script.parser.root 0
  rw [Setting.stopAt_eq_done_iff.mpr ended] at decided
  cases stop.symm.trans decided

/-- A token before the end of the tokens of a text is a token of its lexer. -/
theorem mem_tile_of_not_atEnd {text : String} {source? : Option Source} {place : Int} {position : Nat}
    (inside : (TokenBuffer.ofTokens (lexer.kept text ++ [.mark Token.endOfText place]) source?).atEnd position =
      false) :
    (TokenBuffer.ofTokens (lexer.kept text ++ [.mark Token.endOfText place]) source?).peek position ∈
      (lexer.tile text).tokens := by
  have mem := List.mem_of_getElem? (TokenBuffer.getElem?_of_not_atEnd inside)
  rcases List.mem_append.mp mem with kept | isMark
  · exact Lexer.mem_tile_of_mem_kept kept
  · have kind := congrArg Token.kind (List.mem_singleton.mp isMark)
    have other := of_decide_eq_false inside
    rw [TokenBuffer.endKind_ofTokens] at other
    exact absurd kind other

/-! ## Texts -/

/-- In both vocabularies each token of a text has newlines only as the last character of a newline token, and is in
one line. Each text has tokens, and if its units stop with an error, then the error carries a failure at one of the
tokens, and it is shown in the line of that token. -/
theorem errors_shown_in_line {vocabulary : Vocabulary} (known : vocabulary = english ∨ vocabulary = chinese) :
    ∃ lexer script, vocabulary.lexer = .ok lexer ∧ ScriptParser.ofVocabulary vocabulary = .ok script ∧
      (∀ (name text : String) (dropped : TokenKind → Bool) (endToken : Bool),
        ∀ token ∈ (lexer.lex text dropped endToken).tokens, KeepsLine token ∧ InOneLine (.ofText name text) token) ∧
      ∀ name text : String, ∃ buffer, script.tokens (.ofText name text) = .ok buffer ∧
        ∀ error, (script.units buffer).stop = .error error → ∃ failure picture,
          error.failure? = some failure ∧ failure.token ∈ buffer.toList ∧
            ShownAt error (.ofText name text) failure.token picture := by
  obtain ⟨lexer, bare, defined, lexes, bareMade, made, conforms⟩ := exists_script known
  obtain ⟨words, spells⟩ := exists_spells known defined lexes.flags
  have tries : bare.triesSeparator = true :=
    ScriptParser.of_known_check _ known (by decide +kernel) (by decide +kernel) bareMade
  refine ⟨lexer, _, defined, made, fun name text dropped endToken token mem => ?_, fun name text => ?_⟩
  · rcases mem_tile_or_eq_mark mem with mem | rfl
    · obtain ⟨keeps, start, next, covers⟩ := spells.exists_covers_of_mem_tile lexes.keywordKind mem
      exact ⟨keeps, keeps.inOneLine covers name⟩
    · exact ⟨keepsLine_mark _ _, inOneLine_mark name text _⟩
  · refine ⟨_, tokens_of_lexes (conforms.withLexer lexer) rfl lexes _, fun error stopped => ?_⟩
    obtain ⟨failure, position, isError, token, inside⟩ :=
      ScriptParser.exists_failure conforms tries (TokenBuffer.endKind_ofTokens _ _ _) stopped
    have mem := mem_tile_of_not_atEnd inside
    rw [← token] at mem
    obtain ⟨keeps, start, next, covers⟩ := spells.exists_covers_of_mem_tile lexes.keywordKind mem
    have isSource : error.source? = some (.ofText name text) := by
      rw [isError]
      exact TokenBuffer.source?_ofTokens _ _ _
    have isSpan : error.span = ParseError.spanOf failure.token := by
      rw [isError]
      rfl
    obtain ⟨picture, shown⟩ := keeps.exists_shownAt covers isSource isSpan
    exact ⟨failure, picture, by rw [isError]; rfl, token ▸ TokenBuffer.peek_mem_toList _ _, shown⟩

/-! ## A text with an error -/

/-- The texts of the patterns have no part in the splitting of a text. -/
theorem kept_patterns (lexer : Lexer) (patterns : List LexPattern) (text : String) :
    { lexer with patterns }.kept text = lexer.kept text := by
  have scan (budget : Nat) (cursor : Cursor) :
      { lexer with patterns }.scan budget cursor = lexer.scan budget cursor := by
    induction budget generalizing cursor with
    | zero => rfl
    | succ budget ih =>
      have step : { lexer with patterns }.step cursor = lexer.step cursor := rfl
      simp only [Lexer.scan, step, ih]
  rw [Lexer.kept, Lexer.tile, scan]
  rfl

/-- The lexer of a vocabulary, put together from what the texts of its table are by themselves. -/
def Vocabulary.tableLexer (vocabulary : Vocabulary) : Lexer :=
  { vocabulary.bareLexer with
    pattern := .choice (vocabulary.readTable.map fun entry => .group (some entry.1) entry.2) }

/-- The tokens of a text can be told from the table of a vocabulary. -/
theorem kept_tableLexer {vocabulary : Vocabulary} (spells : Spells lexer vocabulary.readTable words)
    (lexes : LexesScripts lexer vocabulary) (text : String) : vocabulary.tableLexer.kept text = lexer.kept text := by
  have same : lexer = { vocabulary.tableLexer with patterns := lexer.patterns } := by
    obtain ⟨flags, patterns, pattern, keywords, keywordKind, drop⟩ := lexer
    obtain rfl : flags = {} := lexes.flags
    obtain rfl : pattern = _ := spells.lists.pattern
    obtain rfl : keywords = _ := lexes.keywords
    obtain rfl : keywordKind = "name" := lexes.keywordKind
    obtain rfl : drop = _ := lexes.drop
    rfl
  rw [same]
  exact (kept_patterns _ _ text).symm

/-- An assignment, and in the next line an expression that is not finished. -/
def unfinished : String := "x = 1;\n\t(2 +"

/-- The tokens of the text, without the spaces and the tab. -/
def unfinishedTokens : List Token := [
  .ofText "name" "x" 0, .ofText "eq" "=" 2, .ofText "number" "1" 4, .ofText "semi" ";" 5, .ofText "newline" "\n" 6,
  .ofText "paren_o" "(" 8, .ofText "number" "2" 9, .ofText "plus" "+" 11]

/-- Whether a series of units stops with an error that has a stretch. -/
def stopsAt (units : Units Value BuildError) (span : Span) : Bool :=
  match units.stop with
  | .error error => error.span = span
  | _ => false

theorem exists_of_stopsAt {units : Units Value BuildError} {span : Span} (stops : stopsAt units span = true) :
    ∃ error, units.stop = .error error ∧ error.span = span := by
  unfold stopsAt at stops
  split at stops
  next error stop => exact ⟨error, stop, of_decide_eq_true stops⟩
  next => cases stops

/-- The newline is a token in the first line. The error is that of the bracket, behind the tab of the second one. -/
theorem unfinished_shown_in_line :
    ∃ lexer script, english.lexer = .ok lexer ∧ ScriptParser.ofVocabulary english = .ok script ∧
      (Token.ofText "newline" "\n" 6 ∈ (lexer.lex unfinished).tokens ∧
        InOneLine (.ofText "t" unfinished) (.ofText "newline" "\n" 6)) ∧
      ∃ (buffer : TokenBuffer) (error : ParseError) (picture : Picture),
        script.tokens (.ofText "t" unfinished) = .ok buffer ∧ (script.units buffer).stop = .error error ∧
        error.diagnostic = .ok picture.rendered ∧ picture.head = "t:2:2-3: parse error: " ++ error.message := by
  obtain ⟨lexer, script, defined, made, keeps, shows⟩ := errors_shown_in_line (.inl (rfl : english = english))
  obtain ⟨buffer, tokens, shows⟩ := shows "t" unfinished
  obtain ⟨lexer', bare, defined', lexes, bareMade, made', conforms⟩ := exists_script (.inl (rfl : english = english))
  obtain rfl := Except.ok.inj (defined.symm.trans defined')
  obtain rfl := Except.ok.inj (made.symm.trans made')
  obtain ⟨words, spells⟩ := exists_spells (.inl (rfl : english = english)) defined lexes.flags
  have kept : lexer.kept unfinished = unfinishedTokens := by
    rw [← kept_tableLexer spells lexes]
    decide +kernel
  have mem : Token.ofText "newline" "\n" 6 ∈ (lexer.lex unfinished).tokens := by
    show _ ∈ lexer.kept unfinished
    rw [kept]
    decide
  have isBuffer := tokens_of_lexes (conforms.withLexer lexer) rfl lexes (.ofText "t" unfinished)
  rw [tokens] at isBuffer
  have isText : (Source.ofText "t" unfinished).text = unfinished := rfl
  rw [isText, kept] at isBuffer
  obtain rfl := Except.ok.inj isBuffer
  have stops := ScriptParser.of_made_check (fun script => stopsAt (script.units (.ofTokens (unfinishedTokens ++
    [.mark Token.endOfText (Source.ofText "t" unfinished).length]) (some (.ofText "t" unfinished)))) ⟨8, 9⟩)
    (by decide +kernel) bareMade
  obtain ⟨error, stop, span⟩ := exists_of_stopsAt stops
  obtain ⟨failure, picture, -, -, shown⟩ := shows error stop
  obtain ⟨start, next⟩ := Span.mk.inj (shown.span.symm.trans span)
  refine ⟨lexer, _, defined, made, ⟨mem, (keeps "t" unfinished _ _ _ mem).2⟩, _, error, picture, tokens, stop,
    shown.shown, ?_⟩
  have head := shown.head
  rw [start, next] at head
  have lineStart : (Source.ofText "t" unfinished).lineStart 8 = 7 := by decide +kernel
  rw [lineStart] at head
  exact head

end Script

end Grammatic
