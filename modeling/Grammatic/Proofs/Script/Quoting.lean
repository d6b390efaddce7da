import Grammatic.Proofs.Evaluation.Conveying
import Grammatic.Proofs.Script.Completion
import Grammatic.Proofs.Script.Table

/-!
# Every string has a literal

A string is written as a literal by escaping its backslashes, its quotes and its newlines, and putting it in
quotes (`quoted`). The lexers of scripts find the closing quote and no other (`closing_escaped`), and reading the
token puts back what was escaped (`unescape_escaped`), so the literal is one token, its value is the string, and it
is parsed as one unit, which is a string literal (`every_string_has_literal`).
-/

namespace Grammatic.Script

open Pattern Lexer

/-! ## Escaping -/

/-- A character as it is written in a literal. -/
def escapedChar (c : Char) : List Char :=
  if c = '\\' then ['\\', '\\'] else if c = '"' then ['\\', '"'] else if c = '\n' then ['\\', 'n'] else [c]

/-- The characters of a string as they are written in a literal. -/
def escaped (chars : List Char) : List Char := chars.flatMap escapedChar

/-- The literal of a string. -/
def quoted (s : String) : String := String.ofList ('"' :: escaped s.toList ++ ['"'])

variable {chars text : List Char} {c : Char}

/-- What is proved of each character of a literal: it is one of the three that are escaped, or stands for itself. -/
theorem escapedChar_cases {P : Char → List Char → Prop} (backslash : P '\\' ['\\', '\\']) (quote : P '"' ['\\', '"'])
    (newline : P '\n' ['\\', 'n']) (plain : ∀ c, c ≠ '\\' → c ≠ '"' → c ≠ '\n' → P c [c]) (c : Char) :
    P c (escapedChar c) := by
  rw [escapedChar]
  split
  next isBackslash => exact isBackslash ▸ backslash
  next notBackslash =>
    split
    next isQuote => exact isQuote ▸ quote
    next notQuote =>
      split
      next isNewline => exact isNewline ▸ newline
      next notNewline => exact plain c notBackslash notQuote notNewline

/-- No character of a literal closes it. -/
theorem closing_escapedChar (c : Char) : closing false (escapedChar c ++ text) =
    (closing false text).map ((escapedChar c).length + ·) := by
  have twice : ((closing false text).map (1 + ·)).map (1 + ·) = (closing false text).map (2 + ·) := by
    simp only [Option.map_map, Function.comp_def, ← Nat.add_assoc]
  refine escapedChar_cases (P := fun _ written =>
    closing false (written ++ text) = (closing false text).map (written.length + ·)) twice twice twice ?_ c
  intro c backslash quote newline
  rw [List.singleton_append, closing, if_neg newline, if_neg Bool.false_ne_true, if_neg quote,
    decide_eq_false backslash]
  rfl

theorem closing_escaped : closing false (escaped chars ++ '"' :: text) = some ((escaped chars).length + 1) := by
  induction chars with
  | nil => rfl
  | cons c chars ih =>
    have split : escaped (c :: chars) = escapedChar c ++ escaped chars := List.flatMap_cons
    rw [split, List.append_assoc, closing_escapedChar, ih, Option.map_some, List.length_append, Nat.add_assoc]

theorem unescape_escapedChar (c : Char) : Literal.unescape (escapedChar c ++ text) = c :: Literal.unescape text := by
  refine escapedChar_cases (P := fun c written =>
    Literal.unescape (written ++ text) = c :: Literal.unescape text) rfl rfl rfl ?_ c
  intro c backslash _ _
  rw [List.singleton_append, Literal.unescape]
  exact fun d rest same => absurd same backslash

/-- Reading a literal puts back what was escaped. -/
theorem unescape_escaped : Literal.unescape (escaped chars) = chars := by
  induction chars with
  | nil => rfl
  | cons c chars ih =>
    have split : escaped (c :: chars) = escapedChar c ++ escaped chars := List.flatMap_cons
    rw [split, unescape_escapedChar, ih]

theorem unquote_quoted : Literal.unquote ('"' :: text ++ ['"']) = text := by
  have last : ('"' :: text ++ ['"']).getLast? = some '"' := by
    rw [List.getLast?_append, List.getLast?_singleton, Option.some_or]
  rw [Literal.unquote, last]
  simp

/-! ## The token of a literal -/

/-- The token of a literal that is a text by itself. -/
def literalToken (s : String) : Token := .ofText "string" (quoted s) 0

theorem value_literalToken (s : String) : Literal.string.value (literalToken s) = .ok (.text s) := by
  show Except.ok (Scalar.text (String.ofList (Literal.unescape (Literal.unquote (quoted s).toList)))) = _
  rw [quoted, String.toList_ofList, unquote_quoted, unescape_escaped, String.ofList_toList]

/-- A literal is one token, which is a quoted text. -/
theorem tile_quoted {lexer : Lexer} {table : List (String × Pattern)} {words : List (List Char)}
    (spells : Spells lexer table words) (name : lexer.keywordKind = "name") (s : String) :
    lexer.tile (quoted s) = ⟨[literalToken s], none⟩ := by
  have isHit : hit {} table ('"' :: escaped s.toList ++ ['"']) =
      some ("string", ('"' :: escaped s.toList ++ ['"']).length) := by
    rw [List.cons_append, spells.hit_quote, closing_escaped, Option.map_some, List.length_cons,
      List.length_append, List.length_singleton, Nat.add_comm 1]
  have matched : lexer.pattern.matchAt lexer.flags (.start ('"' :: escaped s.toList ++ ['"'])) =
      some ⟨(Cursor.start ('"' :: escaped s.toList ++ ['"'])).toEnd, some "string"⟩ := by
    rw [spells.lists.matchAt, spells.flags]
    simp only [Cursor.start, isHit, Option.map_some, Cursor.skip, Cursor.toEnd, List.take_length, List.drop_length]
  have kind : lexer.kindOf "string" (quoted s) = "string" := by
    rw [Lexer.kindOf, name, if_neg (by decide)]
  have nonempty : '"' :: escaped s.toList ++ ['"'] ≠ [] := List.cons_ne_nil _ _
  have isText : String.ofList ('"' :: escaped s.toList ++ ['"']) = quoted s := rfl
  have tile := tile_of_matchAt nonempty matched
  rw [isText, kind] at tile
  exact tile

/-! ## The unit of a literal -/

/-- Whether a rule reads every quoted text as a string literal. -/
def readsString (rule : Rule) : Bool :=
  rule.kind = .terminal && rule.literal = some .string && rule.kinds.contains "string" &&
    rule.reserved = .none && rule.tag = some NodeKind.stringLiteral.tag

/-- Whether a unit that is a quoted text is what is read from it. -/
def ScriptParser.conveysStrings (script : ScriptParser) : Bool :=
  (List.range script.store.rules.size).any fun id =>
    script.store.rules[id]?.any readsString &&
      script.store.conveys "string" Token.endOfText [NodeKind.primaryExpr.tag] id script.store.rules.size
        script.parser.root

variable {script : ScriptParser} {buffer : TokenBuffer} {token : Token} {s : String}

/-- The tree of a string literal. -/
def stringTree (s : String) : Value := .tree .stringLiteral [.scalar (.text s)]

/-- A rule that reads quoted texts makes a string literal of the value of the token. -/
theorem evaluate_of_readsString {id : RuleId} {rule : Rule} {start : Nat}
    (found : script.store.rules[id]? = some rule) (reads : readsString rule = true)
    (isString : (buffer.peek start).kind = "string")
    (value : Literal.string.value (buffer.peek start) = .ok (.text s)) (depth : Nat) :
    (script.setting buffer).evaluateWithin (depth + 1) id start =
      .matched (stringTree s) (buffer.advance start) := by
  simp only [readsString, Bool.and_eq_true, decide_eq_true_eq] at reads
  obtain ⟨⟨⟨⟨kind, literal⟩, takes⟩, free⟩, tag⟩ := reads
  have accepted : (script.setting buffer).accepts rule (buffer.peek start) = true := by
    rw [Setting.accepts, isString, takes, free]
    rfl
  have node : (script.setting buffer).factory.node rule.tag [.scalar (.text s)] = .ok (stringTree s) := by
    rw [tag]
    rfl
  have found : (script.setting buffer).store.rules[id]? = some rule := found
  have scalar : (script.setting buffer).factory.scalar (.text s) = .scalar (.text s) := rfl
  rw [Setting.evaluateWithin, found]
  simp only [Setting.evaluateRule_terminal kind, Setting.terminal]
  have peek : (script.setting buffer).buffer.peek start = buffer.peek start := rfl
  rw [peek, if_pos accepted, literal]
  simp only [value, Setting.construct, scalar, node]
  rfl

theorem conveysStrings_of_known {vocabulary : Vocabulary} (known : vocabulary = english ∨ vocabulary = chinese)
    {bare : ScriptParser} (made : ScriptParser.ofLexer vocabulary.bareLexer = .ok bare) :
    bare.conveysStrings = true :=
  ScriptParser.of_known_check ScriptParser.conveysStrings known (by decide +kernel) (by decide +kernel) made

/-- A token that is a quoted text, with nothing behind it, is one unit. -/
theorem units_of_string {vocabulary : Vocabulary} (conforms : script.Conforms vocabulary)
    (conveys : script.conveysStrings = true) {place : Int}
    (once : buffer.EndsOnce [token] Token.endOfText place) (isString : token.kind = "string")
    (value : Literal.string.value token = .ok (.text s)) :
    script.units buffer = ⟨[(stringTree s, 1)], .done, 1⟩ := by
  have first : buffer.peek 0 = token := by
    rw [TokenBuffer.peek_eq_getD, once.toList]
    rfl
  have second : buffer.peek 1 = .mark Token.endOfText place := by
    rw [TokenBuffer.peek_eq_getD, once.toList]
    rfl
  have inside : buffer.atEnd 0 = false := eq_false_of_ne_true fun ended =>
    absurd ((once.atEnd_iff 0).mp ended) (by simp)
  have ended : buffer.atEnd 1 = true := (once.atEnd_iff 1).mpr (Nat.le_refl _)
  have advance : buffer.advance 0 = 1 := TokenBuffer.advance_of_not_atEnd inside
  simp only [ScriptParser.conveysStrings, List.any_eq_true, Bool.and_eq_true, Option.any_eq_true] at conveys
  obtain ⟨id, -, ⟨rule, found, reads⟩, conveys⟩ := conveys
  have evaluated : (script.setting buffer).evaluate script.parser.root 0 = .matched (stringTree s) 1 := by
    have given (depth : Nat) : (script.setting buffer).evaluateWithin (depth + 1) id 0 =
        .matched (stringTree s) 1 := by
      have evaluated := evaluate_of_readsString found reads (first ▸ isString) (first ▸ value) depth
      rwa [advance] at evaluated
    have same : ∀ tag ∈ [NodeKind.primaryExpr.tag],
        (script.setting buffer).factory.node (some tag) [stringTree s] = .ok (stringTree s) := by
      intro tag mem
      obtain rfl := List.mem_singleton.mp mem
      rfl
    have gives : (script.setting buffer).evaluateWithin script.store.rules.size script.parser.root 0 =
        .matched (stringTree s) 1 :=
      Setting.evaluateWithin_of_conveys conveys (first ▸ isString) (second ▸ rfl) given same
    exact (Setting.gives_of_evaluateWithin gives (by simp)).eq_of_ne (conforms.ends once.endKind _ _)
  exact (Setting.Course.unit inside evaluated (by decide) (.done ended)).units_eq

/-! ## Strings and literals -/

/-- Every string can be written in the scripts of a vocabulary. Its literal is one token up to the end of the text,
nothing of it is dropped, the value of the token is the string, and the one unit of the text is a string literal. -/
def Vocabulary.HasLiterals (vocabulary : Vocabulary) : Prop :=
  ∃ lexer script, vocabulary.lexer = .ok lexer ∧ ScriptParser.ofVocabulary vocabulary = .ok script ∧
    script.parser.lexer = some lexer ∧
    ∀ name s : String, ∃ buffer,
      lexer.tile (quoted s) = ⟨[literalToken s], none⟩ ∧ lexer.lex (quoted s) = ⟨[literalToken s], none⟩ ∧
        Literal.string.value (literalToken s) = .ok (.text s) ∧
        script.tokens (.ofText name (quoted s)) = .ok buffer ∧
        script.units buffer = ⟨[(.tree .stringLiteral [.scalar (.text s)], 1)], .done, 1⟩

theorem hasLiterals_of_known {vocabulary : Vocabulary} (known : vocabulary = english ∨ vocabulary = chinese) :
    vocabulary.HasLiterals := by
  obtain ⟨lexer, defined, lexes⟩ := exists_lexer (lexes_of_known known)
  obtain ⟨words, spells⟩ := exists_spells known defined lexes.flags
  obtain ⟨bare, _, bareMade, -, -, conforms⟩ := exists_bare known
  have made : ScriptParser.ofVocabulary vocabulary = .ok (bare.withLexer lexer) := by
    rw [ScriptParser.ofVocabulary, defined]
    exact ScriptParser.ofLexer_of_same lexes.keywords lexes.kinds bareMade
  replace conforms := conforms.withLexer lexer
  have conveys := conveysStrings_of_known known bareMade
  refine ⟨lexer, bare.withLexer lexer, defined, made, rfl, fun name s => ?_⟩
  have tile := tile_quoted spells lexes.keywordKind s
  have undropped : lexer.drop.contains (literalToken s).kind = false := by
    rw [lexes.drop]
    exact (by decide +kernel : (StringSet.ofList dropped).contains "string" = false)
  have kept : lexer.kept (quoted s) = [literalToken s] := by
    rw [Lexer.kept, tile, List.filter_cons_of_pos (by rw [undropped]; rfl), List.filter_nil]
  have lexed : lexer.lex (quoted s) = ⟨lexer.kept (quoted s), (lexer.tile (quoted s)).fault⟩ := rfl
  have tokens := tokens_of_lexes conforms rfl lexes (.ofText name (quoted s))
  have isText : (Source.ofText name (quoted s)).text = quoted s := rfl
  rw [isText, kept] at tokens
  refine ⟨_, tile, by rw [lexed, kept, tile], value_literalToken s, tokens, ?_⟩
  have once : (TokenBuffer.ofTokens ([literalToken s] ++
      [.mark Token.endOfText (Source.ofText name (quoted s)).length]) (some (.ofText name (quoted s)))).EndsOnce
        [literalToken s] Token.endOfText (Source.ofText name (quoted s)).length := by
    refine ⟨TokenBuffer.endKind_ofTokens _ _ _, by rw [toList_ofTokens_marked, if_pos rfl], ?_⟩
    intro token mem
    obtain rfl := List.mem_singleton.mp mem
    exact (by decide : "string" ≠ Token.endOfText)
  exact units_of_string conforms conveys once rfl (value_literalToken s)

/-- In both vocabularies every string has a literal. -/
theorem every_string_has_literal : english.HasLiterals ∧ chinese.HasLiterals :=
  ⟨hasLiterals_of_known (.inl rfl), hasLiterals_of_known (.inr rfl)⟩

end Grammatic.Script
