import Grammatic.Proofs.Script.Table

/-!
# Tokens survive respacing

Lexing the texts of the tokens of a script, joined with single spaces, gives the same tokens again
(`tokens_survive_respacing`). What is dropped between two tokens has been exchanged for a space, or for nothing,
and a space put where there was none.

For a token by itself this is a matter of the patterns. But a quote at which no quoted text begins is invalid
because of all that follows up to the end of its line, so the main lemma says of the whole rest of a text that
joining its tokens leaves it unclosed (`closing_respaced`). Whether the first character is escaped belongs to the
statement, since an invalid token can end in a backslash: it would escape the space that is put behind it, and not
what it did before.
-/

namespace Grammatic.Script

open Pattern Lexer

/-! ## Parts with spaces between them -/

/-- The parts of a text that are not dropped. -/
def kept (parts : List (TokenKind × List Char)) : List (TokenKind × List Char) :=
  parts.filter fun part => part.1 ∉ dropped

/-- The texts of parts, with a space between any two. -/
def respaced (parts : List (TokenKind × List Char)) : List Char := [' '].intercalate (parts.map (·.2))

/-- The texts of parts, with a space before each. -/
def trailing (parts : List (TokenKind × List Char)) : List Char := if parts = [] then [] else ' ' :: respaced parts

/-- Parts with the part that a space makes before each. -/
def afterSpaces (kindOf : String → List Char → TokenKind) (parts : List (TokenKind × List Char)) :
    List (TokenKind × List Char) :=
  parts.flatMap fun part => [(kindOf "spaces" [' '], [' ']), part]

/-- Parts with the part that a space makes between any two. -/
def spaced (kindOf : String → List Char → TokenKind) :
    List (TokenKind × List Char) → List (TokenKind × List Char)
  | [] => []
  | part :: parts => part :: afterSpaces kindOf parts

variable {parts : List (TokenKind × List Char)} {part : TokenKind × List Char} {escaped : Bool}

theorem respaced_cons : respaced (part :: parts) = part.2 ++ trailing parts := by
  cases parts with
  | nil => simp [respaced, trailing, List.intercalate]
  | cons next parts => simp [respaced, trailing, List.intercalate]

theorem ended_trailing : Ended (trailing parts) := by
  rw [trailing]
  split
  next => exact .nothing
  next => exact .space

/-- A space neither closes a quoted text nor escapes anything. -/
theorem closing_trailing (unclosed : closing false (respaced parts) = none) :
    closing escaped (trailing parts) = none := by
  rw [trailing]
  split
  next => rfl
  next => cases escaped <;> simp [closing, unclosed]

theorem kept_cons : kept (part :: parts) = if part.1 ∈ dropped then kept parts else part :: kept parts := by
  rw [kept, List.filter_cons]
  by_cases drop : part.1 ∈ dropped <;> simp [drop, kept]

theorem invalid_kept : Token.invalid ∉ dropped := by decide

/-! ## Respacing keeps the parts -/

section Respacing

variable {lexer : Lexer} {table : List (String × Pattern)} {words : List (List Char)}
  {kindOf : String → List Char → TokenKind} {text : List Char}
  (spells : Spells lexer table words)
  (kinds : ∀ label part, kindOf label part ∈ dropped ↔ label ∈ dropped)

include spells kinds

/-- No token begins with a space. -/
theorem head_of_kept (isParts : Parts (hit {} table) kindOf text parts) (mem : part ∈ kept parts) :
    part.2.head?.any (· ≠ ' ') = true := by
  induction isParts with
  | done => cases mem
  | @taken first text label parts nonempty isHit more ih =>
    rw [kept_cons] at mem
    split at mem
    next => exact ih mem
    next undropped =>
      rcases List.mem_cons.mp mem with rfl | mem
      · obtain ⟨c, first, rfl⟩ := List.exists_cons_of_ne_nil nonempty
        refine decide_eq_true fun space => undropped ((kinds _ _).mpr ?_)
        subst space
        obtain ⟨rfl, -⟩ := Prod.mk.inj (Option.some.inj (spells.hit_space.symm.trans isHit))
        decide
      · exact ih mem
  | @missed first text parts nonempty missed stops more ih =>
    rw [kept_cons, if_neg invalid_kept] at mem
    rcases List.mem_cons.mp mem with rfl | mem
    · obtain ⟨c, first, rfl⟩ := List.exists_cons_of_ne_nil nonempty
      refine decide_eq_true fun space => ?_
      subst space
      cases spells.hit_space.symm.trans (missed.eq_none nonempty)
    · exact ih mem

/-- A newline stays the first token, and ends what is quoted before it. -/
theorem closing_respaced_newline (isParts : Parts (hit {} table) kindOf ('\n' :: text) parts) :
    closing escaped (respaced (kept parts)) = none := by
  generalize whole : '\n' :: text = all at isParts
  cases isParts with
  | done => cases whole
  | @taken first text label parts nonempty isHit more =>
    rw [← whole, spells.hit_newline] at isHit
    obtain ⟨rfl, length⟩ := Prod.mk.inj (Option.some.inj isHit)
    obtain ⟨c, rfl⟩ := List.length_eq_one_iff.mp length.symm
    obtain ⟨rfl, rfl⟩ := List.cons.inj whole
    have undropped : kindOf "newline" ['\n'] ∉ dropped := mt (kinds _ _).mp (by decide)
    rw [kept_cons, if_neg undropped, respaced_cons]
    exact closing_newline
  | missed nonempty missed =>
    have never := missed.eq_none nonempty
    rw [← whole, spells.hit_newline] at never
    cases never

/-- Where a text does not close what is quoted before it, its tokens do not either when they are respaced. If the
first character is escaped, it has to belong to a token, as it does behind an invalid one. -/
theorem closing_respaced (isParts : Parts (hit {} table) kindOf text parts)
    (begins : escaped = true → text ≠ [] → hit {} table text ≠ none) (unclosed : closing escaped text = none) :
    closing false (respaced (kept parts)) = none := by
  induction isParts generalizing escaped with
  | done => rfl
  | @taken part text label parts nonempty isHit more ih =>
    have later (unclosed : closing false text = none) : closing false (respaced (kept parts)) = none :=
      ih (fun escapes => absurd escapes Bool.false_ne_true) unclosed
    rw [kept_cons]
    cases spells.role_of_hit isHit with
    | ordinary quote backslash newline =>
      rw [closing_append_eq_none_iff nonempty quote backslash newline] at unclosed
      split
      next => exact later unclosed
      next =>
        rw [respaced_cons, closing_append_eq_none_iff nonempty quote backslash newline]
        exact closing_trailing (later unclosed)
    | newline isLabel ends =>
      subst isLabel
      rw [if_neg (mt (kinds _ _).mp (by decide)), respaced_cons]
      exact ends false _
    | comment isLabel ends =>
      subst isLabel
      rw [if_pos ((kinds _ _).mpr (by decide))]
      cases text with
      | nil =>
        rw [more.unique .done]
        rfl
      | cons c text =>
        obtain rfl : c = '\n' := by simpa using ends
        exact closing_respaced_newline spells kinds more
    | @quoted body isPart closed =>
      subst isPart
      cases escaped with
      | false => cases unclosed
      | true =>
        rw [List.cons_append, closing, if_neg (by decide), if_pos rfl, Option.map_eq_none_iff] at unclosed
        exact absurd unclosed closed
  | @missed part text parts nonempty missed stops more ih =>
    rw [kept_cons, if_neg invalid_kept, respaced_cons]
    cases escaped with
    | true => exact absurd (missed.eq_none nonempty) (begins rfl (by simp [nonempty]))
    | false =>
      exact closing_append_eq_none (fun _ unclosed => closing_trailing (ih (fun _ => stops) unclosed)) unclosed

omit kinds in
/-- Before each token a space is split off. -/
theorem parts_trailing (heads : ∀ part ∈ parts, part.2.head?.any (· ≠ ' ') = true)
    (more : Parts (hit {} table) kindOf (respaced parts) (spaced kindOf parts)) :
    Parts (hit {} table) kindOf (trailing parts) (afterSpaces kindOf parts) := by
  cases parts with
  | nil => exact .done
  | cons first parts =>
    have isHit : hit {} table ([' '] ++ respaced (first :: parts)) = some ("spaces", [' '].length) := by
      have begins := heads first List.mem_cons_self
      obtain ⟨kind, chars⟩ := first
      cases chars with
      | nil => cases begins
      | cons c chars =>
        have other : ' ' ≠ c := (of_decide_eq_true begins).symm
        rw [List.singleton_append, spells.hit_space, respaced_cons]
        simp [runLength, List.isPrefixOf, other]
    exact .taken (List.cons_ne_nil _ _) isHit more

/-- The tokens of a text with spaces between them are the parts of their respaced texts. -/
theorem parts_respaced (isParts : Parts (hit {} table) kindOf text parts) :
    Parts (hit {} table) kindOf (respaced (kept parts)) (spaced kindOf (kept parts)) := by
  induction isParts with
  | done => exact .done
  | @taken part text label parts nonempty isHit more ih =>
    rw [kept_cons]
    split
    next => exact ih
    next undropped =>
      rw [respaced_cons]
      exact .taken nonempty (spells.hit_taken isHit (mt (kinds _ _).mpr undropped) ended_trailing)
        (parts_trailing spells (fun _ mem => head_of_kept spells kinds more mem) ih)
  | @missed part text parts nonempty missed stops more ih =>
    rw [kept_cons, if_neg invalid_kept, respaced_cons]
    have stays (escaped : Bool) (unclosed : closing escaped text = none) :
        closing escaped (trailing (kept parts)) = none :=
      closing_trailing (closing_respaced spells kinds more (fun _ => stops) unclosed)
    refine .missed nonempty ?_ ?_ (parts_trailing spells (fun _ mem => head_of_kept spells kinds more mem) ih)
    · intro before c after isPart
      have never := missed before c after isPart
      by_cases quote : c = '"'
      · subst quote
        rw [List.cons_append, spells.hit_quote, Option.map_eq_none_iff] at never ⊢
        exact closing_append_eq_none stays never
      · exact spells.hit_missed never quote ended_trailing
    · intro more
      rw [trailing, if_neg (fun none => more (if_pos none)), spells.hit_space]
      exact Option.some_ne_none _

omit spells in
/-- Without the spaces, the tokens are left. -/
theorem kept_spaced : kept (spaced kindOf (kept parts)) = kept parts := by
  have afterSpaces (parts : List (TokenKind × List Char)) : kept (afterSpaces kindOf parts) = kept parts := by
    induction parts with
    | nil => rfl
    | cons part parts ih =>
      have space : kindOf "spaces" [' '] ∈ dropped := (kinds _ _).mpr (by decide)
      rw [Script.afterSpaces, List.flatMap_cons, List.cons_append, kept_cons, if_pos space, List.cons_append,
        kept_cons, kept_cons, List.nil_append, ← Script.afterSpaces, ih]
  have again : kept (spaced kindOf (kept parts)) = kept (kept parts) := by
    cases kept parts with
    | nil => rfl
    | cons part parts => rw [spaced, kept_cons, kept_cons, afterSpaces]
  rw [again, kept, kept, List.filter_filter]
  simp

end Respacing

/-! ## The tokens of a lexer -/

/-- No keyword has a dropped kind, so that of a name is not dropped either. -/
theorem kindOf_mem_dropped_iff {lexer : Lexer} (name : lexer.keywordKind = "name")
    (undropped : ∀ kind ∈ lexer.keywords.map (·.2), kind ∉ dropped) (label text : String) :
    lexer.kindOf label text ∈ dropped ↔ label ∈ dropped := by
  by_cases isName : label = lexer.keywordKind
  · have other : label ∉ dropped := by
      rw [isName, name]
      decide
    rcases lexer.kindOf_cases label text with same | keyword
    · rw [same]
    · exact iff_of_false (undropped _ keyword) other
  · rw [Lexer.kindOf, if_neg isName]

/-- The parts of a text that are kept are the tokens that lexing gives. -/
theorem kept_tile {lexer : Lexer} (drop : lexer.drop = .ofList dropped) (text : String) :
    kept ((lexer.tile text).tokens.map fun token => (token.kind, token.text.toList)) =
      (lexer.lex text).tokens.map fun token => (token.kind, token.text.toList) := by
  have same (kind : TokenKind) : (!lexer.drop.contains kind) = decide (kind ∉ dropped) := by
    rw [Bool.eq_iff_iff, Bool.not_eq_true', ← Bool.not_eq_true, StringSet.contains_iff, drop, StringSet.mem_ofList,
      decide_eq_true_eq]
  rw [kept, List.filter_map]
  simp only [Function.comp_def, ← same]
  rfl

/-- Every text is lexed without a fault. The texts of the tokens, joined with single spaces, are lexed so too, and
have the same tokens: the kinds and the texts are the same, those of invalid tokens and newlines included. -/
def SurvivesRespacing (lexer : Lexer) : Prop :=
  ∀ text : String,
    let lexed := lexer.lex text
    let again := lexer.lex (" ".intercalate (lexed.tokens.map (·.text)))
    lexed.fault = none ∧ again.fault = none ∧
      again.tokens.map (fun token => (token.kind, token.text)) =
        lexed.tokens.map fun token => (token.kind, token.text)

theorem exists_survives {vocabulary : Vocabulary} (known : vocabulary = english ∨ vocabulary = chinese) :
    ∃ lexer, vocabulary.lexer = .ok lexer ∧ SurvivesRespacing lexer := by
  obtain ⟨lexer, defined, lexes⟩ := exists_lexer (lexes_of_known known)
  obtain ⟨words, spells⟩ := exists_spells known defined lexes.flags
  have undropped : ∀ kind ∈ lexer.keywords.map (·.2), kind ∉ dropped := by
    rw [lexes.keywords]
    rcases known with rfl | rfl
    · decide
    · decide
  have kinds (label : String) (part : List Char) :=
    kindOf_mem_dropped_iff lexes.keywordKind undropped label (.ofList part)
  have parts := spells.lists.parts_tile
  rw [spells.flags] at parts
  have faultless (text : String) : (lexer.lex text).fault = none := (parts text).1
  refine ⟨lexer, defined, fun text => ⟨faultless text, faultless _, ?_⟩⟩
  have joined : (" ".intercalate ((lexer.lex text).tokens.map (·.text))).toList =
      respaced (kept ((lexer.tile text).tokens.map fun token => (token.kind, token.text.toList))) := by
    rw [String.toList_intercalate, kept_tile lexes.drop, respaced, List.map_map, List.map_map]
    rfl
  have again := (parts (" ".intercalate ((lexer.lex text).tokens.map (·.text)))).2
  rw [joined] at again
  have same := congrArg kept (again.unique (parts_respaced spells kinds (parts text).2))
  rw [kept_spaced kinds, kept_tile lexes.drop, kept_tile lexes.drop] at same
  have texts := congrArg (List.map fun part => (part.1, String.ofList part.2)) same
  simpa only [List.map_map, Function.comp_def, String.ofList_toList] using texts

/-- The English and the Chinese lexer give the tokens of any text again when they are respaced. -/
theorem tokens_survive_respacing :
    (∃ lexer, english.lexer = .ok lexer ∧ SurvivesRespacing lexer) ∧
      ∃ lexer, chinese.lexer = .ok lexer ∧ SurvivesRespacing lexer :=
  ⟨exists_survives (.inl rfl), exists_survives (.inr rfl)⟩

end Grammatic.Script
