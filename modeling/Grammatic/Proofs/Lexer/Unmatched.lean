import Mathlib.Data.List.Chain
import Grammatic.Proofs.Lexer.Joining

/-!
# Unmatched text

A lexer passes over text until one of its patterns matches, and what it has passed over becomes one token of the
invalid kind. So such a token is a stretch in which no pattern begins to match, and it goes on up to a match or to
the end of the text: two of them are never neighbours. No pattern has the name of this kind, but the keyword table
may give it to a match, and nothing else does (`invalid_iff_unmatched`, `invalidKeyword_is_matched`).
-/

namespace Grammatic

namespace Pattern

variable {flags : Flags} {patterns : List (String × Datum)} {cursor : Cursor}

/-- No pattern of a table matches at any place of a token. -/
def Unmatched (flags : Flags) (patterns : List (String × Datum)) (text : List Char) (token : Token) : Prop :=
  ∀ place : Nat, token.start ≤ place → place < token.stop →
    ∀ entry ∈ patterns, ∀ p, alone? flags entry.2 = some p → p.matchAt flags (Cursor.place text place) = none

theorem firstMatch_eq_none_iff : firstMatch flags patterns cursor = none ↔
    ∀ entry ∈ patterns, ∀ p, alone? flags entry.2 = some p → p.matchAt flags cursor = none := by
  simp [firstMatch, List.findSome?_eq_none_iff]

/-- The first place of a token tells unmatched text from a match. -/
theorem Unmatched.firstMatch_eq_none {text : List Char} {token : Token} {start : Nat}
    (unmatched : Unmatched flags patterns text token) (starts : token.start = start) (less : start < token.stop) :
    firstMatch flags patterns (Cursor.place text start) = none :=
  firstMatch_eq_none_iff.mpr (unmatched start (Int.le_of_eq starts) less)

theorem mem_of_firstMatch {name : String} {found : Match}
    (matched : firstMatch flags patterns cursor = some (name, found)) : name ∈ patterns.map (·.1) := by
  obtain ⟨entry, mem, named⟩ := List.exists_of_findSome?_eq_some matched
  obtain ⟨_, -, same⟩ := Option.map_eq_some_iff.mp named
  obtain ⟨rfl, -⟩ := Prod.mk.inj same
  exact List.mem_map_of_mem mem

end Pattern

namespace Lexer

variable {lexer : Lexer} {text : List Char} {start next place : Nat} {token : Token} {lexed : Lexed}

/-! ## What a step has seen -/

theorem matchAt_of_find_eq_none (nowhere : lexer.ownSearcher.find text start = none) (behind : start ≤ place)
    (le : place ≤ text.length) : lexer.pattern.matchAt lexer.flags (Cursor.place text place) = none := by
  have none := Pattern.search_eq_none_iff.mp (Option.map_eq_none_iff.mp nowhere) (place - start)
  rw [Cursor.rest_place, List.length_drop, Cursor.skip_place, Nat.add_sub_cancel' behind] at none
  exact none (by omega)

theorem matchAt_of_find {found : Found} (isFound : lexer.ownSearcher.find text start = some found) :
    (∃ first, lexer.pattern.matchAt lexer.flags (Cursor.place text found.start) = some first ∧
      found.stop = first.cursor.position ∧ found.label = first.lastGroup) ∧
      ∀ place, start ≤ place → place < found.start →
        lexer.pattern.matchAt lexer.flags (Cursor.place text place) = none := by
  obtain ⟨⟨skipped, first⟩, searched, rfl⟩ := Option.map_eq_some_iff.mp isFound
  obtain ⟨-, here, earlier⟩ := Pattern.search_eq_some_iff.mp searched
  rw [Cursor.skip_place] at here
  refine ⟨⟨first, here, rfl, rfl⟩, fun place behind less => ?_⟩
  have none := earlier (place - start) (by simp only at less; omega)
  rwa [Cursor.skip_place, Nat.add_sub_cancel' behind] at none

/-- A step gives what it passes over, up to the end of the text or to a match, or it gives a match. -/
inductive Sees (lexer : Lexer) (text : List Char) (start next : Nat) (token : Token) : Prop
  | passed (kind : token.kind = Token.invalid)
      (nowhere : ∀ place, start ≤ place → place < next →
        lexer.pattern.matchAt lexer.flags (Cursor.place text place) = none)
      (stops : next < text.length → lexer.pattern.matchAt lexer.flags (Cursor.place text next) ≠ none)
  | matched {found : Match} {label : String}
      (here : lexer.pattern.matchAt lexer.flags (Cursor.place text start) = some found)
      (stops : found.cursor.position = next) (named : found.lastGroup = some label)
      (kind : token.kind = lexer.kindOf label token.text)

theorem sees_of_stepBy (inside : start < text.length)
    (stepped : lexer.stepBy lexer.ownSearcher text start = .ok (token, next)) : Sees lexer text start next token := by
  unfold stepBy at stepped
  split at stepped
  next nowhere =>
    obtain ⟨rfl, rfl⟩ := Prod.mk.inj (Except.ok.inj stepped)
    exact .passed rfl (fun place behind less => matchAt_of_find_eq_none nowhere behind (Nat.le_of_lt less))
      fun less => absurd less (Nat.lt_irrefl _)
  next found isFound =>
    obtain ⟨⟨first, here, stop, label⟩, earlier⟩ := matchAt_of_find isFound
    obtain ⟨behind, -, -⟩ := lexer.ownSearcher.within (Nat.le_of_lt inside) isFound
    split at stepped
    next =>
      obtain ⟨rfl, rfl⟩ := Prod.mk.inj (Except.ok.inj stepped)
      exact .passed rfl earlier fun _ => by rw [here]; exact Option.some_ne_none _
    next notPassed =>
      obtain rfl := Nat.le_antisymm (Nat.le_of_not_lt notPassed) behind
      split at stepped
      next => cases stepped
      next =>
        split at stepped
        next => cases stepped
        next kind named =>
          obtain ⟨rfl, rfl⟩ := Prod.mk.inj (Except.ok.inj stepped)
          exact .matched here stop.symm (label.symm.trans named) rfl

/-! ## All tokens -/

/-- Each token covers a stretch, and a step has seen it there. -/
theorem Splits.exists_sees (splits : Splits lexer lexer.ownSearcher (fun _ => false) text start lexed)
    (mem : token ∈ lexed.tokens) : ∃ start next, Covers text start token next ∧ Sees lexer text start next token := by
  induction splits with
  | done | fault => cases mem
  | token inside stepped _ ih =>
    rcases List.mem_cons.mp mem with rfl | mem
    · exact ⟨_, _, stepBy_covers inside stepped, sees_of_stepBy inside stepped⟩
    · exact ih mem

/-- Each place in a text is inside a token that a step has seen, if the lexer stops at no fault. -/
theorem Splits.exists_sees_at (splits : Splits lexer lexer.ownSearcher (fun _ => false) text start lexed)
    (faultless : lexed.fault = none) (behind : start ≤ place) (inside : place < text.length) :
    ∃ token ∈ lexed.tokens, ∃ first next, Covers text first token next ∧ Sees lexer text first next token ∧
      first ≤ place ∧ place < next := by
  induction splits with
  | done ended => omega
  | fault _ _ => cases faultless
  | @token start next token lexed within stepped more ih =>
    rcases Nat.lt_or_ge place next with before | after
    · exact ⟨token, List.mem_cons_self, start, next, stepBy_covers within stepped, sees_of_stepBy within stepped,
        behind, before⟩
    · obtain ⟨other, mem, covered⟩ := ih faultless after
      exact ⟨other, List.mem_cons_of_mem _ mem, covered⟩

/-- Where each invalid token has been passed over, no two are neighbours: behind the first one there is a match. -/
theorem Splits.isChain (splits : Splits lexer lexer.ownSearcher (fun _ => false) text start lexed)
    (unmatched : ∀ token ∈ lexed.tokens, token.kind = Token.invalid → ∀ place : Nat, token.start = place →
      lexer.pattern.matchAt lexer.flags (Cursor.place text place) = none) :
    lexed.tokens.IsChain fun token next => token.kind = Token.invalid → next.kind ≠ Token.invalid := by
  induction splits with
  | done | fault => exact .nil
  | @token start next token lexed inside stepped more ih =>
    have later := ih fun other mem => unmatched other (List.mem_cons_of_mem _ mem)
    show List.IsChain _ (token :: lexed.tokens)
    cases more with
    | done | fault => exact .singleton _
    | @token _ behind second lexed inside' stepped' _ =>
      refine .cons_cons (fun kind kind' => ?_) later
      cases sees_of_stepBy inside stepped with
      | passed _ _ stops =>
        have starts := (stepBy_covers inside' stepped').starts
        exact stops inside' (unmatched second (by simp) kind' next starts)
      | matched here =>
        have starts := (stepBy_covers inside stepped).starts
        cases here.symm.trans (unmatched token (by simp) kind start starts)

/-! ## Kinds -/

/-- No pattern of a lexer has the name of the kind of unmatched text. -/
theorem ne_invalid_of_checkPattern {flags : Flags} {names : List String} {name : String} {value : Datum}
    {pattern : LexPattern} (checked : checkPattern flags names name value = .ok pattern) : name ≠ Token.invalid := by
  obtain ⟨_, _, passed⟩ := passed_of_checkPattern checked
  exact passed.free

/-- The kind of a match is that of unmatched text only by the keyword table. -/
theorem kindOf_eq_invalid_iff {label : String} (other : label ≠ Token.invalid) (text : String) :
    lexer.kindOf label text = Token.invalid ↔
      label = lexer.keywordKind ∧ lexer.keywords.lookup text = some Token.invalid := by
  unfold kindOf
  split
  next isKeywordKind =>
    cases lexer.keywords.lookup text with
    | none => simpa using other
    | some kind => simpa using fun _ => isKeywordKind
  next notKeywordKind => simp [other, notKeywordKind]

/-- A token is matched as a word, and the keyword table gives the word the kind of unmatched text. -/
def IsInvalidKeyword (lexer : Lexer) (patterns : List (String × Datum)) (text : List Char) (token : Token) : Prop :=
  (∃ place : Nat, token.start = place ∧ ∃ found,
    Pattern.firstMatch lexer.flags patterns (Cursor.place text place) = some (lexer.keywordKind, found)) ∧
    lexer.keywords.lookup token.text = some Token.invalid

section Defined

variable {spec : LexerSpec} (defined : define spec = .ok lexer)
include defined

/-- No pattern of a lexer has the kind of unmatched text for its name. -/
theorem ne_invalid_of_mem {name : String} (listed : name ∈ spec.patterns.map (·.1)) : name ≠ Token.invalid := by
  obtain ⟨entry, mem, rfl⟩ := List.mem_map.mp listed
  obtain ⟨-, checked, -⟩ := exists_of_define defined
  obtain ⟨pattern, made⟩ := exists_of_mapM_ok checked mem
  exact ne_invalid_of_checkPattern made

variable (alone : ∀ entry ∈ spec.patterns, (Pattern.alone? lexer.flags entry.2).isSome = true)
include alone

theorem matchAt_eq_none_iff {cursor : Cursor} : lexer.pattern.matchAt lexer.flags cursor = none ↔
    ∀ entry ∈ spec.patterns, ∀ p, Pattern.alone? lexer.flags entry.2 = some p →
      p.matchAt lexer.flags cursor = none := by
  rw [matchAt_define defined alone, Option.map_eq_none_iff, Pattern.firstMatch_eq_none_iff]

/-- A token is unmatched text of the invalid kind, or a match with the kind that its pattern and its text give it. -/
theorem unmatched_or_matched (text : String) (mem : token ∈ (lexer.lex text fun _ => false).tokens) :
    ∃ start : Nat, token.start = start ∧ start < token.stop ∧
      ((token.kind = Token.invalid ∧ Pattern.Unmatched lexer.flags spec.patterns text.toList token) ∨
        ∃ name found, Pattern.firstMatch lexer.flags spec.patterns (Cursor.place text.toList start) =
          some (name, found) ∧ token.kind = lexer.kindOf name token.text) := by
  obtain ⟨start, next, covers, sees⟩ := (splits_lex lexer text fun _ => false).exists_sees mem
  refine ⟨start, covers.starts, covers.stops ▸ Int.ofNat_lt.mpr covers.lt, ?_⟩
  cases sees with
  | passed kind nowhere _ =>
    refine .inl ⟨kind, fun place behind less => (matchAt_eq_none_iff defined alone).mp ?_⟩
    rw [covers.starts] at behind
    rw [covers.stops] at less
    exact nowhere place (Int.ofNat_le.mp behind) (Int.ofNat_lt.mp less)
  | @matched _ label here _ named kind =>
    rw [matchAt_define defined alone] at here
    obtain ⟨⟨name, first⟩, isFirst, rfl⟩ := Option.map_eq_some_iff.mp here
    obtain rfl : name = label := Option.some.inj named
    exact .inr ⟨name, first, isFirst, kind⟩

/-- Without a keyword of the invalid kind a token has this kind just where no pattern matches in it. -/
theorem invalid_iff_of_not_keyword (text : String) (mem : token ∈ (lexer.lex text fun _ => false).tokens)
    (noKeyword : ¬ IsInvalidKeyword lexer spec.patterns text.toList token) :
    token.kind = Token.invalid ↔ Pattern.Unmatched lexer.flags spec.patterns text.toList token := by
  obtain ⟨start, starts, less, ⟨kind, unmatched⟩ | ⟨name, found, first, kind⟩⟩ :=
    unmatched_or_matched defined alone text mem
  · exact iff_of_true kind unmatched
  · refine iff_of_false (fun isInvalid => ?_) fun unmatched => ?_
    · have other := ne_invalid_of_mem defined (Pattern.mem_of_firstMatch first)
      obtain ⟨rfl, keyword⟩ := (kindOf_eq_invalid_iff other _).mp (kind.symm.trans isInvalid)
      exact noKeyword ⟨⟨start, starts, found, first⟩, keyword⟩
    · cases first.symm.trans (unmatched.firstMatch_eq_none starts less)

/-- A keyword of the invalid kind is matched, and has this kind. -/
theorem not_iff_of_isInvalidKeyword (text : String) (mem : token ∈ (lexer.lex text fun _ => false).tokens)
    (isKeyword : IsInvalidKeyword lexer spec.patterns text.toList token) :
    ¬ (token.kind = Token.invalid ↔ Pattern.Unmatched lexer.flags spec.patterns text.toList token) := by
  intro told
  obtain ⟨⟨place, starts', found, first⟩, keyword⟩ := isKeyword
  obtain ⟨start, starts, less, sort⟩ := unmatched_or_matched defined alone text mem
  obtain rfl : place = start := Int.ofNat_inj.mp (starts'.symm.trans starts)
  have kind : token.kind = Token.invalid := by
    rcases sort with ⟨kind, -⟩ | ⟨name, found', first', kind⟩
    · exact kind
    · obtain ⟨rfl, rfl⟩ := Prod.mk.inj (Option.some.inj (first'.symm.trans first))
      have other := ne_invalid_of_mem defined (Pattern.mem_of_firstMatch first)
      exact kind.trans ((kindOf_eq_invalid_iff other _).mpr ⟨rfl, keyword⟩)
  cases first.symm.trans ((told.mp kind).firstMatch_eq_none starts less)

omit alone in
/-- If each text of a table is in the language and is a pattern by itself, then in every text the tokens of the
invalid kind are those in which no pattern matches at any place, and no two of them are neighbours, unless the keyword
table gives this kind to a word of the text. -/
theorem invalid_iff_unmatched (language : InLanguage lexer.flags spec.patterns)
    (standing : StandAlone lexer.flags spec.patterns) (text : String) :
    let tokens := (lexer.lex text fun _ => false).tokens
    ((∀ token ∈ tokens, token.kind = Token.invalid ↔
        Pattern.Unmatched lexer.flags spec.patterns text.toList token) ∧
      tokens.IsChain fun token next => token.kind = Token.invalid → next.kind ≠ Token.invalid) ↔
    ∀ token ∈ tokens, ¬ IsInvalidKeyword lexer spec.patterns text.toList token := by
  intro tokens
  have alone := alone_of_define defined language standing
  constructor
  · rintro ⟨told, -⟩ token mem isKeyword
    exact not_iff_of_isInvalidKeyword defined alone text mem isKeyword (told token mem)
  · intro noKeyword
    have told {token : Token} (mem : token ∈ tokens) :=
      invalid_iff_of_not_keyword defined alone text mem (noKeyword token mem)
    refine ⟨fun token mem => told mem, (splits_lex lexer text fun _ => false).isChain ?_⟩
    intro token mem kind place starts
    obtain ⟨start, starts', less, -⟩ := unmatched_or_matched defined alone text mem
    obtain rfl : place = start := Int.ofNat_inj.mp (starts.symm.trans starts')
    rw [matchAt_define defined alone, ((told mem).mp kind).firstMatch_eq_none starts less]
    rfl

end Defined

section Tables

open Pattern

/-- Words and numbers, with one keyword of a given kind. -/
def wordSpec (kind : String) : LexerSpec where
  patterns := [("name", ("[a-z]+" : String)), ("number", ("[0-9]+" : String))]
  keywords := [("if", kind)]

/-- The lexer of words and numbers, with one keyword of a given kind. -/
def words (kind : String) : Lexer :=
  let name := group (some "name") (.repeated true 1 none (.set ⟨false, [.range 'a' 'z']⟩))
  let number := group (some "number") (.repeated true 1 none (.set ⟨false, [.range '0' '9']⟩))
  { flags := {}
    patterns := [⟨"name", groupText "name" "[a-z]+", name⟩, ⟨"number", groupText "number" "[0-9]+", number⟩]
    pattern := .alt name number
    keywords := [("if", kind)]
    keywordKind := "name"
    drop := .empty }

/-- Around a keyword with a kind of its own, unmatched text is all that is invalid. -/
theorem words_tell_unmatched :
    define (wordSpec "kw_if") = .ok (words "kw_if") ∧
      InLanguage (words "kw_if").flags (wordSpec "kw_if").patterns ∧
      StandAlone (words "kw_if").flags (wordSpec "kw_if").patterns ∧
      (∀ token ∈ ((words "kw_if").lex "?!if a1" fun _ => false).tokens, token.kind = Token.invalid ↔
        Unmatched (words "kw_if").flags (wordSpec "kw_if").patterns "?!if a1".toList token) ∧
      ((words "kw_if").lex "?!if a1" fun _ => false).tokens.map (·.kind) =
        [Token.invalid, "kw_if", Token.invalid, "name", "number"] := by
  have defined : define (wordSpec "kw_if") = .ok (words "kw_if") := eq_ok_of_toOption (by decide +kernel)
  have alone : ∀ entry ∈ (wordSpec "kw_if").patterns, (alone? (words "kw_if").flags entry.2).isSome = true := by
    intro entry mem
    simp only [wordSpec, List.mem_cons, List.not_mem_nil, or_false] at mem
    rcases mem with rfl | rfl <;> decide +kernel
  have others : ∀ token ∈ ((words "kw_if").lex "?!if a1" fun _ => false).tokens,
      (words "kw_if").keywords.lookup token.text ≠ some Token.invalid := by decide +kernel
  obtain ⟨language, standing⟩ := inLanguage_of_define defined alone
  have told := (invalid_iff_unmatched defined language standing "?!if a1").mpr fun token mem keyword =>
    others token mem keyword.2
  exact ⟨defined, language, standing, told.1, by decide +kernel⟩

/-- A keyword may have the kind of unmatched text: a word that matches is then invalid, and next to another
invalid token. -/
theorem invalidKeyword_is_matched :
    define (wordSpec Token.invalid) = .ok (words Token.invalid) ∧
      (((words Token.invalid).lex "if$" fun _ => false).tokens.map fun token => (token.kind, token.text)) =
        [(Token.invalid, "if"), (Token.invalid, "$")] ∧
      ((firstMatch {} (wordSpec Token.invalid).patterns (Cursor.place "if$".toList 0)).map (·.1)) = some "name" :=
  ⟨eq_ok_of_toOption (by decide +kernel), by decide +kernel, by decide +kernel⟩

end Tables

end Lexer

end Grammatic
