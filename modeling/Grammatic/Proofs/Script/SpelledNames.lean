import Grammatic.Proofs.Script.SpelledLexer

/-!
# Names that end where a spelling starts

Giving spellings their places in a table rewrites the pattern of names. The new one stops at each spelling, and should
be the given one otherwise (`Shortens`). It is not always: the new text is made for names that are a letter and word
characters, whatever the given text is, and without any spellings its look ahead is empty and nothing is a name
(`withoutSpellings_invalid`).

What the new pattern matches is known for every table (`reach_guarded`), and so is when it shortens the given one
(`spellings_shorten_names_iff`). If it does, then texts without spellings have the tokens that they had before.
-/

namespace Grammatic

namespace Script

open Pattern Lexer Spelling

variable {words : List (List Char)} {s : CharSet} {text : List Char} {place stop : Nat} {cursor : Cursor}
  {table : List (String × String)} {keywords : List (String × TokenKind)} {name name' : Pattern}
  {spec : LexerSpec} {lexer : Lexer}

/-- Where a match ends that stops at the first place at which a word starts. -/
def cut (words : List (List Char)) (text : List Char) (place stop : Nat) : Nat :=
  ((List.range' place (stop - place)).find? fun reached => startsWord words (text.drop reached)).getD stop

/-- A pattern takes the place of the one of names: at each place at which no word starts it matches what that one does,
up to the first word, and nothing where that one does not match. -/
def Shortens (words : List (List Char)) (name name' : Pattern) : Prop :=
  ∀ (text : List Char) (place : Nat), place ≤ text.length → startsWord words (text.drop place) = false →
    name'.reach {} (Cursor.place text place) = (name.reach {} (Cursor.place text place)).map (cut words text place)

/-! ## Runs that are cut -/

theorem begins_nil : begins [] s text = text.head?.any (s.contains {}) := rfl

/-- A run of guarded characters goes on to the first word in the run of characters. -/
theorem find_range'_runLength :
    ((List.range' place (runLength (begins [] s) (text.drop place))).find? fun reached =>
        startsWord words (text.drop reached)).getD (place + runLength (begins [] s) (text.drop place)) =
      place + runLength (begins words s) (text.drop place) := by
  generalize isRest : text.drop place = rest
  induction rest generalizing place with
  | nil => rfl
  | cons c rest ih =>
    have behind : text.drop (place + 1) = rest := by
      rw [← List.drop_drop, isRest]
      rfl
    rw [runLength, runLength, begins_nil, begins, List.head?_cons, Option.any_some]
    cases inside : s.contains {} c with
    | false => simp
    | true =>
      rw [if_pos rfl, List.range'_succ, List.find?_cons, isRest]
      cases starts : startsWord words (c :: rest) with
      | true => simp
      | false =>
        have more := ih behind
        have next : place + (runLength (begins [] s) rest + 1) = place + 1 + runLength (begins [] s) rest := by omega
        simp only [Bool.not_false, Bool.true_and, if_true, next]
        rw [more]
        omega

theorem cut_eq_self (absent : ∀ reached, startsWord words (text.drop reached) = false) :
    cut words text place stop = stop := by
  rw [cut, List.find?_eq_none.mpr fun reached _ => Bool.eq_false_iff.mp (absent reached)]
  rfl

/-! ## What the pattern of names matches -/

theorem reach_namePattern : (namePattern words).reach {} (Cursor.place text place) =
    if begins words letters (text.drop place) then
      some (place + 1 + runLength (begins words wordChars) (text.drop (place + 1)))
    else none := by
  rw [reach_of_isPlain (isPlain_namePattern words), first_namePattern, Cursor.rest_place, Cursor.position_place,
    List.drop_drop]
  split
  next => rw [Option.map_some, Nat.add_assoc]
  next => rfl

/-- Names that look ahead are names up to the first word, if none starts where they do. -/
theorem reach_namePattern_cut (absent : startsWord words (text.drop place) = false) :
    (namePattern words).reach {} (Cursor.place text place) =
      ((namePattern []).reach {} (Cursor.place text place)).map (cut words text place) := by
  rw [reach_namePattern, reach_namePattern, begins, absent, begins_nil, Bool.not_false, Bool.true_and]
  split
  next =>
    have length : place + 1 + runLength (begins [] wordChars) (text.drop (place + 1)) - place =
        runLength (begins [] wordChars) (text.drop (place + 1)) + 1 := by omega
    rw [Option.map_some, cut, length, List.range'_succ, List.find?_cons, absent, find_range'_runLength]
  next => rfl

/-- What the pattern that is written for names matches at a place where no spelling starts. -/
theorem reach_guarded (absent : startsWord (spelledWords keywords) (text.drop place) = false) :
    (namePattern (guards keywords)).reach {} (Cursor.place text place) =
      if keywords = [] then none
      else ((namePattern []).reach {} (Cursor.place text place)).map (cut (spelledWords keywords) text place) := by
  rw [guards]
  split
  next => rw [reach_namePattern]; rfl
  next => exact reach_namePattern_cut absent

/-! ## Texts without spellings -/

/-- What a lexer searches is told by where its patterns reach. -/
theorem leftmostMatch_congr {patterns others : List (String × Datum)}
    (same : ∀ start ≤ text.length,
      firstReach {} patterns (Cursor.place text start) = firstReach {} others (Cursor.place text start)) :
    leftmostMatch {} patterns text place = leftmostMatch {} others text place := by
  have told (patterns : List (String × Datum)) (start : Nat) :
      ((firstMatch {} patterns (Cursor.place text start)).map fun first =>
        (⟨start, first.2.cursor.position, some first.1⟩ : Found)) =
      (firstReach {} patterns (Cursor.place text start)).map fun first => ⟨start, first.2, some first.1⟩ := by
    rw [← map_firstMatch, Option.map_map]
    rfl
  refine findSome?_congr fun start mem => ?_
  have within := List.mem_range'_1.mp mem
  exact (told patterns start).trans (same start (by omega) ▸ (told others start).symm)

/-- Where no spelling starts the first match of a table is as without the spellings, if that of names is. -/
theorem firstReach_of_absent (joinable : Joinable table) {given : String × String} (named : given ∈ table)
    (isName : given.1 = "name") (isAlone : alone? {} (given.2 : Datum) = some name)
    (absent : startsWord (spelledWords keywords) cursor.rest = false)
    (same : (namePattern (guards keywords)).reach {} cursor = name.reach {} cursor) :
    firstReach {} (asData (spelledPatterns table keywords)) cursor = firstReach {} (asData table) cursor := by
  rw [firstReach_spelled joinable.alone, firstReach, asData, List.findSome?_map]
  refine findSome?_congr fun entry listed => ?_
  rw [spelledReach]
  split
  next isName' =>
    obtain rfl := joinable.eq_of_mem listed named List.mem_cons_self (isName'.trans isName.symm ▸ List.mem_cons_self)
    have none : (addedKinds table keywords).findSome? (reachKind keywords cursor) = none := by
      rw [List.findSome?_eq_none_iff]
      intro kind _
      rw [reachKind, reachWord_of_absent absent, Option.map_none]
    simp [none, same, isAlone]
  next => simp [reachWord_of_absent absent]

/-- If the names of a table are shortened, a text without spellings has the same tokens with spellings in their places
and without. -/
theorem lex_eq_of_shortens {checked : List LexPattern} {pattern : Pattern} (flags : spec.flags = "")
    (patterns : spec.patterns = asData table) (defined : Lexer.define spec = .ok lexer)
    (defined' : Lexer.define (spelledSpec spec table keywords) = .ok { lexer with patterns := checked, pattern })
    (joinable : Joinable table) {given : String × String} (named : given ∈ table) (isName : given.1 = "name")
    (isAlone : alone? {} (given.2 : Datum) = some name)
    (shortens : Shortens (spelledWords keywords) name (namePattern (guards keywords))) {text : String}
    (absent : ∀ place ≤ text.toList.length, startsWord (spelledWords keywords) (text.toList.drop place) = false)
    (dropped : TokenKind → Bool) (endToken : Bool) :
    ({ lexer with patterns := checked, pattern } : Lexer).lex text dropped endToken =
      lexer.lex text dropped endToken := by
  have absent (place : Nat) : startsWord (spelledWords keywords) (text.toList.drop place) = false := by
    rcases Nat.le_total place text.toList.length with le | ge
    · exact absent place le
    · rw [List.drop_eq_nil_of_le ge, ← List.drop_length]
      exact absent _ (Nat.le_refl _)
  have isDefault := (checked_of_define flags patterns defined).flags
  have same (start : Nat) (le : start ≤ text.toList.length) :
      firstReach {} (asData table) (Cursor.place text.toList start) =
        firstReach {} (asData (spelledPatterns table keywords)) (Cursor.place text.toList start) := by
    refine (firstReach_of_absent joinable named isName isAlone (absent start) ?_).symm
    rw [shortens text.toList start le (absent start)]
    cases name.reach {} (Cursor.place text.toList start) with
    | none => rfl
    | some stop => rw [Option.map_some, cut_eq_self absent]
  have finds (start : Nat) (inside : start < text.toList.length) :
      lexer.ownSearcher.find text.toList start =
        ({ lexer with patterns := checked, pattern } : Lexer).ownSearcher.find text.toList start := by
    rw [find_ownSearcher defined (by rw [isDefault, patterns]; exact alone_asData joinable.alone) inside,
      find_ownSearcher defined' (by rw [isDefault]; exact alone_asData (alone_spelled joinable.alone)) inside]
    show leftmostMatch lexer.flags spec.patterns _ _ = leftmostMatch lexer.flags (asData _) _ _
    rw [isDefault, patterns]
    exact leftmostMatch_congr same
  have steps : Splits { lexer with patterns := checked, pattern }
      ({ lexer with patterns := checked, pattern } : Lexer).ownSearcher (fun _ => false) text.toList 0
      (lexer.tile text) :=
    (splits_tile lexer text).of_steps fun start inside => by
      rw [stepBy, stepBy, finds start inside]
      rfl
  have tiles := (splits_tile { lexer with patterns := checked, pattern } text).unique steps
  rw [lex, lex, tiles]

/-! ## When names are shortened -/

/-- What is written for names matches, where no spelling starts, what the given pattern of names matches, up to the
first spelling: there are spellings and the given pattern agrees with a letter and word characters, or it matches
nothing. -/
def WritesNames (keywords : List (String × TokenKind)) (name : Pattern) : Prop :=
  ∀ (text : List Char) (place : Nat), place ≤ text.length →
    startsWord (spelledWords keywords) (text.drop place) = false →
    (name.reach {} (Cursor.place text place)).map (cut (spelledWords keywords) text place) =
      if keywords = [] then none
      else ((namePattern []).reach {} (Cursor.place text place)).map (cut (spelledWords keywords) text place)

theorem shortens_iff : Shortens (spelledWords keywords) name (namePattern (guards keywords)) ↔
    WritesNames keywords name := by
  refine forall₄_congr fun text place _ absent => ?_
  rw [reach_guarded absent]
  exact eq_comm

/-- Without spellings nothing is a name. -/
theorem writesNames_nil_iff : WritesNames [] name ↔
    ∀ (text : List Char) (place : Nat), place ≤ text.length → name.reach {} (Cursor.place text place) = none := by
  refine forall₃_congr fun text place _ => ?_
  rw [if_pos rfl, Option.map_eq_none_iff]
  exact ⟨fun never => never rfl, fun never _ => never⟩

/-- A letter and word characters are what is written for names, if there are spellings. -/
theorem writesNames_letters_iff : WritesNames keywords (namePattern []) ↔ keywords ≠ [] := by
  constructor
  · rintro writes rfl
    have never := writesNames_nil_iff.mp writes ['a'] 0 (Nat.zero_le _)
    rw [reach_namePattern] at never
    exact absurd never (by decide)
  · intro nonempty text place _ _
    rw [if_neg nonempty]

/-- In a table of texts that are in the language and are patterns by themselves, the pattern that is written for names
takes the place of the given one exactly if it is a pattern for such names. Then texts without spellings have the tokens
that they had before. -/
theorem spellings_shorten_names_iff (flags : spec.flags = "") (patterns : spec.patterns = asData table)
    (defined : Lexer.define spec = .ok lexer) (language : InLanguage {} (asData table))
    (standing : StandAlone {} (asData table)) {given : String} (named : ("name", given) ∈ table)
    (placeable : Placeable table keywords) :
    ∃ name name' lexer', alone? {} (given : Datum) = some name ∧
      ("name", Spelling.namePattern (longestFirst keywords)) ∈ spelledPatterns table keywords ∧
      alone? {} (Spelling.namePattern (longestFirst keywords) : Datum) = some name' ∧
      Lexer.define (spelledSpec spec table keywords) = .ok lexer' ∧
      (Shortens (spelledWords keywords) name name' ↔ WritesNames keywords name) ∧
      (given = "[^\\W\\d]\\w*" → (Shortens (spelledWords keywords) name name' ↔ keywords ≠ [])) ∧
      (Shortens (spelledWords keywords) name name' → ∀ text : String,
        (∀ place ≤ text.toList.length, startsWord (spelledWords keywords) (text.toList.drop place) = false) →
        ∀ dropped endToken, lexer'.lex text dropped endToken = lexer.lex text dropped endToken) := by
  have alone := alone_of_asData language standing
  have checked := checked_of_define flags patterns defined
  have joinable := checked.joinable alone
  obtain ⟨_, pattern, spelled⟩ := checked.spelled joinable placeable
  have defined' := spelled.define flags rfl
  obtain ⟨name, isAlone⟩ := Option.isSome_iff_exists.mp (alone _ named)
  refine ⟨name, namePattern (guards keywords), _, isAlone, ?_, alone_namePattern keywords, defined', shortens_iff,
    fun isLetters => ?_, fun shortens text absent dropped endToken => ?_⟩
  · exact List.mem_flatMap.mpr ⟨_, named, by simp⟩
  · have letters : alone? {} ("[^\\W\\d]\\w*" : String) = some (namePattern []) := by decide +kernel
    obtain rfl := Option.some.inj (letters.symm.trans (isLetters ▸ isAlone))
    rw [shortens_iff, writesNames_letters_iff]
  · exact lex_eq_of_shortens flags patterns defined defined' joinable named rfl isAlone shortens absent dropped endToken

/-- A table of names and a sign. -/
def plainTable : List (String × String) := [("name", "[^\\W\\d]\\w*"), ("plus", "\\+")]

/-- A definition by a table alone. -/
def plainSpec : LexerSpec := { patterns := asData plainTable }

theorem exists_define_plain : ∃ lexer, Lexer.define plainSpec = .ok lexer := by
  have checked : (Lexer.define plainSpec).toOption.isSome = true := by decide +kernel
  obtain ⟨lexer, made⟩ := Option.isSome_iff_exists.mp checked
  exact ⟨lexer, eq_ok_of_toOption made⟩

theorem inLanguage_plain : InLanguage {} (asData plainTable) ∧ StandAlone {} (asData plainTable) := by
  have alone : ∀ entry ∈ plainTable, (alone? {} (entry.2 : Datum)).isSome = true := by decide +kernel
  obtain ⟨lexer, defined⟩ := exists_define_plain
  have flags := (checked_of_define rfl rfl defined).flags
  exact flags ▸ inLanguage_of_define defined (flags ▸ alone_asData alone)

/-- A spelling of `plus` ends names, and texts without it are as before. -/
theorem spelledPlus_shortens : ∃ lexer lexer', Lexer.define plainSpec = .ok lexer ∧
    Lexer.define (spelledSpec plainSpec plainTable [("与", "plus")]) = .ok lexer' ∧
    ∃ name name', alone? {} ("[^\\W\\d]\\w*" : String) = some name ∧
      alone? {} (Spelling.namePattern [("与", "plus")] : Datum) = some name' ∧
      Shortens (spelledWords [("与", "plus")]) name name' ∧
      ∀ dropped endToken, lexer'.lex "a+b" dropped endToken = lexer.lex "a+b" dropped endToken := by
  obtain ⟨lexer, defined⟩ := exists_define_plain
  have placeable : Placeable plainTable [("与", "plus")] := by
    intro keyword mem
    obtain rfl := List.mem_singleton.mp mem
    exact .inl (by decide)
  obtain ⟨name, name', lexer', isAlone, -, isAlone', defined', -, isLetters, same⟩ :=
    spellings_shorten_names_iff rfl rfl defined inLanguage_plain.1 inLanguage_plain.2 List.mem_cons_self placeable
  have shortens := (isLetters rfl).mpr (List.cons_ne_nil _ _)
  exact ⟨lexer, lexer', defined, defined', name, name', isAlone, isAlone', shortens,
    same shortens "a+b" (by decide +kernel)⟩

/-- With no spellings the pattern that is written for names never matches, and a name becomes invalid. -/
theorem withoutSpellings_invalid : ∃ lexer lexer', Lexer.define plainSpec = .ok lexer ∧
    Lexer.define (spelledSpec plainSpec plainTable []) = .ok lexer' ∧
    (lexer.lex "a" fun _ => false).tokens.map (·.kind) = ["name"] ∧
    (lexer'.lex "a" fun _ => false).tokens.map (·.kind) = [Token.invalid] := by
  have checked : (Lexer.define plainSpec).toOption.any (fun lexer =>
      (lexer.lex "a" fun _ => false).tokens.map (·.kind) = ["name"]) = true := by decide +kernel
  have checked' : (Lexer.define (spelledSpec plainSpec plainTable [])).toOption.any (fun lexer =>
      (lexer.lex "a" fun _ => false).tokens.map (·.kind) = [Token.invalid]) = true := by decide +kernel
  obtain ⟨lexer, made, kinds⟩ := (Option.any_eq_true _ _).mp checked
  obtain ⟨lexer', made', kinds'⟩ := (Option.any_eq_true _ _).mp checked'
  exact ⟨lexer, lexer', eq_ok_of_toOption made, eq_ok_of_toOption made', of_decide_eq_true kinds,
    of_decide_eq_true kinds'⟩

end Script

end Grammatic
