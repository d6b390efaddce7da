import Mathlib.Data.List.Perm.Basic
import Grammatic.Proofs.Pattern.Writing
import Grammatic.Proofs.Script.Table

/-!
# Tables of spelled keywords

What the texts of a table come to when the spellings of a keyword table get their places in it. If each text of the
table is a pattern by itself, then so is each text of the new one: a pattern that spellings join matches as before, and
otherwise as one of the spellings; what is added matches as one of its spellings; and a name is a run of word
characters that ends where a spelling starts (`firstReach_spelled`). Without any spellings the text of the look ahead
is empty, so that names never match.
-/

namespace Grammatic

namespace Pattern

variable {flags : Flags} {p : Pattern} {cursor : Cursor} {words : List (List Char)}

/-- Where the match of a pattern at a place ends. -/
def reach (flags : Flags) (p : Pattern) (cursor : Cursor) : Option Nat :=
  (p.matchAt flags cursor).map (·.cursor.position)

/-- Where the first of some words that stands at a place ends. -/
def reachWord (words : List (List Char)) (cursor : Cursor) : Option Nat :=
  (words.find? (·.isPrefixOf cursor.rest)).map (cursor.position + ·.length)

/-- The first of the named patterns that matches at a place by itself: its name, and where the match ends. -/
def firstReach (flags : Flags) (patterns : List (String × Datum)) (cursor : Cursor) : Option (String × Nat) :=
  patterns.findSome? fun (name, value) => ((alone? flags value).bind (·.reach flags cursor)).map (name, ·)

theorem map_firstMatch (patterns : List (String × Datum)) :
    (firstMatch flags patterns cursor).map (fun (name, found) => (name, found.cursor.position)) =
      firstReach flags patterns cursor := by
  rw [firstMatch, List.map_findSome?]
  refine congrArg (List.findSome? · patterns) (funext fun entry => ?_)
  cases isAlone : alone? flags entry.2 <;> simp [isAlone, reach, Function.comp_def]

theorem isPlain_word (chars : List Char) : (word chars).isPlain = true := by
  induction chars with
  | nil => rfl
  | cons c chars ih =>
    cases chars with
    | nil => rfl
    | cons d chars => exact ih

theorem isPlain_words (words : List (List Char)) : (choice (words.map word)).isPlain = true := by
  induction words with
  | nil => rfl
  | cons w words ih =>
    cases words with
    | nil => exact isPlain_word w
    | cons w' words =>
      show ((word w).isPlain && (choice ((w' :: words).map word)).isPlain) = true
      rw [isPlain_word, ih]
      rfl

theorem reach_of_isPlain (plain : p.isPlain = true) :
    p.reach flags cursor = (p.first flags cursor.rest).map (cursor.position + ·) := by
  rw [reach, matchAt_eq plain, Option.map_map]
  rfl

theorem reach_words : (choice (words.map word)).reach {} cursor = reachWord words cursor := by
  rw [reach_of_isPlain (isPlain_words words), reachWord, first, lengths_choice, List.flatMap_map]
  induction words with
  | nil => rfl
  | cons w words ih =>
    rw [List.flatMap_cons, lengths_word, List.find?_cons]
    cases starts : w.isPrefixOf cursor.rest with
    | true => rfl
    | false => simpa using ih

theorem reachWord_eq_none (absent : startsWord words cursor.rest = false) : reachWord words cursor = none := by
  rw [reachWord, Option.map_eq_none_iff, List.find?_eq_none]
  exact fun w mem => List.any_eq_false.mp absent w mem

/-! ## Written texts -/

theorem exists_read_of_alone {text : String} (isAlone : alone? flags (text : Datum) = some p) :
    ∃ names, Pattern.read flags text = .ok (p, names) := by
  obtain ⟨⟨found, names⟩, read, rfl⟩ := Option.map_eq_some_iff.mp isAlone
  exact ⟨names, eq_ok_of_toOption read⟩

theorem alone_of_read {text : String} {names : GroupNames} (read : Pattern.read flags text = .ok (p, names)) :
    alone? flags (text : Datum) = some p := by
  show (Pattern.read flags text).toOption.map (·.1) = some p
  rw [read]
  rfl

/-- A pattern that words join matches as before, and otherwise as one of the words. -/
theorem exists_alone_alternatives {text : String} (isAlone : alone? {} (text : Datum) = some p) (texts : List String) :
    ∃ q, alone? {} (Spelling.alternatives (text :: texts.map Spelling.patternText) : Datum) = some q ∧
      q.groupNames = p.groupNames ∧
      ∀ cursor, q.reach {} cursor = (p.reach {} cursor).or (reachWord (texts.map String.toList) cursor) := by
  obtain ⟨names, read⟩ := exists_read_of_alone isAlone
  obtain ⟨q, read', runs⟩ := exists_read_alternatives rfl rfl read texts
  refine ⟨q, alone_of_read read', ?_, fun cursor => ?_⟩
  · rw [(groupNames_of_read read').1, (groupNames_of_read read).1]
  · rw [← reach_words, reach, reach, reach, matchAt, runs]
    cases ran : p.run {} some ⟨cursor, none⟩ <;> simp [matchAt, ran]

/-- What words are written as matches as one of them. -/
theorem alone_alternatives {texts : List String} (nonempty : texts ≠ []) :
    alone? {} (Spelling.alternatives (texts.map Spelling.patternText) : Datum) =
      some (choice ((texts.map String.toList).map word)) := by
  obtain ⟨before, final, readable, same⟩ := exists_readable_alternatives {} nonempty
  rw [← same]
  exact alone_of_read (readable.read List.nodup_nil (same ▸ lawful_words rfl _))

end Pattern

namespace Script

open Pattern Lexer Spelling

variable {table : List (String × String)} {keywords : List (String × TokenKind)} {kind : TokenKind} {p : Pattern}

/-! ## Spellings -/

theorem perm_placeByLength (spelling : String × TokenKind) (spellings : List (String × TokenKind)) :
    (placeByLength spelling spellings).Perm (spelling :: spellings) := by
  induction spellings with
  | nil => exact .refl _
  | cons other rest ih =>
    rw [placeByLength]
    split
    next => exact .refl _
    next => exact (ih.cons other).trans (.swap spelling other rest)

theorem perm_longestFirst (keywords : List (String × TokenKind)) : (longestFirst keywords).Perm keywords := by
  induction keywords with
  | nil => exact .refl _
  | cons keyword keywords ih => exact (perm_placeByLength keyword _).trans (ih.cons keyword)

/-- The words that are the spellings of a keyword table, the longest first. -/
def spelledWords (keywords : List (String × TokenKind)) : List (List Char) :=
  (longestFirst keywords).map (·.1.toList)

/-- The words that are the spellings of a kind, the longest first. -/
def wordsOfKind (keywords : List (String × TokenKind)) (kind : TokenKind) : List (List Char) :=
  ((longestFirst keywords).filter (·.2 = kind)).map (·.1.toList)

/-- The words that end a name. Without any spellings the text of the look ahead is empty, and so is the word, which
starts everywhere. -/
def guards (keywords : List (String × TokenKind)) : List (List Char) :=
  if keywords = [] then [[]] else spelledWords keywords

theorem longestFirst_ne_nil (nonempty : keywords ≠ []) : longestFirst keywords ≠ [] := fun none =>
  nonempty (List.Perm.nil_eq (none ▸ perm_longestFirst keywords)).symm

theorem guards_ne_nil : guards keywords ≠ [] := by
  rw [guards]
  split
  next => exact List.cons_ne_nil _ _
  next nonempty =>
    rw [spelledWords, ne_eq, List.map_eq_nil_iff]
    exact longestFirst_ne_nil nonempty

theorem wordsOfKind_subset : wordsOfKind keywords kind ⊆ spelledWords keywords := by
  intro w mem
  obtain ⟨keyword, listed, rfl⟩ := List.mem_map.mp mem
  exact List.mem_map_of_mem (List.mem_of_mem_filter listed)

theorem reachWord_of_absent {cursor : Cursor} (absent : startsWord (spelledWords keywords) cursor.rest = false) :
    reachWord (wordsOfKind keywords kind) cursor = none :=
  reachWord_eq_none (List.any_eq_false.mpr fun w mem => List.any_eq_false.mp absent w (wordsOfKind_subset mem))

/-! ## The pattern of names -/

theorem isPlain_namePattern (words : List (List Char)) : (namePattern words).isPlain = true := by
  have isPlain (s : CharSet) : (guarded words s).isPlain = true := by
    rw [guarded]
    split
    next => rfl
    next =>
      show ((Pattern.choice (words.map word)).isPlain && true) = true
      rw [isPlain_words]
      rfl
  show ((guarded words letters).isPlain && (guarded words wordChars).isPlain) = true
  rw [isPlain, isPlain]
  rfl

section Names

variable {done : List Pattern} {last : Option Piece} {look : List Char} {before : List Pattern} {final : Pattern}

/-- A set is read as the last piece of a text. -/
theorem readable_letters : Readable {} done last "[^\\W\\d]".toList []
    (Pattern.sequence ((closed done last).reverse ++ [.set letters])) [] := by
  have read : readSet "^\\W\\d]".toList = .ok (.set letters, []) := rfl
  obtain ⟨taken, whole, again⟩ := local_readSet read
  obtain rfl : "^\\W\\d]".toList = taken := by simpa using whole
  have pieces : Pattern.sequence ((closed done last).reverse ++ [.set letters]) =
      sequenceOf (closed done last) (some (.plain (.set letters))) := by
    simp [sequenceOf, Piece.pattern]
  rw [pieces]
  show Readable {} done last ('[' :: ("^\\W\\d]".toList ++ [])) _ _ _
  exact .set (fun border => again (.borders .ended border)) .nil

theorem readable_wordChars : Readable {} done last "\\w".toList []
    (Pattern.sequence ((closed done last).reverse ++ [.set wordChars])) [] := by
  have pieces : Pattern.sequence ((closed done last).reverse ++ [.set wordChars]) =
      sequenceOf (closed done last) (some (.plain (.set wordChars))) := by
    simp [sequenceOf, Piece.pattern]
  rw [pieces]
  show Readable {} done last ('\\' :: 'w' :: ([] ++ [])) _ _ _
  exact .escape (fun _ => rfl) .nil

/-- A character that is guarded by a look ahead, as a text. -/
def guardedText (look chars : List Char) : List Char :=
  '(' :: (['?', ':'] ++ ('(' :: (['?', '!'] ++ (look ++ ')' :: chars)) ++ [')']))

/-- A guarded character is read as a group with a look ahead, behind which the reading goes on. -/
theorem Readable.guarded {chars taken : List Char} {s : CharSet} {before' : List Pattern} {final' : Pattern}
    (within : Readable {} [] none look before final [])
    (isSet : ∀ {done last},
      Readable {} done last chars [] (Pattern.sequence ((closed done last).reverse ++ [.set s])) [])
    (more : Readable {} (closed done last) (some (.plain (.seq (.ahead false (alternation before final)) (.set s))))
      taken before' final' []) :
    Readable {} done last (guardedText look chars ++ taken) before' final' [] := by
  have opensAhead {tail : List Char} {names : GroupNames} (_ : Borders tail)
      (_ : ∀ name ∈ (GroupHead.ahead false).own, name ∉ names) :
      readGroupHead names (['?', '!'] ++ (look ++ ')' :: (chars ++ tail))) =
        .ok (.ahead false, look ++ ')' :: (chars ++ tail)) := rfl
  have inner : Readable {} [] none ('(' :: (['?', '!'] ++ (look ++ ')' :: chars))) []
      (.seq (.ahead false (alternation before final)) (.set s)) [] := .group opensAhead nofun within isSet
  have opens {tail : List Char} {names : GroupNames} (_ : Borders tail)
      (_ : ∀ name ∈ GroupHead.plain.own, name ∉ names) :
      readGroupHead names (['?', ':'] ++ ('(' :: (['?', '!'] ++ (look ++ ')' :: chars)) ++ ')' :: (taken ++ tail))) =
        .ok (.plain, '(' :: (['?', '!'] ++ (look ++ ')' :: chars)) ++ ')' :: (taken ++ tail)) := rfl
  have whole := Readable.group opens nofun inner more
  simpa [guardedText, GroupHead.own] using whole

/-- The text of names that look ahead is read as a guarded letter and a run of guarded characters. -/
theorem readable_namePattern (within : Readable {} [] none look before final []) :
    Readable {} [] none (guardedText look "[^\\W\\d]".toList ++ (guardedText look "\\w".toList ++ ['*'])) []
      (.seq (.seq (.ahead false (alternation before final)) (.set letters))
        (.repeated true 0 none (.seq (.ahead false (alternation before final)) (.set wordChars)))) [] := by
  let guard (s : CharSet) : Pattern := .seq (.ahead false (alternation before final)) (.set s)
  have ends : Readable {} [guard letters] (some (.repetition (.repeated true 0 none (guard wordChars)))) [] []
      (.seq (guard letters) (.repeated true 0 none (guard wordChars))) [] := .nil
  have star : Readable {} [guard letters] (some (.plain (guard wordChars))) ['*'] []
      (.seq (guard letters) (.repeated true 0 none (guard wordChars))) [] := by
    show Readable {} _ _ ('*' :: ([] ++ ([] ++ []))) _ _ _
    refine .repetition (by simp [Ordinary]) ⟨rfl, by simp⟩ (fun _ => rfl) (fun border => ?_) ends
    cases border <;> rfl
  exact Readable.guarded within readable_letters (Readable.guarded within readable_wordChars star)

/-- Names that look ahead for words are lawful. -/
theorem lawful_namePattern (words : List (List Char)) :
    Lawful {} (alternation [] (.seq (.seq (.ahead false (Pattern.choice (words.map word))) (.set letters))
      (.repeated true 0 none (.seq (.ahead false (Pattern.choice (words.map word))) (.set wordChars))))) := by
  have lawful : Lawful {} (Pattern.choice (words.map word)) := lawful_words rfl words
  have guard (s : CharSet) (supported : (Pattern.set s).isSupported {} = true) :
      Lawful {} (.seq (.ahead false (Pattern.choice (words.map word))) (.set s)) :=
    .seq ⟨lawful.looks, lawful.supported⟩ ⟨rfl, supported⟩
  have rounds := guard wordChars rfl
  exact (guard letters rfl).seq ⟨rounds.looks, rounds.supported⟩

/-- The text of the pattern of names is read as names that end where a spelling starts. -/
theorem alone_namePattern (keywords : List (String × TokenKind)) :
    alone? {} (Spelling.namePattern (longestFirst keywords) : Datum) = some (namePattern (guards keywords)) := by
  have text (spellings : List (String × TokenKind)) :
      (Spelling.namePattern spellings).toList =
        guardedText (alternatives (spellings.map fun s => patternText s.1)).toList "[^\\W\\d]".toList ++
          (guardedText (alternatives (spellings.map fun s => patternText s.1)).toList "\\w".toList ++ ['*']) := by
    simp [Spelling.namePattern, guardedText]
  have whole {before : List Pattern} {final : Pattern}
      (within : Readable {} [] none
        (alternatives ((longestFirst keywords).map fun s => patternText s.1)).toList before final [])
      (same : alternation before final = Pattern.choice ((guards keywords).map word)) :
      alone? {} (Spelling.namePattern (longestFirst keywords) : Datum) = some (namePattern (guards keywords)) := by
    have readable := readable_namePattern within
    rw [← text, same] at readable
    rw [namePattern, guarded, guarded, if_neg guards_ne_nil, if_neg guards_ne_nil]
    exact alone_of_read (readable.read List.nodup_nil (lawful_namePattern _))
  by_cases empty : keywords = []
  · subst empty
    exact whole .nil rfl
  · have nonempty : (longestFirst keywords).map (·.1) ≠ [] := by
      rw [ne_eq, List.map_eq_nil_iff]
      exact longestFirst_ne_nil empty
    obtain ⟨before, final, readable, same⟩ := exists_readable_alternatives {} nonempty
    rw [List.map_map] at readable
    refine whole readable (same.trans ?_)
    simp only [guards, if_neg empty, spelledWords, List.map_map, Function.comp_def]

end Names

/-! ## What the texts of the table match -/

/-- The texts of a table as data. -/
def asData (table : List (String × String)) : List (String × Datum) :=
  table.map fun (kind, text) => (kind, (text : Datum))

/-- The kinds of spellings that have no place in a table, in the order of their longest spellings. -/
def addedKinds (table : List (String × String)) (keywords : List (String × TokenKind)) : List TokenKind :=
  (kindsOf (longestFirst keywords)).filter (· ∉ table.map (·.1))

/-- Where the first spelling of a kind that stands at a place ends, with the kind. -/
def reachKind (keywords : List (String × TokenKind)) (cursor : Cursor) (kind : TokenKind) : Option (String × Nat) :=
  (reachWord (wordsOfKind keywords kind) cursor).map (kind, ·)

/-- What an entry of a table matches once the spellings have their places: spellings of kinds without one come before
names, and others join the entry of their kind. -/
def spelledReach (table : List (String × String)) (keywords : List (String × TokenKind)) (cursor : Cursor)
    (entry : String × String) : Option (String × Nat) :=
  if entry.1 = "name" then
    ((addedKinds table keywords).findSome? (reachKind keywords cursor)).or
      (((namePattern (guards keywords)).reach {} cursor).map (entry.1, ·))
  else
    (((alone? {} (entry.2 : Datum)).bind (·.reach {} cursor)).or (reachWord (wordsOfKind keywords entry.1) cursor)).map
      (entry.1, ·)

theorem patternsOfKind_eq : patternsOfKind (longestFirst keywords) kind =
    (((longestFirst keywords).filter (·.2 = kind)).map (·.1)).map patternText := by
  rw [patternsOfKind, List.map_map]
  rfl

theorem wordsOfKind_eq : wordsOfKind keywords kind =
    (((longestFirst keywords).filter (·.2 = kind)).map (·.1)).map String.toList := by
  rw [wordsOfKind, List.map_map]
  rfl

theorem exists_of_mem_addedKinds (mem : kind ∈ addedKinds table keywords) :
    kind ∉ table.map (·.1) ∧ ∃ keyword ∈ keywords, keyword.2 = kind := by
  obtain ⟨listed, new⟩ := List.mem_filter.mp mem
  obtain ⟨keyword, mem, isKind⟩ := List.mem_map.mp (List.mem_eraseDups.mp listed)
  exact ⟨of_decide_eq_true new, keyword, (perm_longestFirst keywords).mem_iff.mp mem, isKind⟩

/-- The text that is added for a kind is a choice of its spellings. -/
theorem alone_added (mem : kind ∈ addedKinds table keywords) :
    alone? {} (alternatives (patternsOfKind (longestFirst keywords) kind) : Datum) =
      some (Pattern.choice ((wordsOfKind keywords kind).map word)) := by
  obtain ⟨-, keyword, listed, isKind⟩ := exists_of_mem_addedKinds mem
  have spelled : keyword ∈ (longestFirst keywords).filter (·.2 = kind) :=
    List.mem_filter.mpr ⟨(perm_longestFirst keywords).mem_iff.mpr listed, decide_eq_true isKind⟩
  rw [patternsOfKind_eq, wordsOfKind_eq]
  exact alone_alternatives (List.ne_nil_of_mem (List.mem_map_of_mem spelled))

/-- At each place the first match of the table with its spellings is told by the table and the spellings. -/
theorem firstReach_spelled (alone : ∀ entry ∈ table, (alone? {} (entry.2 : Datum)).isSome = true) (cursor : Cursor) :
    firstReach {} (asData (spelledPatterns table keywords)) cursor =
      table.findSome? (spelledReach table keywords cursor) := by
  rw [firstReach, asData, List.findSome?_map, spelledPatterns, findSome?_flatMap]
  refine findSome?_congr fun entry listed => ?_
  dsimp only
  rw [spelledReach]
  split
  next isName =>
    rw [List.findSome?_append, List.findSome?_map]
    refine congrArg₂ Option.or (findSome?_congr fun kind mem => ?_) ?_
    · simp [alone_added mem, reachKind, reach_words]
    · simp [alone_namePattern]
  next =>
    obtain ⟨p, isAlone⟩ := Option.isSome_iff_exists.mp (alone entry listed)
    obtain ⟨q, isAlone', -, reaches⟩ :=
      exists_alone_alternatives isAlone (((longestFirst keywords).filter (·.2 = entry.1)).map (·.1))
    rw [← patternsOfKind_eq] at isAlone'
    simp [isAlone, isAlone', reaches, wordsOfKind_eq]

end Script

end Grammatic
