import Grammatic.Proofs.Lexer.Scanning
import Grammatic.Proofs.Lexer.Tiling
import Grammatic.Proofs.Pattern.Preference
import Grammatic.Proofs.Pattern.Reading

/-!
# The joined pattern

A lexer pastes the texts of its patterns into groups and joins the groups with bars. If each text is a pattern by
itself, then the joined text is the choice of these patterns in their order (`define_pattern`), so lexing takes
the leftmost place at which one of them matches, and there the first of them (`lexing_is_ordered_choice`).

The check of a definition reads each text inside its group only, and a text that closes the group and opens
another one passes it without being a pattern. Then the lexer can fail on a match that has no name
(`straddling_fails`), or give a kind that it does not know.
-/

namespace Grammatic

namespace Pattern

variable {flags : Flags} {text : List Char} {name : String} {p q : Pattern} {names : GroupNames}

/-- What is read by itself is read with nothing left. -/
theorem reads_of_read {text : String} (read : Pattern.read flags text = .ok (p, names)) :
    Reads flags [] none text.toList p [] :=
  reads_of_readAlternatives (readAlternatives_of_read read).1

/-- A text in a group with a name. -/
def enclosed (name : String) (text : List Char) : List Char :=
  '(' :: '?' :: 'P' :: '<' :: (name.toList ++ '>' :: (text ++ [')']))

/-- Behind the opening of a group with a name its inner alternatives are read, and then what follows it. -/
theorem Reads.enclosed_cases {more rest : List Char} (inside : '>' ∉ name.toList)
    (reads : Reads flags [] none (enclosed name text ++ more) q rest) :
    ∃ inner behind, Reads flags [] none (text ++ ')' :: more) inner (')' :: behind) ∧
      Reads flags [] (some (.plain (.group (some name) inner))) behind q rest := by
  have opened : enclosed name text ++ more =
      '(' :: '?' :: 'P' :: '<' :: (name.toList ++ '>' :: (text ++ ')' :: more)) := by simp [enclosed]
  rw [opened] at reads
  cases reads with
  | done stops => cases stops
  | remark read => cases (readGroupHead_named inside read).1
  | group read _ within more =>
    obtain ⟨rfl, rfl⟩ := readGroupHead_named inside read
    rw [String.ofList_toList] at more
    exact ⟨_, _, within, more⟩
  | blank ordinary | repetition ordinary | literal ordinary => simp [Ordinary] at ordinary

/-- A text that is a pattern by itself, and can be read in its group. -/
structure Encloses (flags : Flags) (name : String) (text : List Char) (p : Pattern) : Prop where
  inside : '>' ∉ name.toList
  alone : Reads flags [] none text p []
  lawful : Lawful flags p
  wrapped : ∃ q, Reads flags [] none (enclosed name text) q []

/-- In its group the text is read as by itself: no comment can have taken the parenthesis along. -/
theorem Encloses.closes (encloses : Encloses flags name text p) : Reads flags [] none (text ++ [')']) p [')'] := by
  obtain ⟨whole, wrapped⟩ := encloses.wrapped
  rw [← List.append_nil (enclosed name text)] at wrapped
  obtain ⟨inner, behind, within, -⟩ := wrapped.enclosed_cases encloses.inside
  obtain ⟨taken, same, agrees⟩ := encloses.alone.agree
  obtain rfl : text = taken := by simpa using same
  rcases agrees .closed (fun _ => rfl) within with ⟨rfl, rest⟩ | ⟨-, none⟩
  · rwa [rest] at within
  · cases none

/-- The same is read in the group, whatever stands behind the group. -/
theorem Encloses.reads {more rest : List Char} (encloses : Encloses flags name text p)
    (reads : Reads flags [] none (enclosed name text ++ more) q rest) :
    Reads flags [] (some (.plain (.group (some name) p))) more q rest := by
  obtain ⟨inner, behind, within, more⟩ := reads.enclosed_cases encloses.inside
  obtain ⟨taken, same, agrees⟩ := encloses.closes.agree
  obtain rfl : text = taken := List.append_cancel_right same
  rcases agrees .closed nofun within with ⟨rfl, rest⟩ | ⟨none, -⟩
  · obtain rfl := (List.cons.inj rest).2
    exact more
  · cases none

/-- Texts in groups with names, joined with bars. -/
def joinedGroups (entries : List (String × List Char × Pattern)) : List Char :=
  ['|'].intercalate (entries.map fun entry => enclosed entry.1 entry.2.1)

theorem joinedGroups_singleton (entry : String × List Char × Pattern) :
    joinedGroups [entry] = enclosed entry.1 entry.2.1 := by
  simp [joinedGroups, List.intercalate_singleton]

theorem joinedGroups_cons (entry second : String × List Char × Pattern)
    (entries : List (String × List Char × Pattern)) : joinedGroups (entry :: second :: entries) =
      enclosed entry.1 entry.2.1 ++ '|' :: joinedGroups (second :: entries) := by
  simp [joinedGroups, List.intercalate_cons_cons]

/-- Groups that are joined with bars are a choice. -/
theorem Reads.joined {entries : List (String × List Char × Pattern)}
    (each : ∀ entry ∈ entries, Encloses flags entry.1 entry.2.1 entry.2.2) (nonempty : entries ≠ [])
    (reads : Reads flags [] none (joinedGroups entries) q []) :
    q = choice (entries.map fun entry => .group (some entry.1) entry.2.2) := by
  induction entries generalizing q with
  | nil => exact absurd rfl nonempty
  | cons entry entries ih =>
    have first := each entry List.mem_cons_self
    cases entries with
    | nil =>
      rw [joinedGroups_singleton, ← List.append_nil (enclosed _ _)] at reads
      cases first.reads reads
      rfl
    | cons second entries =>
      rw [joinedGroups_cons] at reads
      cases first.reads reads with
      | bar others =>
        rw [ih (fun other mem => each other (List.mem_cons_of_mem _ mem)) (List.cons_ne_nil _ _) others]
        rfl
      | blank ordinary | repetition ordinary | literal ordinary => simp [Ordinary] at ordinary

/-! ## What a definition is about -/

/-- The pattern that a piece of data is by itself, if it is the text of one. -/
def alone? (flags : Flags) (value : Datum) : Option Pattern :=
  value.text?.bind fun text => (Pattern.read flags text).toOption.map (·.1)

/-- The first of the named patterns that matches at a place by itself: its name, and the match. -/
def firstMatch (flags : Flags) (patterns : List (String × Datum)) (cursor : Cursor) : Option (String × Match) :=
  patterns.findSome? fun (name, value) =>
    ((alone? flags value).bind fun p => p.matchAt flags cursor).map fun found => (name, found)

/-- The leftmost place from a place on at which one of the named patterns matches, and there the match of the
first of them, under its name. -/
def leftmostMatch (flags : Flags) (patterns : List (String × Datum)) (text : List Char) (place : Nat) :
    Option Found :=
  (List.range' place (text.length + 1 - place)).findSome? fun start =>
    (firstMatch flags patterns (Cursor.place text start)).map fun (name, found) =>
      ⟨start, found.cursor.position, some name⟩

/-- Searching for the leftmost match of the first pattern. -/
def orderedChoice (flags : Flags) (patterns : List (String × Datum)) : Searcher where
  find := leftmostMatch flags patterns
  within {text place found} le isFound := by
    obtain ⟨start, mem, matched⟩ := List.exists_of_findSome?_eq_some isFound
    obtain ⟨⟨name, first⟩, isFirst, rfl⟩ := Option.map_eq_some_iff.mp matched
    obtain ⟨⟨_, value⟩, -, named⟩ := List.exists_of_findSome?_eq_some isFirst
    obtain ⟨_, here, same⟩ := Option.map_eq_some_iff.mp named
    obtain ⟨rfl, rfl⟩ := Prod.mk.inj same
    obtain ⟨p, -, here⟩ := Option.bind_eq_some_iff.mp here
    have := position_of_matchAt here
    simp only [List.mem_range'_1, Cursor.position_place, Cursor.rest_place, List.length_drop] at mem this ⊢
    omega

/-- What is found has the name of a pattern of the table. -/
theorem exists_of_leftmostMatch {flags : Flags} {patterns : List (String × Datum)} {text : List Char}
    {place : Nat} {found : Found} (isFound : leftmostMatch flags patterns text place = some found) :
    ∃ name ∈ patterns.map (·.1), found.label = some name := by
  obtain ⟨start, -, matched⟩ := List.exists_of_findSome?_eq_some isFound
  obtain ⟨⟨name, first⟩, isFirst, rfl⟩ := Option.map_eq_some_iff.mp matched
  obtain ⟨⟨name', value⟩, mem, named⟩ := List.exists_of_findSome?_eq_some isFirst
  obtain ⟨_, -, same⟩ := Option.map_eq_some_iff.mp named
  obtain ⟨rfl, rfl⟩ := Prod.mk.inj same
  exact ⟨name', List.mem_map_of_mem mem, rfl⟩

/-- Each of the groups of a table matches as the pattern in it. -/
theorem findSome?_groups {flags : Flags} {patterns : List (String × Datum)}
    (alone : ∀ entry ∈ patterns, (alone? flags entry.2).isSome = true) (cursor : Cursor) :
    patterns.findSome? ((fun p => p.matchAt flags cursor) ∘ fun entry =>
        group (some entry.1) ((alone? flags entry.2).getD .empty)) =
      (firstMatch flags patterns cursor).map fun (name, found) => ⟨found.cursor, some name⟩ := by
  rw [firstMatch]
  induction patterns with
  | nil => rfl
  | cons entry rest ih =>
    obtain ⟨p, isAlone⟩ := Option.isSome_iff_exists.mp (alone entry List.mem_cons_self)
    rw [List.findSome?_cons, List.findSome?_cons, ih fun other mem => alone other (List.mem_cons_of_mem _ mem)]
    simp only [Function.comp_def, matchAt_group, isAlone, Option.getD_some, Option.bind_some]
    cases p.matchAt flags cursor <;> rfl

/-- A search tries the places of a text in their order. -/
theorem search_place {α : Type} {flags : Flags} {p : Pattern} {text : List Char} {place : Nat}
    (le : place ≤ text.length) (told : Nat → Match → α) :
    (p.search flags (Cursor.place text place)).map (fun (skipped, found) => told (place + skipped) found) =
      (List.range' place (text.length + 1 - place)).findSome? fun start =>
        (p.matchAt flags (Cursor.place text start)).map (told start) := by
  have none {count : Nat}
      (earlier : ∀ skipped < count, p.matchAt flags ((Cursor.place text place).skip skipped) = none) :
      (List.range' place count).findSome? (fun start =>
        (p.matchAt flags (Cursor.place text start)).map (told start)) = none := by
    rw [List.findSome?_eq_none_iff]
    intro start mem
    obtain ⟨least, most⟩ := List.mem_range'_1.mp mem
    have := earlier (start - place) (by omega)
    rw [Cursor.skip_place, Nat.add_sub_cancel' least] at this
    rw [this, Option.map_none]
  cases searched : p.search flags (Cursor.place text place) with
  | none =>
    have nowhere := search_eq_none_iff.mp searched
    rw [Cursor.rest_place, List.length_drop] at nowhere
    exact (none fun skipped less => nowhere skipped (by omega)).symm
  | some result =>
    obtain ⟨skipped, found⟩ := result
    obtain ⟨within, here, earlier⟩ := search_eq_some_iff.mp searched
    rw [Cursor.rest_place, List.length_drop] at within
    rw [Cursor.skip_place] at here
    obtain ⟨more, count⟩ : ∃ more, text.length + 1 - place = skipped + (more + 1) :=
      ⟨text.length - place - skipped, by omega⟩
    rw [count, ← List.range'_append_1, List.findSome?_append, none earlier, List.range'_succ, List.findSome?_cons, here]
    rfl

end Pattern

namespace Lexer

variable {spec : LexerSpec} {lexer : Lexer}

/-- No text of a table goes beyond the language of patterns, by itself or in the group that carries its name. What is
beyond it (`PatternError.unsupported`) are above all references to groups and conditions on them: a number of a group
counts the groups of all texts before it. -/
def InLanguage (flags : Flags) (patterns : List (String × Datum)) : Prop :=
  ∀ entry ∈ patterns, ∀ text, entry.2.text? = some text →
    Pattern.read flags text ≠ .error .unsupported ∧
      Pattern.read flags (groupText entry.1 text) ≠ .error .unsupported

/-- Each text of a table is a pattern by itself, as far as it is in the language of patterns. -/
def StandAlone (flags : Flags) (patterns : List (String × Datum)) : Prop :=
  ∀ entry ∈ patterns, ∀ text, entry.2.text? = some text →
    ∀ e, Pattern.read flags text = .error e → e = .unsupported

/-- A text in the language that is a pattern by itself as far as it is in the language is one. -/
theorem InLanguage.alone {flags : Flags} {patterns : List (String × Datum)} (language : InLanguage flags patterns)
    (standing : StandAlone flags patterns) (texts : ∀ entry ∈ patterns, ∃ text, entry.2.text? = some text) :
    ∀ entry ∈ patterns, (Pattern.alone? flags entry.2).isSome = true := by
  intro entry mem
  obtain ⟨text, isText⟩ := texts entry mem
  rw [Pattern.alone?, isText, Option.bind_some]
  cases read : Pattern.read flags text with
  | ok result => rfl
  | error e =>
    obtain rfl := standing entry mem text isText e read
    exact absurd read (language entry mem text isText).1

/-- Texts that are patterns by themselves and in their groups are in the language. -/
theorem inLanguage_of_alone {flags : Flags} {patterns : List (String × Datum)}
    (alone : ∀ entry ∈ patterns, (Pattern.alone? flags entry.2).isSome = true)
    (wrapped : ∀ entry ∈ patterns, ∀ text, entry.2.text? = some text →
      ∃ read, Pattern.read flags (groupText entry.1 text) = .ok read) :
    InLanguage flags patterns ∧ StandAlone flags patterns := by
  have read {entry : String × Datum} (mem : entry ∈ patterns) {text : String} (isText : entry.2.text? = some text) :
      ∃ read, Pattern.read flags text = .ok read := by
    obtain ⟨p, isAlone⟩ := Option.isSome_iff_exists.mp (alone entry mem)
    obtain ⟨text', isText', found⟩ := Option.bind_eq_some_iff.mp isAlone
    obtain rfl := Option.some.inj (isText'.symm.trans isText)
    obtain ⟨read, isRead, -⟩ := Option.map_eq_some_iff.mp found
    exact ⟨read, eq_ok_of_toOption isRead⟩
  refine ⟨fun entry mem text isText => ⟨fun failed => ?_, fun failed => ?_⟩, fun entry mem text isText e failed => ?_⟩
  · obtain ⟨_, found⟩ := read mem isText
    cases found.symm.trans failed
  · obtain ⟨_, found⟩ := wrapped entry mem text isText
    cases found.symm.trans failed
  · obtain ⟨_, found⟩ := read mem isText
    cases found.symm.trans failed

/-- Checks that have given a list have passed for each of its members. -/
theorem exists_of_mapM_ok {α β ε : Type} {f : α → Except ε β} {items : List α} {values : List β}
    (all : items.mapM f = .ok values) {item : α} (mem : item ∈ items) : ∃ value, f item = .ok value := by
  induction items generalizing values with
  | nil => cases mem
  | cons first rest ih =>
    rw [List.mapM_cons] at all
    obtain ⟨head, isHead, all⟩ := exists_of_bind_ok all
    obtain ⟨tail, others, -⟩ := exists_of_bind_ok all
    rcases List.mem_cons.mp mem with rfl | mem
    · exact ⟨head, isHead⟩
    · exact ih others mem

theorem not_mem_of_isName {name : String} (isName : Text.isName name = true) : '>' ∉ name.toList := by
  intro mem
  unfold Text.isName at isName
  split at isName
  next => cases isName
  next c rest chars =>
    rw [chars] at mem
    rw [Bool.and_eq_true] at isName
    rcases List.mem_cons.mp mem with rfl | mem
    · exact absurd isName.1 (by decide)
    · exact absurd (List.all_eq_true.mp isName.2 _ mem) (by decide)

theorem isName_of_validName {name : Datum} {text : String} (valid : validName name = .ok text) :
    Text.isName text = true := by
  unfold validName at valid
  split at valid
  next => cases valid
  next =>
    split at valid
    next => cases valid
    next isName =>
      split at valid
      next => cases valid
      next =>
        obtain rfl := Except.ok.inj valid
        exact Bool.of_not_eq_false isName

/-- What the check of a pattern has read: its name, and its text in the group that carries the name. No group in
the text has another name of the table. -/
theorem exists_of_checkPattern {flags : Flags} {names : List String} {name : String} {value : Datum}
    {pattern : LexPattern} (checked : checkPattern flags names name value = .ok pattern) :
    Text.isName name = true ∧ ∃ text read, value.text? = some text ∧
      Pattern.read flags (groupText name text) = .ok read ∧ ∀ group ∈ read.2, group ∈ names → group = name := by
  obtain ⟨text, read, passed⟩ := passed_of_checkPattern checked
  exact ⟨isName_of_validName passed.valid, text, read, passed.isText, passed.wrapped, passed.apart⟩

/-- What the parts of a definition are checked to be. -/
theorem exists_of_define (defined : define spec = .ok lexer) :
    spec.patterns ≠ [] ∧
      (spec.patterns.mapM fun entry =>
        checkPattern lexer.flags (spec.patterns.map (·.1)) entry.1 entry.2) = .ok lexer.patterns ∧
      join lexer.flags lexer.patterns = .ok lexer.pattern := by
  unfold define at defined
  obtain ⟨flags, -, defined⟩ := exists_of_bind_ok defined
  split at defined
  next => cases defined
  next nonempty =>
    obtain ⟨patterns, checked, defined⟩ := exists_of_bind_ok defined
    obtain ⟨pattern, joined, defined⟩ := exists_of_bind_ok defined
    obtain ⟨keywords, -, defined⟩ := exists_of_bind_ok defined
    obtain ⟨drop, -, defined⟩ := exists_of_bind_ok defined
    obtain rfl := Except.ok.inj defined
    exact ⟨nonempty, checked, joined⟩

theorem exists_of_join {flags : Flags} {patterns : List LexPattern} {p : Pattern}
    (joined : join flags patterns = .ok p) : ∃ names, Pattern.read flags (joinedText patterns) = .ok (p, names) := by
  unfold join at joined
  split at joined
  next read =>
    obtain rfl := Except.ok.inj joined
    exact ⟨_, read⟩
  next => cases joined

theorem toList_groupText (name text : String) :
    (groupText name text).toList = Pattern.enclosed name text.toList := by
  simp only [groupText, Pattern.enclosed, String.toList_append]
  simp

/-- A text that passes its check is a pattern in its group. -/
theorem exists_read_of_checkPattern {flags : Flags} {names : List String} {name text : String} {value : Datum}
    {pattern : LexPattern} (checked : checkPattern flags names name value = .ok pattern)
    (isText : value.text? = some text) : ∃ read, Pattern.read flags (groupText name text) = .ok read := by
  obtain ⟨-, text', read, isText', wrapped, -⟩ := exists_of_checkPattern checked
  obtain rfl := Option.some.inj (isText'.symm.trans isText)
  exact ⟨read, wrapped⟩

/-- A pattern whose text is one by itself can stand in its group. -/
theorem encloses_of_checkPattern {flags : Flags} {names : List String} {name : String} {value : Datum}
    {pattern : LexPattern} (checked : checkPattern flags names name value = .ok pattern) {p : Pattern}
    (alone : Pattern.alone? flags value = some p) :
    Pattern.Encloses flags name (value.text?.getD "").toList p := by
  obtain ⟨isName, text, read, isText, wrapped, -⟩ := exists_of_checkPattern checked
  obtain ⟨text', isText', found⟩ := Option.bind_eq_some_iff.mp alone
  obtain rfl := Option.some.inj (isText.symm.trans isText')
  obtain ⟨⟨found, groups⟩, isRead, rfl⟩ := Option.map_eq_some_iff.mp found
  have group := Pattern.reads_of_read wrapped
  rw [toList_groupText] at group
  have isRead := eq_ok_of_toOption isRead
  rw [isText]
  exact ⟨not_mem_of_isName isName, Pattern.reads_of_read isRead, (Pattern.readAlternatives_of_read isRead).2, _, group⟩

/-- What an entry of a table comes to: its name, the characters of its text, and the pattern that they are by
themselves. -/
def told (flags : Flags) (entry : String × Datum) : String × List Char × Pattern :=
  (entry.1, (entry.2.text?.getD "").toList, (Pattern.alone? flags entry.2).getD .empty)

theorem encloses_told {flags : Flags} {names : List String} {entry : String × Datum} {pattern : LexPattern}
    (checked : checkPattern flags names entry.1 entry.2 = .ok pattern)
    (alone : (Pattern.alone? flags entry.2).isSome = true) :
    Pattern.Encloses flags (told flags entry).1 (told flags entry).2.1 (told flags entry).2.2 := by
  obtain ⟨p, isAlone⟩ := Option.isSome_iff_exists.mp alone
  have encloses := encloses_of_checkPattern checked isAlone
  simpa only [told, isAlone, Option.getD_some] using encloses

/-- The joined texts of a table are its groups, joined with bars. -/
theorem toList_joinedText {flags : Flags} {names : List String} {entries : List (String × Datum)}
    {patterns : List LexPattern}
    (checked : (entries.mapM fun entry => checkPattern flags names entry.1 entry.2) = .ok patterns) :
    (joinedText patterns).toList = Pattern.joinedGroups (entries.map (told flags)) := by
  obtain ⟨patterns', all, same⟩ := exists_mapM (fun entry mem => exists_of_mapM_ok checked mem)
    fun _ _ checked => checkPattern_parts checked
  obtain rfl := Except.ok.inj (checked.symm.trans all)
  have texts := congrArg (List.map Prod.snd) same
  simp only [List.map_map, Function.comp_def] at texts
  rw [joinedText, String.toList_intercalate, texts]
  simp only [Pattern.joinedGroups, List.map_map, Function.comp_def, toList_groupText, told]
  rfl

/-- What a lexer is defined by is in the language, if each text is a pattern by itself. -/
theorem inLanguage_of_define (defined : define spec = .ok lexer)
    (alone : ∀ entry ∈ spec.patterns, (Pattern.alone? lexer.flags entry.2).isSome = true) :
    InLanguage lexer.flags spec.patterns ∧ StandAlone lexer.flags spec.patterns := by
  obtain ⟨-, checked, -⟩ := exists_of_define defined
  refine inLanguage_of_alone alone fun entry mem text isText => ?_
  obtain ⟨pattern, made⟩ := exists_of_mapM_ok checked mem
  exact exists_read_of_checkPattern made isText

theorem alone_of_define (defined : define spec = .ok lexer) (language : InLanguage lexer.flags spec.patterns)
    (standing : StandAlone lexer.flags spec.patterns) :
    ∀ entry ∈ spec.patterns, (Pattern.alone? lexer.flags entry.2).isSome = true := by
  obtain ⟨-, checked, -⟩ := exists_of_define defined
  refine language.alone standing fun entry mem => ?_
  obtain ⟨pattern, made⟩ := exists_of_mapM_ok checked mem
  obtain ⟨-, text, -, isText, -⟩ := exists_of_checkPattern made
  exact ⟨text, isText⟩

section Alone

variable (defined : define spec = .ok lexer)
  (alone : ∀ entry ∈ spec.patterns, (Pattern.alone? lexer.flags entry.2).isSome = true)

include defined alone

/-- The pattern of a lexer is the choice of the patterns that its table lists. -/
theorem define_pattern : lexer.pattern = Pattern.choice (spec.patterns.map fun entry =>
    .group (some entry.1) ((Pattern.alone? lexer.flags entry.2).getD .empty)) := by
  obtain ⟨nonempty, checked, joined⟩ := exists_of_define defined
  obtain ⟨names, read⟩ := exists_of_join joined
  have encloses : ∀ entry ∈ spec.patterns.map (told lexer.flags),
      Pattern.Encloses lexer.flags entry.1 entry.2.1 entry.2.2 := by
    intro entry mem
    obtain ⟨entry, listed, rfl⟩ := List.mem_map.mp mem
    obtain ⟨pattern, checked⟩ := exists_of_mapM_ok checked listed
    exact encloses_told checked (alone entry listed)
  have reads := Pattern.reads_of_read read
  rw [toList_joinedText checked] at reads
  have isChoice := Pattern.Reads.joined encloses (by simpa using nonempty) reads
  simpa only [List.map_map, Function.comp_def, told] using isChoice

/-- At each place the pattern of a lexer matches as the first pattern of its table that matches there. -/
theorem matchAt_define (cursor : Cursor) : lexer.pattern.matchAt lexer.flags cursor =
    (Pattern.firstMatch lexer.flags spec.patterns cursor).map fun (name, found) =>
      ⟨found.cursor, some name⟩ := by
  rw [define_pattern defined alone, Pattern.matchAt_choice, List.findSome?_map]
  exact Pattern.findSome?_groups alone cursor

/-- Searching with the pattern of a lexer finds the leftmost match of the first pattern. -/
theorem find_ownSearcher {text : List Char} {place : Nat} (inside : place < text.length) :
    lexer.ownSearcher.find text place =
      (Pattern.orderedChoice lexer.flags spec.patterns).find text place := by
  refine (Pattern.search_place (Nat.le_of_lt inside) fun start found =>
    (⟨start, found.cursor.position, found.lastGroup⟩ : Found)).trans ?_
  simp only [matchAt_define defined alone, Option.map_map, Function.comp_def]
  rfl

end Alone

/-- Lexers that take the same steps split a text in the same way. -/
theorem Splits.of_steps {other : Lexer} {searcher searcher' : Searcher} {dropped : TokenKind → Bool} {text : List Char}
    {start : Nat} {lexed : Lexed} (splits : Splits lexer searcher dropped text start lexed)
    (same : ∀ start, start < text.length → lexer.stepBy searcher text start = other.stepBy searcher' text start) :
    Splits other searcher' dropped text start lexed := by
  induction splits with
  | done ended => exact .done ended
  | fault inside stepped => exact .fault inside ((same _ inside).symm.trans stepped)
  | token inside stepped _ ih => exact .token inside ((same _ inside).symm.trans stepped) ih

/-- Searches that find the same split a text in the same way. -/
theorem Splits.congr {searcher other : Searcher} {dropped : TokenKind → Bool} {text : List Char} {start : Nat}
    {lexed : Lexed} (splits : Splits lexer searcher dropped text start lexed)
    (same : ∀ place, place < text.length → searcher.find text place = other.find text place) :
    Splits lexer other dropped text start lexed :=
  splits.of_steps fun start inside => by rw [stepBy, stepBy, same start inside]

/-- A kind that a step gives is that of unmatched text, or what the kind of a group becomes by its text. -/
theorem kind_of_stepBy {searcher : Searcher} {text : List Char} {start next : Nat} {token : Token}
    (stepped : lexer.stepBy searcher text start = .ok (token, next)) :
    token.kind = Token.invalid ∨ ∃ found kind, searcher.find text start = some found ∧
      found.label = some kind ∧ token.kind = lexer.kindOf kind token.text := by
  unfold stepBy at stepped
  split at stepped
  next =>
    obtain ⟨rfl, -⟩ := Prod.mk.inj (Except.ok.inj stepped)
    exact .inl rfl
  next found isFound =>
    split at stepped
    next =>
      obtain ⟨rfl, -⟩ := Prod.mk.inj (Except.ok.inj stepped)
      exact .inl rfl
    next =>
      split at stepped
      next => cases stepped
      next =>
        split at stepped
        next => cases stepped
        next kind label =>
          obtain ⟨rfl, -⟩ := Prod.mk.inj (Except.ok.inj stepped)
          exact .inr ⟨found, kind, isFound, label, rfl⟩

theorem Splits.exists_stepBy {searcher : Searcher} {dropped : TokenKind → Bool} {text : List Char} {start : Nat}
    {lexed : Lexed} (splits : Splits lexer searcher dropped text start lexed) {token : Token}
    (mem : token ∈ lexed.tokens) : ∃ start next, lexer.stepBy searcher text start = .ok (token, next) := by
  induction splits with
  | done | fault => cases mem
  | @token start next first lexed inside stepped _ ih =>
    dsimp only at mem
    split at mem
    next => exact ih mem
    next =>
      rcases List.mem_cons.mp mem with rfl | mem
      · exact ⟨start, next, stepped⟩
      · exact ih mem

/-- The kinds of the patterns are the names of the table. -/
theorem kinds_of_define (defined : define spec = .ok lexer) :
    lexer.patterns.map (·.kind) = spec.patterns.map (·.1) := by
  obtain ⟨-, checked, -⟩ := exists_of_define defined
  obtain ⟨patterns, all, same⟩ := exists_mapM (fun entry mem => exists_of_mapM_ok checked mem)
    fun _ _ checked => checkPattern_parts checked
  obtain rfl := Except.ok.inj (checked.symm.trans all)
  have firsts := congrArg (List.map Prod.fst) same
  simpa only [List.map_map, Function.comp_def] using firsts

/-- If each text of a table is in the language and is a pattern by itself, then lexing takes the leftmost place at which
one of them matches by itself, and there the first of them in the order of the table, whose name is the kind unless the
text is a keyword. All kinds are known to the lexer, and it stops at no match but one without characters. -/
theorem lexing_is_ordered_choice (defined : define spec = .ok lexer) (language : InLanguage lexer.flags spec.patterns)
    (standing : StandAlone lexer.flags spec.patterns) (text : String) (dropped : TokenKind → Bool) :
    Splits lexer (Pattern.orderedChoice lexer.flags spec.patterns) dropped text.toList 0
        (lexer.lex text dropped) ∧
      (∀ token ∈ (lexer.lex text dropped).tokens, token.kind ∈ lexer.kinds) ∧
      ∀ cause, (lexer.lex text dropped).fault = some cause →
        ∃ name ∈ spec.patterns.map (·.1), ∃ place, cause = .emptyMatch (some name) place := by
  have alone := alone_of_define defined language standing
  have searches (dropped : TokenKind → Bool) :
      Splits lexer (Pattern.orderedChoice lexer.flags spec.patterns) dropped text.toList 0
        (lexer.lex text dropped) :=
    (splits_lex lexer text dropped).congr fun _ inside => find_ownSearcher defined alone inside
  refine ⟨searches dropped, ?_, ?_⟩
  · intro token mem
    obtain ⟨start, next, stepped⟩ := (searches dropped).exists_stepBy mem
    simp only [kinds, StringSet.mem_ofList, List.mem_append, kinds_of_define defined]
    rcases kind_of_stepBy stepped with invalid | ⟨found, kind, isFound, label, isKind⟩
    · simp [invalid]
    · obtain ⟨name, listed, named⟩ := Pattern.exists_of_leftmostMatch isFound
      obtain rfl := Option.some.inj (label.symm.trans named)
      rw [isKind]
      rcases lexer.kindOf_cases kind token.text with same | keyword
      · exact .inl (.inl (same.symm ▸ listed))
      · exact .inl (.inr keyword)
  · intro cause faulted
    have whole : (lexer.lex text dropped).fault = (lexer.lex text fun _ => false).fault := rfl
    obtain ⟨stop, -, -, -, stops⟩ := (searches fun _ => false).tile (Nat.zero_le _)
    obtain ⟨-, stopsAt⟩ := stops cause (whole ▸ faulted)
    cases stopsAt with
    | empty isFound =>
      obtain ⟨name, listed, named⟩ := Pattern.exists_of_leftmostMatch isFound
      exact ⟨name, listed, stop, by rw [← named]⟩
    | unnamed isFound =>
      obtain ⟨name, -, named⟩ := Pattern.exists_of_leftmostMatch isFound
      cases named

section Tables

open Pattern

/-- Two patterns, one with a bar and one with a group of its own. -/
def barredSpec : LexerSpec where
  patterns := [("letter", ("a|b" : String)), ("pair", ("(c)d" : String))]

/-- The lexer of the two patterns. -/
def barred : Lexer :=
  let letter := group (some "letter") (.alt (.set (.single 'a')) (.set (.single 'b')))
  let pair := group (some "pair") (.seq (group none (.set (.single 'c'))) (.set (.single 'd')))
  { flags := {}
    patterns := [⟨"letter", groupText "letter" "a|b", letter⟩, ⟨"pair", groupText "pair" "(c)d", pair⟩]
    pattern := .alt letter pair
    keywords := []
    keywordKind := "name"
    drop := .empty }

theorem barred_is_ordered_choice :
    define barredSpec = .ok barred ∧
      InLanguage barred.flags barredSpec.patterns ∧ StandAlone barred.flags barredSpec.patterns ∧
      Splits barred (orderedChoice barred.flags barredSpec.patterns) (fun _ => false) ['b', '.', 'c', 'd'] 0
        (barred.lex "b.cd" fun _ => false) ∧
      (barred.lex "b.cd" fun _ => false).tokens.map (·.kind) = ["letter", Token.invalid, "pair"] := by
  have defined : define barredSpec = .ok barred := eq_ok_of_toOption (by decide +kernel)
  have alone : ∀ entry ∈ barredSpec.patterns, (alone? barred.flags entry.2).isSome = true := by
    intro entry mem
    simp only [barredSpec, List.mem_cons, List.not_mem_nil, or_false] at mem
    rcases mem with rfl | rfl <;> decide +kernel
  obtain ⟨language, standing⟩ := inLanguage_of_define defined alone
  exact ⟨defined, language, standing, (lexing_is_ordered_choice defined language standing "b.cd" fun _ => false).1,
    by decide +kernel⟩

/-- A text that closes its group and opens another one, which has no name. -/
def straddlingSpec : LexerSpec where
  patterns := [("x", ("a)|(b" : String))]

/-- The definition passes, and lexing stops at a match that is not empty. -/
theorem straddling_fails : ∃ lexer, define straddlingSpec = .ok lexer ∧
    lexer.lex "b" = ⟨[], some .unnamedMatch⟩ ∧ alone? lexer.flags ("a)|(b" : String) = none := by
  have checked : (define straddlingSpec).toOption.any (fun lexer =>
      lexer.lex "b" = ⟨[], some .unnamedMatch⟩ && alone? lexer.flags ("a)|(b" : String) = none) = true := by
    decide +kernel
  obtain ⟨lexer, made, facts⟩ := Option.any_eq_true _ _ |>.mp checked
  simp only [Bool.and_eq_true, decide_eq_true_eq] at facts
  exact ⟨lexer, eq_ok_of_toOption made, facts⟩

end Tables

end Lexer

end Grammatic
