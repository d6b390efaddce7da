import Mathlib.Data.List.Flatten
import Grammatic.Proofs.Script.LongestMatch
import Grammatic.Proofs.Script.SpelledLexer

/-!
# Which of several spellings is the token

Spellings that get their places in the table of scripts are looked for in the order of the table: kind by kind, and
only of one kind the longest first (`placedSpellings`). So where spellings stand at the start of a token, the first of
them in that order is the token, and not the longest. Sorting the spellings by length is for nothing if a short one
has a kind that is placed before that of a longer one (`shortSpelling_wins`).

The token is the longest spelling in all texts exactly if no spelling is placed before one that it begins
(`spellings_longest_iff`).
-/

namespace Grammatic

namespace Script

open Pattern Lexer Spelling

variable {table : List (String × String)} {keywords : List (String × TokenKind)} {kind : TokenKind} {cursor : Cursor}
  {spec : LexerSpec} {lexer : Lexer} {entry : String × String}

/-- The spellings of a keyword table in the order in which a table looks for them. -/
def placedSpellings (table : List (String × String)) (keywords : List (String × TokenKind)) :
    List (String × TokenKind) :=
  (spelledPatterns table keywords).flatMap fun entry => (longestFirst keywords).filter (·.2 = entry.1)

/-- Where a token starts at which spellings stand, it is the longest of them, with its kind, and it is there unless
its kind is dropped. -/
def SpellsLongest (lexer : Lexer) (keywords : List (String × TokenKind)) : Prop :=
  ∀ (text : String) (dropped : TokenKind → Bool), (∀ keyword ∈ keywords, dropped keyword.2 = false) →
    ∀ token ∈ (lexer.lex text fun _ => false).tokens, ∀ start : Nat, token.start = start →
      startsWord (spelledWords keywords) (text.toList.drop start) = true →
      token ∈ (lexer.lex text dropped).tokens ∧ (token.text, token.kind) ∈ keywords ∧
        ∀ other ∈ keywords, other.1.toList <+: text.toList.drop start → other.1.length ≤ token.text.length

/-! ## The order of the spellings -/

theorem startsWord_spelledWords {text : List Char} : startsWord (spelledWords keywords) text = true ↔
    ∃ keyword ∈ keywords, keyword.1.toList <+: text := by
  simp [startsWord, spelledWords, (perm_longestFirst keywords).mem_iff]

theorem mem_kinds_spelled (named : "name" ∈ table.map (·.1)) {keyword : String × TokenKind}
    (listed : keyword ∈ keywords) : keyword.2 ∈ (spelledPatterns table keywords).map (·.1) := by
  by_cases known : keyword.2 ∈ table.map (·.1)
  · exact names_subset_spelled known
  · obtain ⟨given, mem, isName⟩ := List.mem_map.mp named
    have added : keyword.2 ∈ addedKinds table keywords := by
      refine List.mem_filter.mpr ⟨?_, decide_eq_true known⟩
      exact List.mem_eraseDups.mpr (List.mem_map_of_mem ((perm_longestFirst keywords).mem_iff.mpr listed))
    refine List.mem_map.mpr ⟨(keyword.2, alternatives (patternsOfKind (longestFirst keywords) keyword.2)), ?_, rfl⟩
    refine List.mem_flatMap.mpr ⟨given, mem, ?_⟩
    dsimp only
    rw [if_pos isName]
    exact List.mem_append_left _ (List.mem_map_of_mem added)

/-- Each spelling has its place. -/
theorem mem_placedSpellings (named : "name" ∈ table.map (·.1)) {keyword : String × TokenKind} :
    keyword ∈ placedSpellings table keywords ↔ keyword ∈ keywords := by
  constructor
  · intro mem
    obtain ⟨entry, -, mem⟩ := List.mem_flatMap.mp mem
    exact (perm_longestFirst keywords).mem_iff.mp (List.mem_of_mem_filter mem)
  · intro listed
    obtain ⟨entry, mem, isKind⟩ := List.mem_map.mp (mem_kinds_spelled named listed)
    refine List.mem_flatMap.mpr ⟨entry, mem, List.mem_filter.mpr ⟨?_, decide_eq_true isKind.symm⟩⟩
    exact (perm_longestFirst keywords).mem_iff.mpr listed

/-- No spelling has two places. -/
theorem Joinable.nodup_placedSpellings (joinable : Joinable table) (placeable : Placeable table keywords)
    (distinct : keywords.Nodup) : (placedSpellings table keywords).Nodup := by
  have kinds : ((spelledPatterns table keywords).map (·.1)).Nodup := by
    refine List.Nodup.sublist ?_ (joinable.spelled placeable).nodup
    rw [groupsIn, List.map_eq_flatMap]
    exact List.Sublist.flatMap_right _ fun _ _ => List.singleton_sublist.mpr List.mem_cons_self
  refine List.nodup_flatMap.mpr ⟨fun entry _ => ((perm_longestFirst keywords).nodup_iff.mpr distinct).filter _, ?_⟩
  refine (List.pairwise_map.mp kinds).imp fun differs keyword mem mem' => differs ?_
  exact (of_decide_eq_true (List.mem_filter.mp mem).2).symm.trans (of_decide_eq_true (List.mem_filter.mp mem').2)

/-- If each of some words is the first that begins it, no word comes before one that it begins, and conversely. -/
theorem pairwise_iff_find? {items : List (String × TokenKind)} (distinct : items.Nodup) :
    (items.Pairwise fun earlier later => ¬ earlier.1.toList <+: later.1.toList) ↔
      ∀ later ∈ items, items.find? (·.1.toList.isPrefixOf later.1.toList) = some later := by
  induction items with
  | nil => simp
  | cons item items ih =>
    obtain ⟨new, distinct⟩ := List.nodup_cons.mp distinct
    rw [List.pairwise_cons, ih distinct]
    constructor
    · rintro ⟨apart, found⟩ later mem
      rcases List.mem_cons.mp mem with rfl | mem
      · exact List.find?_cons_of_pos (List.isPrefixOf_iff_prefix.mpr (List.prefix_refl _))
      · have not : item.1.toList.isPrefixOf later.1.toList = false :=
          Bool.eq_false_iff.mpr fun begins => apart later mem (List.isPrefixOf_iff_prefix.mp begins)
        rw [List.find?_cons, not]
        exact found later mem
    · intro found
      have apart : ∀ later ∈ items, item.1.toList.isPrefixOf later.1.toList = false := by
        intro later mem
        refine Bool.eq_false_iff.mpr fun begins => ?_
        have first := found later (List.mem_cons_of_mem _ mem)
        rw [List.find?_cons, begins] at first
        exact new (Option.some.inj first ▸ mem)
      constructor
      · intro later mem isPrefix
        exact Bool.eq_false_iff.mp (apart later mem) (List.isPrefixOf_iff_prefix.mpr isPrefix)
      · intro later mem
        have first := found later (List.mem_cons_of_mem _ mem)
        rwa [List.find?_cons, apart later mem] at first

/-! ## What matches where spellings stand -/

theorem reachKind_eq : reachKind keywords cursor kind =
    (((longestFirst keywords).filter (·.2 = kind)).find? (·.1.toList.isPrefixOf cursor.rest)).map fun keyword =>
      (keyword.2, cursor.position + keyword.1.toList.length) := by
  rw [reachKind, reachWord, wordsOfKind, List.find?_map, Option.map_map, Option.map_map]
  refine Option.map_congr fun keyword found => ?_
  have isKind := (List.mem_filter.mp (List.mem_of_find?_eq_some found)).2
  exact Prod.ext (of_decide_eq_true isKind).symm rfl

/-- Where a spelling stands no name begins. -/
theorem reach_guarded_eq_none (starts : startsWord (spelledWords keywords) cursor.rest = true) :
    (namePattern (guards keywords)).reach {} cursor = none := by
  have nonempty : keywords ≠ [] := by
    rintro rfl
    cases starts
  rw [reach_of_isPlain (isPlain_namePattern _), first_namePattern, guards, if_neg nonempty, begins, starts]
  rfl

/-- Where a spelling stands, and nothing but names of the table matches, the first spelling in order matches. -/
theorem firstReach_of_spelling (alone : ∀ entry ∈ table, (alone? {} (entry.2 : Datum)).isSome = true)
    (others : ∀ keyword ∈ keywords, keyword.2 ≠ "name")
    (starts : startsWord (spelledWords keywords) cursor.rest = true)
    (closed : ∀ entry ∈ table, entry.1 ≠ "name" → (alone? {} (entry.2 : Datum)).bind (·.reach {} cursor) = none) :
    firstReach {} (asData (spelledPatterns table keywords)) cursor =
      ((placedSpellings table keywords).find? (·.1.toList.isPrefixOf cursor.rest)).map fun keyword =>
        (keyword.2, cursor.position + keyword.1.toList.length) := by
  have ofName : (longestFirst keywords).filter (·.2 = "name") = [] := by
    refine List.filter_eq_nil_iff.mpr fun keyword mem isName => ?_
    exact others keyword ((perm_longestFirst keywords).mem_iff.mp mem) (of_decide_eq_true isName)
  rw [firstReach_spelled alone, placedSpellings, List.find?_flatMap, List.map_findSome?, spelledPatterns,
    findSome?_flatMap]
  refine findSome?_congr fun entry listed => ?_
  dsimp only
  rw [spelledReach]
  split
  next isName =>
    rw [reach_guarded_eq_none starts, List.findSome?_append, List.findSome?_map, isName]
    simp only [Option.map_none, Option.or_none, List.findSome?_singleton, Function.comp_def, ofName, List.find?_nil]
    exact findSome?_congr fun kind _ => reachKind_eq
  next other =>
    rw [closed entry listed other, Option.none_or, List.findSome?_singleton]
    exact reachKind_eq

/-- Nothing but names of the table of scripts matches where a letter stands. -/
theorem Spells.first_eq_none_of_letter {table : List (String × Pattern)} {entry : String × Pattern} {c : Char}
    {text : List Char} (spells : Spells lexer table []) (listed : entry ∈ table) (other : entry.1 ≠ "name")
    (letter : letters.contains {} c = true) : entry.2.first {} (c :: text) = none := by
  cases taken : entry.2.first {} (c :: text) with
  | none => rfl
  | some count =>
    obtain ⟨within, allows⟩ := allows_of_mem_lengths (spells.lists.plain entry listed) (mem_of_first taken)
    have least := allows.leastLength_le
    have nonempty := spells.lists.nonempty entry listed
    cases count with
    | zero =>
      rw [List.take_zero, List.length_nil] at least
      omega
    | succ count =>
      have length : (c :: text.take count).length = count + 1 := by
        rw [List.length_cons, List.length_take]
        rw [List.length_cons] at within
        omega
      have taken : entry.2.first {} (c :: text.take count ++ text.drop count) = some (c :: text.take count).length := by
        rw [List.cons_append, List.take_append_drop, taken, length]
      rcases spells.startsWord_of_hit listed letter taken with rfl | starts
      · exact absurd rfl other
      · cases starts

theorem reach_eq_none_of_letter (listed : entry ∈ patterns) (other : entry.1 ≠ "name")
    (letter : cursor.rest.head?.any (letters.contains {}) = true) :
    (alone? {} (entry.2 : Datum)).bind (·.reach {} cursor) = none := by
  obtain ⟨lexer, defined, lexes⟩ := exists_lexer (lexes_of_known (.inl rfl))
  have spells : Spells lexer english.readTable [] := .of_check (by decide +kernel) defined lexes.flags
  cases isAlone : alone? {} (entry.2 : Datum) with
  | none => rfl
  | some p =>
    have listed : (entry.1, p) ∈ english.readTable := by
      refine List.mem_map.mpr ⟨(entry.1, (entry.2 : Datum)), List.mem_map_of_mem listed, ?_⟩
      rw [isAlone]
      rfl
    obtain ⟨c, text, isRest, letter⟩ := exists_of_any_head letter
    rw [Option.bind_some, reach_of_isPlain (spells.lists.plain _ listed), isRest,
      spells.first_eq_none_of_letter listed other letter]
    rfl

section Alone

variable (defined : Lexer.define spec = .ok lexer)
  (alone : ∀ entry ∈ spec.patterns, (alone? lexer.flags entry.2).isSome = true)

include defined alone

theorem matchAt_of_firstReach {stop : Nat} (first : firstReach lexer.flags spec.patterns cursor = some (kind, stop)) :
    ∃ reached : Cursor, reached.position = stop ∧
      lexer.pattern.matchAt lexer.flags cursor = some ⟨reached, some kind⟩ := by
  rw [← map_firstMatch] at first
  obtain ⟨⟨name, found⟩, isFirst, same⟩ := Option.map_eq_some_iff.mp first
  obtain ⟨rfl, rfl⟩ := Prod.mk.inj same
  refine ⟨found.cursor, rfl, ?_⟩
  rw [matchAt_define defined alone, isFirst]
  rfl

/-- A token that starts where patterns of the table match is the match of the first of them. -/
theorem token_of_firstReach {text : String} {token : Token} (mem : token ∈ (lexer.lex text fun _ => false).tokens)
    {start stop : Nat} (starts : token.start = start)
    (first : firstReach lexer.flags spec.patterns (Cursor.place text.toList start) = some (kind, stop)) :
    token.text = String.ofList ((text.toList.take stop).drop start) ∧ token.kind = lexer.kindOf kind token.text := by
  obtain ⟨reached, rfl, matched⟩ := matchAt_of_firstReach defined alone first
  obtain ⟨place, next, covers, sees⟩ := (splits_lex lexer text fun _ => false).exists_sees mem
  obtain rfl : start = place := Int.ofNat_inj.mp (starts.symm.trans covers.starts)
  cases sees with
  | passed _ nowhere _ =>
    exact absurd (matched.symm.trans (nowhere start (Nat.le_refl _) covers.lt)) (Option.some_ne_none _)
  | matched here stops named isKind =>
    obtain rfl := Option.some.inj (here.symm.trans matched)
    obtain rfl := Option.some.inj named
    exact ⟨stops ▸ covers.isText, isKind⟩

/-- Where a pattern of the table matches characters at the start of a text, a token starts there. -/
theorem exists_token_of_firstReach {text : String} {stop : Nat} (moves : 0 < stop)
    (first : firstReach lexer.flags spec.patterns (Cursor.place text.toList 0) = some (kind, stop)) :
    ∃ token ∈ (lexer.lex text fun _ => false).tokens, token.start = 0 := by
  obtain ⟨reached, rfl, matched⟩ := matchAt_of_firstReach defined alone first
  have inside : 0 < text.toList.length := by
    have within := (position_of_matchAt matched).2
    simp only [Cursor.position_place, Cursor.rest_place, List.drop_zero] at within
    omega
  have found {other : Found} (isFound : lexer.ownSearcher.find text.toList 0 = some other) (here : other.start = 0) :
      other.stop = reached.position ∧ other.label = some kind := by
    obtain ⟨⟨first, here', stop, label⟩, -⟩ := matchAt_of_find isFound
    rw [here, matched] at here'
    obtain rfl := Option.some.inj here'
    exact ⟨stop, label⟩
  have splits := splits_lex lexer text fun _ => false
  generalize lexer.lex text (fun _ => false) = lexed at splits ⊢
  cases splits with
  | done ended => omega
  | fault _ stepped =>
    cases stopsAt_of_stepBy inside stepped with
    | empty isFound =>
      have empty : 0 = reached.position := (found isFound rfl).1
      omega
    | unnamed isFound => cases (found isFound rfl).2
  | token _ stepped _ => exact ⟨_, List.mem_cons_self, (stepBy_covers inside stepped).starts⟩

end Alone

/-! ## The table of scripts -/

theorem groupsOf_patterns : ∀ entry ∈ patterns, groupsOf entry.2 = [] := by decide +kernel

theorem alone_patterns : ∀ entry ∈ patterns, (alone? {} (entry.2 : Datum)).isSome = true := by decide +kernel

theorem placeable_patterns (kinds : ∀ keyword ∈ keywords, Nameable keyword.2) : Placeable patterns keywords :=
  fun keyword mem => .inr ⟨kinds keyword mem, fun entry listed => by simp [groupsOf_patterns entry listed]⟩

/-- One of the spellings that stand at the start of a text is the first of them in order. -/
theorem exists_placed {text : List Char} (starts : startsWord (spelledWords keywords) text = true) :
    ∃ keyword ∈ keywords, keyword.1.toList <+: text ∧
      (placedSpellings patterns keywords).find? (·.1.toList.isPrefixOf text) = some keyword := by
  have named : "name" ∈ patterns.map (·.1) := by decide
  obtain ⟨keyword, listed, isPrefix⟩ := startsWord_spelledWords.mp starts
  have some : ((placedSpellings patterns keywords).find? (·.1.toList.isPrefixOf text)).isSome = true :=
    List.find?_isSome.mpr ⟨keyword, (mem_placedSpellings named).mpr listed, List.isPrefixOf_iff_prefix.mpr isPrefix⟩
  obtain ⟨first, found⟩ := Option.isSome_iff_exists.mp some
  exact ⟨first, (mem_placedSpellings named).mp (List.mem_of_find?_eq_some found),
    List.isPrefixOf_iff_prefix.mp (List.find?_eq_some_iff_append.mp found).1, found⟩

/-- What is asked of spellings and their kinds: no spelling is given twice, each begins with a letter, and the kinds can
be those of patterns, but not that of names. -/
structure Spellable (keywords : List (String × TokenKind)) : Prop where
  distinct : (keywords.map (·.1)).Nodup
  letter : ∀ keyword ∈ keywords, keyword.1.toList.head?.any (letters.contains {}) = true
  nameable : ∀ keyword ∈ keywords, Nameable keyword.2
  others : ∀ keyword ∈ keywords, keyword.2 ≠ "name"

namespace Spellable

theorem alone_spelled_patterns (flags : spec.flags = "")
    (isTable : spec.patterns = asData (spelledPatterns patterns keywords)) (defined : Lexer.define spec = .ok lexer) :
    ∀ entry ∈ spec.patterns, (alone? lexer.flags entry.2).isSome = true := by
  rw [isTable, (checked_of_define flags isTable defined).flags]
  exact alone_asData (alone_spelled alone_patterns)

variable (spellable : Spellable keywords)

include spellable

/-- Where spellings stand in a text, the first match is that of the first of them in order. -/
theorem firstReach_patterns (starts : startsWord (spelledWords keywords) cursor.rest = true) :
    firstReach {} (asData (spelledPatterns patterns keywords)) cursor =
      ((placedSpellings patterns keywords).find? (·.1.toList.isPrefixOf cursor.rest)).map fun keyword =>
        (keyword.2, cursor.position + keyword.1.toList.length) := by
  refine firstReach_of_spelling alone_patterns spellable.others starts fun entry listed other => ?_
  obtain ⟨keyword, mem, more, isRest⟩ := startsWord_spelledWords.mp starts
  refine reach_eq_none_of_letter listed other ?_
  obtain ⟨c, chars, isWord, letter⟩ := exists_of_any_head (spellable.letter keyword mem)
  rw [← isRest, isWord]
  exact letter

section Defined

variable (flags : spec.flags = "") (isTable : spec.patterns = asData (spelledPatterns patterns keywords))
  (keywordKind : spec.keywordKind = "name") (defined : Lexer.define spec = .ok lexer)

include flags isTable defined

/-- The text of a spelling has a token at its start. -/
theorem exists_token {keyword : String × TokenKind} (listed : keyword ∈ keywords) :
    ∃ token ∈ (lexer.lex keyword.1 fun _ => false).tokens, token.start = 0 := by
  have starts : startsWord (spelledWords keywords) keyword.1.toList = true :=
    startsWord_spelledWords.mpr ⟨keyword, listed, List.prefix_refl _⟩
  obtain ⟨first, mem, -, found⟩ := exists_placed starts
  have nonempty : 0 < first.1.toList.length := by
    obtain ⟨c, chars, isWord, -⟩ := exists_of_any_head (spellable.letter first mem)
    rw [isWord]
    exact Nat.succ_pos _
  have isDefault := (checked_of_define flags isTable defined).flags
  have reaches : firstReach lexer.flags spec.patterns (Cursor.place keyword.1.toList 0) =
      some (first.2, first.1.toList.length) := by
    rw [isDefault, isTable, spellable.firstReach_patterns (by rwa [Cursor.rest_place]), Cursor.rest_place,
      List.drop_zero, found, Cursor.position_place, Option.map_some, Nat.zero_add]
  exact exists_token_of_firstReach defined (alone_spelled_patterns flags isTable defined) nonempty reaches

include keywordKind

/-- A token that starts where spellings stand is the first of them in order. -/
theorem token_of_spelling {text : String} {token : Token} (mem : token ∈ (lexer.lex text fun _ => false).tokens)
    {start : Nat} (isStart : token.start = start)
    (starts : startsWord (spelledWords keywords) (text.toList.drop start) = true) :
    (placedSpellings patterns keywords).find? (·.1.toList.isPrefixOf (text.toList.drop start)) =
      some (token.text, token.kind) := by
  obtain ⟨keyword, listed, isPrefix, found⟩ := exists_placed starts
  have first : firstReach {} (asData (spelledPatterns patterns keywords)) (Cursor.place text.toList start) = _ :=
    spellable.firstReach_patterns (by simpa using starts)
  rw [Cursor.rest_place, Cursor.position_place, found, Option.map_some] at first
  have checked := checked_of_define flags isTable defined
  obtain ⟨isText, isKind⟩ := token_of_firstReach defined (alone_spelled_patterns flags isTable defined) mem isStart
    (by rw [checked.flags, isTable, first])
  rw [List.drop_take, Nat.add_sub_cancel_left, ← List.prefix_iff_eq_take.mp isPrefix, String.ofList_toList] at isText
  rw [kindOf, checked.keywordKind, keywordKind, if_neg (spellable.others keyword listed)] at isKind
  rw [found, isText, isKind]

/-- If the tokens are the longest spellings, each spelling is the first in order of those that begin it. -/
theorem find?_of_spellsLongest (longest : SpellsLongest lexer keywords) {later : String × TokenKind}
    (listed : later ∈ keywords) :
    (placedSpellings patterns keywords).find? (·.1.toList.isPrefixOf later.1.toList) = some later := by
  have starts : startsWord (spelledWords keywords) (later.1.toList.drop 0) = true :=
    startsWord_spelledWords.mpr ⟨later, listed, List.prefix_refl _⟩
  obtain ⟨token, mem, isStart⟩ := spellable.exists_token flags isTable defined listed
  obtain ⟨-, isKeyword, longest⟩ := longest later.1 (fun _ => false) (fun _ _ => rfl) token mem 0 isStart starts
  have found := spellable.token_of_spelling flags isTable keywordKind defined mem isStart starts
  rw [List.drop_zero] at found longest
  have isPrefix : token.text.toList <+: later.1.toList :=
    List.isPrefixOf_iff_prefix.mp (List.find?_eq_some_iff_append.mp found).1
  have same : token.text = later.1 := by
    have long := longest later listed (List.prefix_refl _)
    rw [← String.length_toList, ← String.length_toList] at long
    exact String.toList_injective (isPrefix.eq_of_length_le long)
  have isLater : (token.text, token.kind) = later :=
    List.inj_on_of_nodup_map spellable.distinct isKeyword listed same
  rw [found, isLater]

/-- If each spelling is the first in order of those that begin it, the tokens are the longest spellings. -/
theorem spellsLongest_of_pairwise (ordered : (placedSpellings patterns keywords).Pairwise fun earlier later =>
    ¬ earlier.1.toList <+: later.1.toList) : SpellsLongest lexer keywords := by
  intro text dropped kept token mem start isStart starts
  have named : "name" ∈ patterns.map (·.1) := by decide
  have found := spellable.token_of_spelling flags isTable keywordKind defined mem isStart starts
  have isKeyword := (mem_placedSpellings named).mp (List.mem_of_find?_eq_some found)
  refine ⟨?_, isKeyword, fun other listed isPrefix => ?_⟩
  · have mem : token ∈ (lexer.tile text).tokens := by simpa [lex] using mem
    simp [lex, mem, kept _ isKeyword]
  · -- what stands before the token in order does not begin the text, and what stands behind it is shorter
    obtain ⟨begins, before, after, placed, missed⟩ := List.find?_eq_some_iff_append.mp found
    have begins := List.isPrefixOf_iff_prefix.mp begins
    have listed := (mem_placedSpellings named).mpr listed
    rw [placed, List.pairwise_append, List.pairwise_cons] at ordered
    rw [placed, List.mem_append, List.mem_cons] at listed
    rcases listed with earlier | rfl | later
    · have never := missed other earlier
      rw [List.isPrefixOf_iff_prefix.mpr isPrefix] at never
      cases never
    · exact Nat.le_refl _
    · have shorter := length_lt_of_not_begins begins isPrefix (ordered.2.1.1 other later)
      rw [String.length_toList, String.length_toList] at shorter
      exact Nat.le_of_lt shorter

end Defined

end Spellable

/-- In the table of scripts with spellings in their places, where spellings stand at the start of a token, the token is
the first of them in the order of the table. It is always the longest of them exactly if no spelling is placed before
one that it begins. -/
theorem spellings_longest_iff {plain : Lexer} (flags : spec.flags = "") (isTable : spec.patterns = asData patterns)
    (keywordKind : spec.keywordKind = "name") (defined : Lexer.define spec = .ok plain)
    (spellable : Spellable keywords) :
    ∃ lexer, Lexer.define (spelledSpec spec patterns keywords) = .ok lexer ∧
      (∀ text : String, ∀ token ∈ (lexer.lex text fun _ => false).tokens, ∀ start : Nat, token.start = start →
        startsWord (spelledWords keywords) (text.toList.drop start) = true →
        (placedSpellings patterns keywords).find? (·.1.toList.isPrefixOf (text.toList.drop start)) =
          some (token.text, token.kind)) ∧
      (SpellsLongest lexer keywords ↔
        (placedSpellings patterns keywords).Pairwise fun earlier later => ¬ earlier.1.toList <+: later.1.toList) := by
  have named : "name" ∈ patterns.map (·.1) := by decide
  have placeable := placeable_patterns spellable.nameable
  have checked := checked_of_define flags isTable defined
  have joinable := checked.joinable alone_patterns
  obtain ⟨_, pattern, spelled⟩ := checked.spelled joinable placeable
  have defined' := spelled.define flags rfl
  have distinct := joinable.nodup_placedSpellings placeable (List.Nodup.of_map _ spellable.distinct)
  have flags : (spelledSpec spec patterns keywords).flags = "" := flags
  have keywordKind : (spelledSpec spec patterns keywords).keywordKind = "name" := keywordKind
  refine ⟨_, defined', fun text token mem start isStart starts =>
    spellable.token_of_spelling flags rfl keywordKind defined' mem isStart starts, fun longest => ?_, fun ordered =>
    spellable.spellsLongest_of_pairwise flags rfl keywordKind defined' ordered⟩
  refine (pairwise_iff_find? distinct).mpr fun later mem => ?_
  exact spellable.find?_of_spellsLongest flags rfl keywordKind defined' longest ((mem_placedSpellings named).mp mem)

/-- Two spellings of which one begins the other. -/
def nested (short long : TokenKind) : List (String × TokenKind) := [("如", short), ("如果", long)]

theorem spellable_nested {short long : TokenKind} (nameable : Nameable short) (nameable' : Nameable long)
    (other : short ≠ "name") (other' : long ≠ "name") : Spellable (nested short long) where
  distinct := by
    show ["如", "如果"].Nodup
    decide
  letter keyword mem := by
    have letter : ∀ text ∈ ["如", "如果"], text.toList.head?.any (letters.contains {}) = true := by decide +kernel
    exact letter keyword.1 (List.mem_map_of_mem mem)
  nameable := List.forall_mem_cons.mpr ⟨nameable, List.forall_mem_singleton.mpr nameable'⟩
  others := List.forall_mem_cons.mpr ⟨other, List.forall_mem_singleton.mpr other'⟩

/-- Of two spellings with kinds of their own the longer one has its place first. -/
theorem nested_longest : ∃ lexer,
    Lexer.define (spelledSpec english.lexerSpec patterns (nested "kw_as" "kw_if")) = .ok lexer ∧
    SpellsLongest lexer (nested "kw_as" "kw_if") := by
  obtain ⟨plain, defined, -⟩ := exists_lexer (lexes_of_known (.inl rfl))
  have spellable : Spellable (nested "kw_as" "kw_if") :=
    spellable_nested ⟨by decide +kernel, by decide +kernel, by decide, by decide⟩
      ⟨by decide +kernel, by decide +kernel, by decide, by decide⟩ (by decide) (by decide)
  obtain ⟨lexer, defined', -, longest⟩ := spellings_longest_iff rfl rfl rfl defined spellable
  exact ⟨lexer, defined', longest.mpr (by decide +kernel)⟩

/-- A spelling whose kind has its place behind that of a shorter one is not the token. -/
theorem shortSpelling_wins : ∃ lexer,
    Lexer.define (spelledSpec english.lexerSpec patterns (nested "kw_as" "amp2")) = .ok lexer ∧
    (∃ token ∈ (lexer.lex "如果" fun _ => false).tokens,
      token.start = 0 ∧ token.text = "如" ∧ token.kind = "kw_as") ∧
    ¬ SpellsLongest lexer (nested "kw_as" "amp2") := by
  obtain ⟨plain, defined, -⟩ := exists_lexer (lexes_of_known (.inl rfl))
  have spellable : Spellable (nested "kw_as" "amp2") :=
    spellable_nested ⟨by decide +kernel, by decide +kernel, by decide, by decide⟩
      ⟨by decide +kernel, by decide +kernel, by decide, by decide⟩ (by decide) (by decide)
  have checked : Checked english.lexerSpec patterns plain := checked_of_define rfl rfl defined
  obtain ⟨_, pattern, spelled⟩ :=
    checked.spelled (checked.joinable alone_patterns) (placeable_patterns spellable.nameable)
  have defined' := spelled.define rfl rfl
  have starts : startsWord (spelledWords (nested "kw_as" "amp2")) ("如果".toList.drop 0) = true := by decide +kernel
  have first : (placedSpellings patterns (nested "kw_as" "amp2")).find?
      (·.1.toList.isPrefixOf ("如果".toList.drop 0)) = some ("如", "kw_as") := by decide +kernel
  obtain ⟨token, mem, isStart⟩ :=
    spellable.exists_token rfl rfl defined' (List.mem_cons_of_mem _ List.mem_cons_self)
  have found := spellable.token_of_spelling rfl rfl rfl defined' mem isStart starts
  obtain ⟨isText, isKind⟩ := Prod.mk.inj (Option.some.inj (found.symm.trans first))
  refine ⟨_, defined', ⟨token, mem, isStart, isText, isKind⟩, fun longest => ?_⟩
  obtain ⟨-, -, longest⟩ := longest "如果" (fun _ => false) (fun _ _ => rfl) token mem 0 isStart starts
  have long := longest ("如果", "amp2") (List.mem_cons_of_mem _ List.mem_cons_self) (List.prefix_refl _)
  rw [isText] at long
  exact absurd long (by decide)

end Script

end Grammatic
