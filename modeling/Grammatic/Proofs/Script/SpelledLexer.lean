import Grammatic.Proofs.Lexer.Unmatched
import Grammatic.Proofs.Script.SpelledTable

/-!
# Lexers of spelled keywords

A table that is a lexer stays one when spellings get their places in it, provided that the kinds that are added can be
names of patterns (`Checked.spelled`). The texts that are written have no groups of their own, so the names of
the groups are as before, and the kinds are the only new ones.
-/

namespace Grammatic

namespace Pattern

variable {names : GroupNames} {p : Pattern}

@[simp] theorem groupNames_word (chars : List Char) : (word chars).groupNames = [] := by
  simp [word, groupNames_sequence, groupNames]

@[simp] theorem groupNames_words (words : List (List Char)) : (Pattern.choice (words.map word)).groupNames = [] := by
  simp [groupNames_choice]

/-- A text that is a pattern by itself is one in a group with a name, if the name is an identifier that no group in it
has. -/
theorem exists_read_groupText {name text : String} (isIdentifier : Text.isIdentifier name.toList = true)
    (inside : '>' ∉ name.toList) (read : Pattern.read {} text = .ok (p, names)) (fresh : name ∉ names) :
    ∃ q, Pattern.read {} (Lexer.groupText name text) = .ok (q, name :: names) := by
  obtain ⟨before, final, rfl, readable⟩ := exists_readable_of_read rfl read
  have opens {tail : List Char} {others : GroupNames} (_ : Borders tail)
      (new : ∀ other ∈ (GroupHead.capture (some name)).own, other ∉ others) :
      readGroupHead others (('?' :: 'P' :: '<' :: (name.toList ++ ['>'])) ++ (text.toList ++ ')' :: ([] ++ tail))) =
        .ok (.capture (some name), text.toList ++ ')' :: ([] ++ tail)) := by
    show readGroupHead others ('?' :: 'P' :: '<' :: (name.toList ++ ['>'] ++ _)) = _
    rw [List.append_assoc, List.singleton_append]
    exact readGroupHead_capture inside isIdentifier (new name (by simp [GroupHead.own])) _
  have chars : (Lexer.groupText name text).toList =
      '(' :: (('?' :: 'P' :: '<' :: (name.toList ++ ['>'])) ++ (text.toList ++ ')' :: [])) := by
    simp [Lexer.toList_groupText, enclosed]
  have own : name :: names = (GroupHead.capture (some name)).own ++ names ++ [] := by simp [GroupHead.own]
  have whole : Readable {} [] none (Lexer.groupText name text).toList []
      (.group (some name) (alternation before final)) (name :: names) := by
    rw [chars, own]
    exact .group opens (fun same => GroupHead.noConfusion same) readable .nil
  have lawful := (readAlternatives_of_read read).2
  exact ⟨_, whole.read (List.nodup_cons.mpr ⟨fresh, (groupNames_of_read read).2⟩) ⟨lawful.looks, lawful.supported⟩⟩

end Pattern

namespace Script

open Pattern Lexer Spelling

variable {table : List (String × String)} {keywords : List (String × TokenKind)} {kind : TokenKind} {name text : String}
  {names : GroupNames} {p : Pattern} {spec : LexerSpec} {lexer : Lexer}

/-! ## Tables that can be joined -/

/-- A name that a pattern of a lexer can have. -/
structure Nameable (name : String) : Prop where
  isName : Text.isName name = true
  isIdentifier : Text.isIdentifier name.toList = true
  notEnd : name ≠ Token.endOfText
  notInvalid : name ≠ Token.invalid

/-- The names of the groups in a text. -/
def groupsOf (text : String) : GroupNames := ((alone? {} (text : Datum)).getD .empty).groupNames

/-- The names of all groups that a table is joined of. -/
def groupsIn (table : List (String × String)) : GroupNames := table.flatMap fun entry => entry.1 :: groupsOf entry.2

/-- A table whose texts are patterns by themselves and have names that can be joined. -/
structure Joinable (table : List (String × String)) : Prop where
  alone : ∀ entry ∈ table, (alone? {} (entry.2 : Datum)).isSome = true
  nameable : ∀ entry ∈ table, Nameable entry.1
  nodup : (groupsIn table).Nodup

theorem groupsOf_eq (isAlone : alone? {} (text : Datum) = some p) : groupsOf text = p.groupNames := by
  rw [groupsOf, isAlone]
  rfl

theorem Nameable.inside (nameable : Nameable name) : '>' ∉ name.toList := not_mem_of_isName nameable.isName

/-- A text passes its check under a name that can be that of a pattern, if no group in it has the name or another name
of the table. -/
theorem Nameable.exists_checkPattern (nameable : Nameable name) (isAlone : alone? {} (text : Datum) = some p)
    (fresh : name ∉ p.groupNames) (apart : ∀ group ∈ p.groupNames, group ∉ names) :
    ∃ pattern, checkPattern {} names name (text : Datum) = .ok pattern := by
  obtain ⟨groups, read⟩ := exists_read_of_alone isAlone
  obtain rfl : p.groupNames = groups := (groupNames_of_read read).1
  obtain ⟨q, wrapped⟩ := exists_read_groupText nameable.isIdentifier nameable.inside read fresh
  have valid : validName (name : Datum) = .ok name := by
    simp [validName, Datum.text?, nameable.isName, nameable.notEnd]
  have noConflict : (name :: p.groupNames).find? (fun group => group ∈ names ∧ group ≠ name) = none := by
    rw [List.find?_eq_none]
    intro group mem
    rcases List.mem_cons.mp mem with rfl | mem
    · simp
    · simp [apart group mem]
  refine ⟨⟨name, groupText name text, q⟩, ?_⟩
  simp only [checkPattern, valid, bind, Except.bind, if_neg nameable.notInvalid, Datum.text?, wrapped]
  simp only [Flags.conflict, Bool.false_and, Bool.false_eq_true, if_false, noConflict]
  rfl

theorem nameable_of_checkPattern {pattern : LexPattern}
    (checked : checkPattern {} names name (text : Datum) = .ok pattern) (isAlone : alone? {} (text : Datum) = some p) :
    Nameable name := by
  obtain ⟨_, _, passed⟩ := passed_of_checkPattern checked
  exact ⟨isName_of_validName passed.valid, (encloses_of_checkPattern checked isAlone).isIdentifier,
    ne_endOfText_of_validName passed.valid, passed.free⟩

theorem joinedNames_told : joinedNames ((asData table).map (told {})) = groupsIn table := by
  rw [joinedNames, asData, List.map_map, List.flatMap_map]
  rfl

theorem map_asData : (asData table).map (·.1) = table.map (·.1) := by
  rw [asData, List.map_map]
  rfl

theorem alone_asData (alone : ∀ entry ∈ table, (alone? {} (entry.2 : Datum)).isSome = true) :
    ∀ entry ∈ asData table, (alone? {} entry.2).isSome = true := by
  intro entry mem
  obtain ⟨entry, listed, rfl⟩ := List.mem_map.mp mem
  exact alone entry listed

/-- Texts in the language are patterns by themselves, if nothing but the language keeps them from being such. -/
theorem alone_of_asData (language : InLanguage {} (asData table)) (standing : StandAlone {} (asData table)) :
    ∀ entry ∈ table, (alone? {} (entry.2 : Datum)).isSome = true := by
  intro entry mem
  refine language.alone standing (fun other listed => ?_) _ (List.mem_map_of_mem mem)
  obtain ⟨other, -, rfl⟩ := List.mem_map.mp listed
  exact ⟨other.2, rfl⟩

/-- The groups of checked texts can be joined if and only if all their names are different. -/
theorem exists_join_iff_nodup {checked : List LexPattern} (nonempty : table ≠ [])
    (all : (asData table).mapM (checkEntry {} (asData table)) = .ok checked)
    (alone : ∀ entry ∈ table, (alone? {} (entry.2 : Datum)).isSome = true) :
    (∃ pattern, join {} checked = .ok pattern) ↔ (groupsIn table).Nodup := by
  have encloses : ∀ entry ∈ (asData table).map (told {}), Encloses {} entry.1 entry.2.1 entry.2.2 := by
    intro entry mem
    obtain ⟨entry, listed, rfl⟩ := List.mem_map.mp mem
    obtain ⟨pattern, checked⟩ := exists_of_mapM_ok all listed
    exact encloses_told checked (alone_asData alone entry listed)
  rw [exists_join_iff_exists_read, exists_read_iff encloses (by simpa [asData] using nonempty) (toList_joinedText all),
    joinedNames_told]

/-- What the parts of a definition without flags are checked to be. -/
structure Checked (spec : LexerSpec) (table : List (String × String)) (lexer : Lexer) : Prop where
  nonempty : table ≠ []
  flags : lexer.flags = {}
  patterns : (asData table).mapM (checkEntry {} (asData table)) = .ok lexer.patterns
  pattern : join {} lexer.patterns = .ok lexer.pattern
  keywords : checkKeywords (table.map (·.1)) spec.keywordKind spec.keywords = .ok lexer.keywords
  keywordKind : lexer.keywordKind = spec.keywordKind
  drop : checkDrop (table.map (·.1)) spec.drop = .ok lexer.drop

theorem checked_of_define (flags : spec.flags = "") (patterns : spec.patterns = asData table)
    (defined : Lexer.define spec = .ok lexer) : Checked spec table lexer := by
  have letters : readFlags spec.flags = .ok {} := by rw [flags]; rfl
  rw [define_of_readFlags letters, patterns] at defined
  split at defined
  next => cases defined
  next nonempty =>
    obtain ⟨checked, all, defined⟩ := exists_of_bind_ok defined
    obtain ⟨pattern, joined, defined⟩ := exists_of_bind_ok defined
    obtain ⟨retagged, words, defined⟩ := exists_of_bind_ok defined
    obtain ⟨drop, dropped, defined⟩ := exists_of_bind_ok defined
    obtain rfl := Except.ok.inj defined
    rw [map_asData] at words dropped
    exact ⟨fun none => nonempty (none ▸ rfl), rfl, all, joined, words, rfl, dropped⟩

theorem Checked.define (checked : Checked spec table lexer) (flags : spec.flags = "")
    (patterns : spec.patterns = asData table) : Lexer.define spec = .ok lexer := by
  have letters : readFlags spec.flags = .ok {} := by rw [flags]; rfl
  have nonempty : asData table ≠ [] := by simpa [asData] using checked.nonempty
  rw [define_of_readFlags letters]
  simp only [patterns, if_neg nonempty, checked.patterns, bind, Except.bind, checked.pattern, map_asData,
    checked.keywords, checked.drop]
  rw [← checked.keywordKind, ← checked.flags]
  rfl

/-- The table of a lexer can be joined, if its texts are patterns by themselves. -/
theorem Checked.joinable (checked : Checked spec table lexer)
    (alone : ∀ entry ∈ table, (alone? {} (entry.2 : Datum)).isSome = true) : Joinable table := by
  refine ⟨alone, fun entry listed => ?_,
    (exists_join_iff_nodup checked.nonempty checked.patterns alone).mp ⟨_, checked.pattern⟩⟩
  obtain ⟨p, isAlone⟩ := Option.isSome_iff_exists.mp (alone entry listed)
  obtain ⟨pattern, made⟩ := exists_of_mapM_ok checked.patterns (List.mem_map_of_mem listed)
  exact nameable_of_checkPattern made isAlone

/-- Two entries of a table that can be joined have no name in common. -/
theorem Joinable.eq_of_mem {entry other : String × String} (joinable : Joinable table) (listed : entry ∈ table)
    (listed' : other ∈ table) (mem : name ∈ entry.1 :: groupsOf entry.2) (mem' : name ∈ other.1 :: groupsOf other.2) :
    entry = other := by
  have apart := (List.nodup_flatMap.mp joinable.nodup).2
  have symmetric : Std.Symm (Function.onFun List.Disjoint fun entry : String × String =>
      entry.1 :: groupsOf entry.2) := ⟨fun _ _ => List.disjoint_symm⟩
  exact Classical.byContradiction fun differs => apart.forall listed listed' differs mem mem'

/-- A table that can be joined passes all checks of its patterns. -/
theorem Joinable.exists_join (joinable : Joinable table) (nonempty : table ≠ []) :
    ∃ checked pattern, (asData table).mapM (checkEntry {} (asData table)) = .ok checked ∧
      join {} checked = .ok pattern := by
  have each := (List.nodup_flatMap.mp joinable.nodup).1
  have all : ∀ entry ∈ asData table, ∃ pattern, checkEntry {} (asData table) entry = .ok pattern := by
    intro entry mem
    obtain ⟨entry, listed, rfl⟩ := List.mem_map.mp mem
    obtain ⟨p, isAlone⟩ := Option.isSome_iff_exists.mp (joinable.alone entry listed)
    refine (joinable.nameable entry listed).exists_checkPattern isAlone ?_ fun group mem known => ?_
    · rw [← groupsOf_eq isAlone]
      exact (List.nodup_cons.mp (each entry listed)).1
    · rw [map_asData] at known
      obtain ⟨other, listed', same⟩ := List.mem_map.mp known
      rw [← groupsOf_eq isAlone] at mem
      obtain rfl := joinable.eq_of_mem listed listed' (List.mem_cons_of_mem _ mem) (same ▸ List.mem_cons_self)
      exact (List.nodup_cons.mp (each entry listed)).1 (same ▸ mem)
  obtain ⟨checked, made, -⟩ := exists_mapM all fun entry pattern checked => checkPattern_parts checked
  obtain ⟨pattern, joined⟩ := (exists_join_iff_nodup nonempty made joinable.alone).mpr joinable.nodup
  exact ⟨checked, pattern, made, joined⟩

/-! ## Tables with spellings -/

/-- The kinds of spellings have a place in a table, or can be the names of patterns and are those of no groups. -/
def Placeable (table : List (String × String)) (keywords : List (String × TokenKind)) : Prop :=
  ∀ keyword ∈ keywords, keyword.2 ∈ table.map (·.1) ∨ Nameable keyword.2 ∧ ∀ entry ∈ table, keyword.2 ∉ groupsOf entry.2

theorem nodup_eraseDups {α : Type} [BEq α] [LawfulBEq α] (items : List α) : items.eraseDups.Nodup := by
  induction length : items.length using Nat.strongRecOn generalizing items with
  | ind _ ih =>
    cases items with
    | nil => exact List.nodup_nil
    | cons item items =>
      rw [List.eraseDups_cons, List.nodup_cons, List.mem_eraseDups]
      have less := Nat.lt_succ_of_le (List.length_filter_le (fun other => !other == item) items)
      exact ⟨by simp, ih _ (length ▸ less) _ rfl⟩

theorem nodup_addedKinds : (addedKinds table keywords).Nodup := (nodup_eraseDups _).filter _

/-- An entry of a table with spellings is added for a kind, is that of names, or is one that spellings may have
joined. -/
theorem cases_of_mem_spelled {entry : String × String} (mem : entry ∈ spelledPatterns table keywords) :
    (∃ kind ∈ addedKinds table keywords,
      entry = (kind, alternatives (patternsOfKind (longestFirst keywords) kind))) ∨
    (entry = ("name", Spelling.namePattern (longestFirst keywords)) ∧ "name" ∈ table.map (·.1)) ∨
    ∃ given ∈ table, given.1 ≠ "name" ∧
      entry = (given.1, alternatives (given.2 :: patternsOfKind (longestFirst keywords) given.1)) := by
  obtain ⟨given, listed, mem⟩ := List.mem_flatMap.mp mem
  dsimp only at mem
  split at mem
  next isName =>
    rcases List.mem_append.mp mem with mem | mem
    · obtain ⟨kind, added, rfl⟩ := List.mem_map.mp mem
      exact .inl ⟨kind, added, rfl⟩
    · rw [List.mem_singleton.mp mem, isName]
      exact .inr (.inl ⟨rfl, isName ▸ List.mem_map_of_mem listed⟩)
  next other => exact .inr (.inr ⟨given, listed, other, List.mem_singleton.mp mem⟩)

theorem groupsOf_added (mem : kind ∈ addedKinds table keywords) :
    groupsOf (alternatives (patternsOfKind (longestFirst keywords) kind)) = [] := by
  rw [groupsOf_eq (alone_added mem), groupNames_words]

theorem groupsOf_namePattern : groupsOf (Spelling.namePattern (longestFirst keywords)) = [] := by
  rw [groupsOf_eq (alone_namePattern keywords), namePattern, guarded, guarded, if_neg guards_ne_nil,
    if_neg guards_ne_nil]
  simp [groupNames]

/-- Spellings bring no groups along. -/
theorem exists_joined (isAlone : alone? {} (text : Datum) = some p) (kind : TokenKind) :
    ∃ q, alone? {} (alternatives (text :: patternsOfKind (longestFirst keywords) kind) : Datum) = some q ∧
      q.groupNames = p.groupNames := by
  obtain ⟨q, isAlone', groups, -⟩ :=
    exists_alone_alternatives isAlone (((longestFirst keywords).filter (·.2 = kind)).map (·.1))
  rw [← patternsOfKind_eq] at isAlone'
  exact ⟨q, isAlone', groups⟩

theorem alone_spelled (alone : ∀ entry ∈ table, (alone? {} (entry.2 : Datum)).isSome = true) :
    ∀ entry ∈ spelledPatterns table keywords, (alone? {} (entry.2 : Datum)).isSome = true := by
  intro entry mem
  rcases cases_of_mem_spelled mem with ⟨kind, added, rfl⟩ | ⟨rfl, -⟩ | ⟨given, listed, -, rfl⟩
  · rw [alone_added added]
    rfl
  · rw [alone_namePattern]
    rfl
  · obtain ⟨p, isAlone⟩ := Option.isSome_iff_exists.mp (alone given listed)
    obtain ⟨q, isAlone', -⟩ := exists_joined isAlone given.1
    rw [isAlone']
    rfl

/-- The groups of a table with spellings are those of the table, with the kinds that are added in place of the groups
in names. -/
theorem Joinable.groupsIn_spelled (joinable : Joinable table) : groupsIn (spelledPatterns table keywords) =
    table.flatMap fun entry =>
      if entry.1 = "name" then addedKinds table keywords ++ ["name"] else entry.1 :: groupsOf entry.2 := by
  rw [groupsIn, spelledPatterns, List.flatMap_assoc]
  refine List.flatMap_congr fun entry listed => ?_
  dsimp only
  by_cases isName : entry.1 = "name"
  · rw [if_pos isName, if_pos isName, List.flatMap_append, List.flatMap_map, List.flatMap_singleton,
      groupsOf_namePattern, isName]
    refine congrArg (· ++ ["name"]) ((List.flatMap_congr fun kind mem => ?_).trans (List.flatMap_singleton' _))
    rw [groupsOf_added mem]
  · obtain ⟨p, isAlone⟩ := Option.isSome_iff_exists.mp (joinable.alone entry listed)
    obtain ⟨q, isAlone', same⟩ := exists_joined isAlone entry.1
    rw [if_neg isName, if_neg isName, List.flatMap_singleton, groupsOf_eq isAlone, groupsOf_eq isAlone', same]

/-- A table that can be joined can be joined with spellings in their places. -/
theorem Joinable.spelled (joinable : Joinable table) (placeable : Placeable table keywords) :
    Joinable (spelledPatterns table keywords) := by
  have added {kind : TokenKind} (mem : kind ∈ addedKinds table keywords) :
      Nameable kind ∧ ∀ entry ∈ table, kind ∉ entry.1 :: groupsOf entry.2 := by
    obtain ⟨new, keyword, listed, rfl⟩ := exists_of_mem_addedKinds mem
    obtain ⟨nameable, fresh⟩ := (placeable keyword listed).resolve_left new
    refine ⟨nameable, fun entry mem => List.not_mem_cons_of_ne_of_not_mem (fun same => ?_) (fresh entry mem)⟩
    exact new (same ▸ List.mem_map_of_mem mem)
  refine ⟨alone_spelled joinable.alone, fun entry mem => ?_, ?_⟩
  · rcases cases_of_mem_spelled mem with ⟨kind, isAdded, rfl⟩ | ⟨rfl, isName⟩ | ⟨given, listed, -, rfl⟩
    · exact (added isAdded).1
    · obtain ⟨entry, listed, same⟩ := List.mem_map.mp isName
      exact same ▸ joinable.nameable entry listed
    · exact joinable.nameable given listed
  · obtain ⟨each, apart⟩ := List.nodup_flatMap.mp joinable.nodup
    rw [joinable.groupsIn_spelled, List.nodup_flatMap]
    refine ⟨fun entry listed => ?_, apart.imp_of_mem ?_⟩
    · split
      next isName =>
        refine List.nodup_append.mpr ⟨nodup_addedKinds, List.nodup_singleton _, ?_⟩
        rintro kind mem _ (_ | ⟨_, ⟨⟩⟩) rfl
        exact (added mem).2 entry listed (isName ▸ List.mem_cons_self)
      next => exact each entry listed
    · -- two entries have none of the kinds that are added, and at most one of them is that of names
      intro entry other listed listed' disjoint
      have given {entry : String × String} {group : String} (mem : group ∈ if entry.1 = "name" then
          addedKinds table keywords ++ ["name"] else entry.1 :: groupsOf entry.2) :
          group ∈ entry.1 :: groupsOf entry.2 ∨ group ∈ addedKinds table keywords ∧ entry.1 = "name" := by
        split at mem
        next isName =>
          rcases List.mem_append.mp mem with mem | mem
          · exact .inr ⟨mem, isName⟩
          · exact .inl (List.mem_singleton.mp mem ▸ isName ▸ List.mem_cons_self)
        next => exact .inl mem
      intro group mem mem'
      rcases given mem with mem | ⟨isAdded, isName⟩
      · rcases given mem' with mem' | ⟨isAdded', -⟩
        · exact disjoint mem mem'
        · exact (added isAdded').2 entry listed mem
      · rcases given mem' with mem' | ⟨-, isName'⟩
        · exact (added isAdded).2 other listed' mem'
        · exact disjoint List.mem_cons_self (isName.trans isName'.symm ▸ List.mem_cons_self)

/-! ## Definitions with spellings -/

/-- A definition in which the spellings of a keyword table have their places. -/
def spelledSpec (spec : LexerSpec) (table : List (String × String)) (keywords : List (String × TokenKind)) :
    LexerSpec :=
  { spec with patterns := asData (spelledPatterns table keywords) }

theorem names_subset_spelled : table.map (·.1) ⊆ (spelledPatterns table keywords).map (·.1) := by
  intro name mem
  obtain ⟨entry, listed, rfl⟩ := List.mem_map.mp mem
  rw [spelledPatterns, List.map_flatMap]
  refine List.mem_flatMap.mpr ⟨entry, listed, ?_⟩
  dsimp only
  split <;> simp

/-- The keywords and the kinds to drop of a definition pass their checks in a larger table, too. -/
theorem checkKeywords_of_subset {others : List String} {keywordKind : String} {entries : List (String × Datum)}
    {found : List (String × TokenKind)} (subset : names ⊆ others)
    (checked : checkKeywords names keywordKind entries = .ok found) :
    checkKeywords others keywordKind entries = .ok found := by
  unfold checkKeywords at checked ⊢
  simp only [bind, Except.bind, throw, throwThe, MonadExceptOf.throw] at checked ⊢
  split at checked
  next => cases checked
  next known =>
    rw [if_neg fun unknown => known ⟨unknown.1, fun mem => unknown.2 (subset mem)⟩]
    exact checked

theorem checkDrop_of_subset {others drop : List String} {found : StringSet} (subset : names ⊆ others)
    (checked : checkDrop names drop = .ok found) : checkDrop others drop = .ok found := by
  unfold checkDrop at checked ⊢
  dsimp only at checked ⊢
  split at checked
  next => cases checked
  next known =>
    have known' : (StringSet.ofList drop).toList.find? (· ∉ others) = none := by
      rw [List.find?_eq_none] at known ⊢
      intro kind mem unknown
      exact known kind mem (decide_eq_true fun listed => of_decide_eq_true unknown (subset listed))
    rw [known']
    exact checked

/-- A lexer stays one when spellings get their places in its table. -/
theorem Checked.spelled (checked : Checked spec table lexer) (joinable : Joinable table)
    (placeable : Placeable table keywords) : ∃ patterns pattern,
      Checked (spelledSpec spec table keywords) (spelledPatterns table keywords)
        { lexer with patterns, pattern } := by
  have subset : table.map (·.1) ⊆ (spelledPatterns table keywords).map (·.1) := names_subset_spelled
  have nonempty : spelledPatterns table keywords ≠ [] := by
    intro none
    rw [none] at subset
    exact checked.nonempty (List.map_eq_nil_iff.mp (List.subset_nil.mp subset))
  obtain ⟨patterns, pattern, all, joined⟩ := (joinable.spelled placeable).exists_join nonempty
  exact ⟨patterns, pattern, nonempty, checked.flags, all, joined, checkKeywords_of_subset subset checked.keywords,
    checked.keywordKind, checkDrop_of_subset subset checked.drop⟩

end Script

end Grammatic
