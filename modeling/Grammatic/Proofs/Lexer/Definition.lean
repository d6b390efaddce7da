import Grammatic.Lexer.Basic

/-!
# Definitions that are lexers

A definition is a lexer when each pattern passes its check, and so do the joined text, the keywords and
the kinds to drop (`define_of_checks`). The joined text is that of the definition itself, so it can be
checked without knowing what the patterns by themselves are. It is given as its characters, which are
those of short texts one behind the other.

No keyword of a lexer has the kind of the end token (`keyword_ne_endOfText`), which is a reserved name.
-/

namespace Grammatic

/-- The characters of the texts of the patterns of a definition, as alternatives. -/
def LexerSpec.joinedChars (spec : LexerSpec) : List Char :=
  ['|'].intercalate (spec.patterns.map fun entry =>
    "(?P<".toList ++ entry.1.toList ++ ['>'] ++ (entry.2.text?.getD "").toList ++ [')'])

/-- Checks that pass for all members of a list give a list, in which what can be told beforehand of
each result is as foretold. -/
theorem exists_mapM {α β γ ε : Type} {f : α → Except ε β} {told : α → γ} {tells : β → γ}
    {items : List α} (all : ∀ item ∈ items, ∃ value, f item = .ok value)
    (known : ∀ item value, f item = .ok value → tells value = told item) :
    ∃ values, items.mapM f = .ok values ∧ values.map tells = items.map told := by
  induction items with
  | nil => exact ⟨[], rfl, rfl⟩
  | cons item rest ih =>
    obtain ⟨value, first⟩ := all item List.mem_cons_self
    obtain ⟨values, more, same⟩ := ih fun other mem => all other (List.mem_cons_of_mem _ mem)
    refine ⟨value :: values, ?_, ?_⟩
    · rw [List.mapM_cons, first, more]
      rfl
    · rw [List.map_cons, List.map_cons, known item value first, same]

theorem exists_ok_of_isOk {α ε : Type} {result : Except ε α} (isOk : result.isOk = true) :
    ∃ value, result = .ok value := by
  cases result with
  | error _ => exact nomatch isOk
  | ok value => exact ⟨value, rfl⟩

theorem eq_ok_of_toOption {α ε : Type} {result : Except ε α} {value : α}
    (same : result.toOption = some value) : result = .ok value := by
  cases result with
  | error _ => exact nomatch same
  | ok other => exact congrArg Except.ok (Option.some.inj same)

/-- What has to have come out of the parts of a check that has passed. -/
theorem exists_of_bind_ok {α β ε : Type} {first : Except ε α} {next : α → Except ε β} {value : β}
    (made : first >>= next = .ok value) : ∃ result, first = .ok result ∧ next result = .ok value := by
  cases first with
  | error e => cases made
  | ok result => exact ⟨result, rfl, made⟩

namespace Lexer

theorem validName_text {name text : String} (valid : validName (name : Datum) = .ok text) :
    text = name := by
  unfold validName at valid
  simp only [Datum.text?] at valid
  split at valid
  next => exact nomatch valid
  next =>
    split at valid
    next => exact nomatch valid
    next => exact (Except.ok.inj valid).symm

/-- What the check of a pattern has found: a name that is free, a text that can be read in the group that carries the
name, and no group in it with another name of the table. -/
structure Passed (flags : Flags) (names : List String) (name : String) (value : Datum) (pattern : LexPattern)
    (text : String) (read : Pattern × Pattern.GroupNames) : Prop where
  valid : validName name = .ok name
  free : name ≠ Token.invalid
  isText : value.text? = some text
  agree : flags.conflict = false
  wrapped : Pattern.read flags (groupText name text) = .ok read
  apart : ∀ group ∈ read.2, group ∈ names → group = name
  made : pattern = ⟨name, groupText name text, read.1⟩

theorem passed_of_checkPattern {flags : Flags} {names : List String} {name : String} {value : Datum}
    {pattern : LexPattern} (checked : checkPattern flags names name value = .ok pattern) :
    ∃ text read, Passed flags names name value pattern text read := by
  unfold checkPattern at checked
  simp only [bind, Except.bind, pure, Except.pure, throw, throwThe, MonadExceptOf.throw] at checked
  split at checked
  next => cases checked
  next valid =>
    obtain rfl := validName_text valid
    split at checked
    next => cases checked
    next free =>
      split at checked
      next => cases checked
      next text isText =>
        split at checked
        next => cases checked
        next agree =>
          split at checked
          next => cases checked
          next read =>
            split at checked
            next => cases checked
            next noConflict =>
              refine ⟨text, _, valid, free, isText, Bool.not_eq_true _ ▸ agree, read, fun group mem listed => ?_,
                (Except.ok.inj checked).symm⟩
              have := List.find?_eq_none.mp noConflict group mem
              simpa [listed] using this

/-- What a checked pattern is called, and its text. -/
theorem checkPattern_parts {flags : Flags} {names : List String} {name : String} {value : Datum}
    {pattern : LexPattern} (checked : checkPattern flags names name value = .ok pattern) :
    (pattern.kind, pattern.text) = (name, groupText name (value.text?.getD "")) := by
  obtain ⟨text, read, passed⟩ := passed_of_checkPattern checked
  rw [passed.made, passed.isText]
  rfl

/-- A definition whose checks all pass is a lexer. -/
theorem define_of_checks {spec : LexerSpec} {flags : Flags} {keywords : List (String × TokenKind)}
    {read : Pattern × Pattern.GroupNames} {drop : StringSet} (some : spec.patterns ≠ [])
    (letters : readFlags spec.flags = .ok flags)
    (patterns : ∀ entry ∈ spec.patterns, ∃ pattern,
      checkPattern flags (spec.patterns.map (·.1)) entry.1 entry.2 = .ok pattern)
    (joined : Pattern.readChars flags spec.joinedChars = .ok read)
    (words : checkKeywords (spec.patterns.map (·.1)) spec.keywordKind spec.keywords = .ok keywords)
    (dropped : checkDrop (spec.patterns.map (·.1)) spec.drop = .ok drop) :
    ∃ checked, checked.map (·.kind) = spec.patterns.map (·.1) ∧
      define spec = .ok ⟨flags, checked, read.1, keywords, spec.keywordKind, drop⟩ := by
  obtain ⟨checked, all, same⟩ := exists_mapM patterns fun _ _ checked => checkPattern_parts checked
  have kinds : checked.map (·.kind) = spec.patterns.map (·.1) := by
    have firsts := congrArg (List.map Prod.fst) same
    simpa only [List.map_map, Function.comp_def] using firsts
  have chars : (joinedText checked).toList = spec.joinedChars := by
    have seconds := congrArg (List.map Prod.snd) same
    simp only [List.map_map, Function.comp_def] at seconds
    simp only [joinedText, seconds, String.toList_intercalate, List.map_map, Function.comp_def,
      groupText, String.toList_append]
    rfl
  have join : join flags checked = .ok read.1 := by
    have same : Pattern.read flags (joinedText checked) =
        Pattern.readChars flags (joinedText checked).toList := rfl
    rw [Lexer.join, same, chars, joined]
  refine ⟨checked, kinds, ?_⟩
  unfold define
  rw [letters]
  simp only [bind, Except.bind, pure, Except.pure, if_neg some, all, join, words, dropped]

/-! ## Kinds of keywords -/

theorem mem_of_mapM_ok {α β ε : Type} {f : α → Except ε β} {items : List α} {values : List β}
    (all : items.mapM f = .ok values) {value : β} (mem : value ∈ values) :
    ∃ item ∈ items, f item = .ok value := by
  induction items generalizing values with
  | nil =>
    obtain rfl := Except.ok.inj all
    cases mem
  | cons item rest ih =>
    rw [List.mapM_cons] at all
    obtain ⟨head, first, all⟩ := exists_of_bind_ok all
    obtain ⟨tail, others, all⟩ := exists_of_bind_ok all
    obtain rfl := Except.ok.inj all
    rcases List.mem_cons.mp mem with rfl | mem
    · exact ⟨item, List.mem_cons_self, first⟩
    · obtain ⟨other, mem, made⟩ := ih others mem
      exact ⟨other, List.mem_cons_of_mem _ mem, made⟩

theorem ne_endOfText_of_validName {name : Datum} {text : String} (valid : validName name = .ok text) :
    text ≠ Token.endOfText := by
  unfold validName at valid
  split at valid
  next => cases valid
  next =>
    split at valid
    next => cases valid
    next =>
      split at valid
      next => cases valid
      next other =>
        obtain rfl := Except.ok.inj valid
        exact other

/-- No keyword has the kind of the end token. -/
theorem keyword_ne_endOfText {spec : LexerSpec} {lexer : Lexer} (defined : define spec = .ok lexer)
    {kind : TokenKind} (mem : kind ∈ lexer.keywords.map (·.2)) : kind ≠ Token.endOfText := by
  unfold define at defined
  obtain ⟨flags, -, defined⟩ := exists_of_bind_ok defined
  split at defined
  next => cases defined
  next =>
    obtain ⟨patterns, -, defined⟩ := exists_of_bind_ok defined
    obtain ⟨pattern, -, defined⟩ := exists_of_bind_ok defined
    obtain ⟨keywords, words, defined⟩ := exists_of_bind_ok defined
    obtain ⟨drop, -, defined⟩ := exists_of_bind_ok defined
    obtain rfl := Except.ok.inj defined
    unfold checkKeywords at words
    split at words
    next => cases words
    next =>
      obtain ⟨entry, listed, rfl⟩ := List.mem_map.mp mem
      obtain ⟨given, -, made⟩ := mem_of_mapM_ok words listed
      unfold checkKeyword at made
      obtain ⟨name, valid, made⟩ := exists_of_bind_ok made
      split at made
      next => cases made
      next =>
        obtain rfl := Except.ok.inj made
        exact ne_endOfText_of_validName valid

end Lexer

end Grammatic
