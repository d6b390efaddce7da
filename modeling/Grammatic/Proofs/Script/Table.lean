import Grammatic.Proofs.Lexer.Joining
import Grammatic.Proofs.Lexer.Parts
import Grammatic.Proofs.Script.Lexing
import Grammatic.Proofs.Script.Quoted

/-!
# What the patterns of scripts match

The table of a lexer for scripts has seven patterns of a form of their own, and others that are just words to be
matched (`Spells`). So what is hit at the start of a text can be told by its first character, if that is one of
those that begin a quoted text, a comment, a newline or spaces. And it does not change when something else comes
behind it, provided that what comes is nothing or a space (`Spells.hit_taken`, `Spells.hit_missed`). Names are the
reason why that is not plain: in Chinese they end where a keyword starts, so a pattern of names looks ahead.
-/

namespace Grammatic

namespace Script

open Pattern Lexer

/-! ## The patterns of the table -/

/-- The pattern of a number of blanks of one kind. -/
def blanksPattern (c : Char) : Pattern := .repeated true 1 none (.set (.single c))

/-- The pattern of newlines. -/
def newlinePattern : Pattern :=
  .seq (.repeated true 0 (some 1) (.set (.single '\r'))) (.set (.single '\n'))

/-- The pattern of comments. -/
def commentPattern : Pattern := .seq (.set (.single '#')) (.repeated true 0 none (.set (.allBut ['\n'])))

/-- The characters of names. -/
def wordChars : CharSet := ⟨false, [.ofClass .word false]⟩

/-- The characters that names begin with. -/
def letters : CharSet := ⟨true, [.ofClass .word true, .ofClass .digit false]⟩

/-- A character of a set at which none of some words starts. -/
def guarded (words : List (List Char)) (s : CharSet) : Pattern :=
  if words = [] then .set s else .seq (.ahead false (Pattern.choice (words.map word))) (.set s)

/-- The pattern of names that end where one of some words starts. -/
def namePattern (words : List (List Char)) : Pattern :=
  .seq (guarded words letters) (.repeated true 0 none (guarded words wordChars))

/-- The entries that are neither names nor just words. -/
def formedEntries : List (String × Pattern) := [
  ("spaces", blanksPattern ' '),
  ("tabs", blanksPattern '\t'),
  ("newline", newlinePattern),
  ("comment", commentPattern),
  ("number", numberPattern),
  ("string", quotedPattern)]

/-- The characters that have a meaning of their own at the start of a token or in a quoted text. -/
def specialChars : List Char := [' ', '#', '"', '\\', '\n']

/-- The characters of a pattern that is a word. -/
def spelling? : Pattern → Option (List Char)
  | .set ⟨_, [.range c _]⟩ => some [c]
  | .seq p q => (spelling? p).bind fun chars => (spelling? q).map (chars ++ ·)
  | _ => none

/-- Whether a pattern is a choice of words without special characters. Those that begin with a letter have to be
among the words that end a name. -/
def isVerbal (words : List (List Char)) (p : Pattern) : Bool :=
  p.isBlind && specialChars.all (p.avoids {}) && p.branches.all fun branch =>
    (spelling? branch).any fun chars =>
      branch = word chars && (!chars.head?.any (letters.contains {}) || chars ∈ words)

/-- What the check of a choice of words says. -/
theorem of_isVerbal {words : List (List Char)} {p : Pattern} (verbal : isVerbal words p = true) :
    p.isBlind = true ∧ (∀ c ∈ specialChars, p.avoids {} c = true) ∧ ∀ branch ∈ p.branches, ∃ chars,
      spelling? branch = some chars ∧ branch = word chars ∧
        (chars.head?.any (letters.contains {}) = true → chars ∈ words) := by
  rw [isVerbal, Bool.and_eq_true, Bool.and_eq_true, List.all_eq_true, List.all_eq_true] at verbal
  obtain ⟨⟨blind, avoids⟩, branches⟩ := verbal
  refine ⟨blind, avoids, fun branch mem => ?_⟩
  obtain ⟨chars, spelled, isWord⟩ := (Option.any_eq_true _ _).mp (branches branch mem)
  rw [Bool.and_eq_true, decide_eq_true_eq, Bool.or_eq_true, Bool.not_eq_true', decide_eq_true_eq] at isWord
  exact ⟨chars, spelled, isWord.1, fun letter => isWord.2.resolve_left (by simp [letter])⟩

/-- A lexer spells the tokens of scripts by a table, with names that end where one of some words starts. -/
structure Spells (lexer : Lexer) (table : List (String × Pattern)) (words : List (List Char)) : Prop where
  flags : lexer.flags = {}
  lists : lexer.Lists table
  formed : ∀ entry ∈ formedEntries, entry ∈ table
  cases : ∀ entry ∈ table,
    entry ∈ formedEntries ∨ entry = ("name", namePattern words) ∨ isVerbal words entry.2 = true
  /-- What ends a name is a token. -/
  words : ∀ w ∈ words, ' ' ∉ w ∧ ∃ entry ∈ table, word w ∈ entry.2.branches

/-! ## Names -/

variable {words : List (List Char)} {s : CharSet} {part text other : List Char} {c : Char}

/-- Whether a text begins with a character of a set, and with none of some words. -/
def begins (words : List (List Char)) (s : CharSet) (text : List Char) : Bool :=
  !startsWord words text && text.head?.any (s.contains {})

theorem steps_guarded (words : List (List Char)) (s : CharSet) :
    Steps {} (guarded words s) (begins words s) := by
  intro text
  rw [guarded]
  split
  next none =>
    subst none
    exact steps_set s text
  next =>
    rw [begins, ← lengths_words]
    exact Pattern.steps_guarded _ _ text

theorem first_namePattern : (namePattern words).first {} text =
    if begins words letters text then some (1 + runLength (begins words wordChars) (text.drop 1)) else none := by
  have ends : begins words wordChars [] = false := Bool.and_false _
  rw [namePattern, first_seq (steps_guarded words letters), first_repeated (steps_guarded words wordChars) ends]
  rfl

/-- Where no word has a space, what begins with a character of a set does so before another end. -/
theorem begins_append (unspaced : ∀ w ∈ words, ' ' ∉ w) (ended : Ended other) (nonempty : part ≠ [])
    (here : begins words s (part ++ text) = true) : begins words s (part ++ other) = true := by
  obtain ⟨c, part, rfl⟩ := List.exists_cons_of_ne_nil nonempty
  rw [begins, Bool.and_eq_true, Bool.not_eq_true', ← Bool.not_eq_true] at here ⊢
  refine ⟨fun starts => here.1 ?_, here.2⟩
  exact startsWord_append (startsWord_of_append unspaced ended starts)

/-- A name that has been taken as a whole is taken before another end. -/
theorem first_namePattern_append (unspaced : ∀ w ∈ words, ' ' ∉ w) (ended : Ended other)
    (taken : (namePattern words).first {} (part ++ text) = some part.length) :
    (namePattern words).first {} (part ++ other) = some part.length := by
  rw [first_namePattern] at taken ⊢
  split at taken
  next here =>
    have count := Option.some.inj taken
    obtain ⟨c, part, rfl⟩ : ∃ c rest, part = c :: rest :=
      List.exists_cons_of_length_pos (by omega)
    rw [if_pos (begins_append unspaced ended (List.cons_ne_nil _ _) here)]
    have run : runLength (begins words wordChars) (part ++ text) = part.length := by
      simp only [List.cons_append, List.drop_succ_cons, List.drop_zero, List.length_cons] at count
      omega
    have stops : runLength (begins words wordChars) other = 0 := by
      have space : wordChars.contains {} ' ' = false := by decide
      cases ended with
      | nothing => rfl
      | space => simp [runLength, begins, space]
    have more := runLength_append_eq_length run
      (fun part nonempty here => begins_append unspaced ended nonempty here) stops
    simp only [List.cons_append, List.drop_succ_cons, List.drop_zero, more, List.length_cons, Nat.add_comm]
  next => cases taken

/-- Where no name begins, none begins before another end, if a word that is the reason for it stays. -/
theorem first_namePattern_append_eq_none (never : (namePattern words).first {} (c :: part ++ text) = none)
    (stays : letters.contains {} c = true → startsWord words (c :: part ++ text) = true →
      startsWord words (c :: part ++ other) = true) :
    (namePattern words).first {} (c :: part ++ other) = none := by
  rw [first_namePattern] at never ⊢
  split at never
  next => cases never
  next refused =>
    refine if_neg fun here => refused ?_
    rw [begins, Bool.and_eq_true, Bool.not_eq_true', ← Bool.not_eq_true] at here ⊢
    exact ⟨fun starts => here.1 (stays here.2 starts), here.2⟩

theorem opens_namePattern : (namePattern words).opens {} c = letters.contains {} c := by
  have opens (s : CharSet) : (guarded words s).opens {} c = s.contains {} c ∧ (guarded words s).leastLength = 1 := by
    rw [guarded]
    split
    next => exact ⟨rfl, rfl⟩
    next => exact ⟨rfl, rfl⟩
  rw [namePattern, Pattern.opens, (opens letters).1, (opens letters).2]
  exact Bool.or_false _

theorem avoids_namePattern (noWord : wordChars.contains {} c = false) (noLetter : letters.contains {} c = false) :
    (namePattern words).avoids {} c = true := by
  have avoids {s : CharSet} (no : s.contains {} c = false) : (guarded words s).avoids {} c = true := by
    rw [guarded]
    split
    next => simp [Pattern.avoids, no]
    next => simp [Pattern.avoids, no]
  rw [namePattern, Pattern.avoids, Pattern.avoids, avoids noLetter, avoids noWord]
  rfl

/-- What a part of a text that is hit means for the quoted texts around it. -/
inductive Role (label : String) (part text : List Char) : Prop
  /-- It has no character with a meaning of its own in a quoted text. -/
  | ordinary (quote : '"' ∉ part) (backslash : '\\' ∉ part) (newline : '\n' ∉ part)
  | newline (isLabel : label = "newline")
    (ends : ∀ escaped other, closing escaped (part ++ other) = none)
  | comment (isLabel : label = "comment") (ends : text = [] ∨ text.head? = some '\n')
  | quoted {body : List Char} (isPart : part = '"' :: body) (closed : closing false (body ++ text) ≠ none)

/-- A comment goes on to the end of a line. -/
theorem ends_of_comment (taken : commentPattern.first {} (c :: part ++ text) = some (c :: part).length) :
    text = [] ∨ text.head? = some '\n' := by
  simp only [commentPattern, first_seq (steps_single '#'), first_repeated (steps_set _) rfl] at taken
  split at taken
  next =>
    have run := Nat.add_left_cancel ((Option.some.inj taken).trans (Nat.add_comm part.length 1))
    cases text with
    | nil => exact .inl rfl
    | cons d text =>
      have stops := test_of_runLength run (List.cons_ne_nil d text)
      rw [List.head?_cons, Option.any_some, ← Bool.not_eq_true, contains_allBut] at stops
      exact .inr (congrArg some (by simpa using stops))
  next => cases taken

/-! ## First characters -/

namespace Spells

variable {lexer : Lexer} {table : List (String × Pattern)} {label : String} {count : Nat}
  {entry : String × Pattern}

/-- No entry of a form of its own can begin with a letter, but for that of names. -/
theorem opens_letter (letter : letters.contains {} c = true) (mem : entry ∈ formedEntries) :
    entry.2.opens {} c = false := by
  have other (d : Char) (noLetter : letters.contains {} d = false) : (CharSet.single d).contains {} c = false := by
    rw [contains_single, beq_eq_false_iff_ne]
    rintro rfl
    cases letter.symm.trans noLetter
  have noDigit : (⟨false, [.ofClass .digit false]⟩ : CharSet).contains {} c = false := by
    simp [letters, CharSet.contains, SetItem.contains] at letter ⊢
    exact letter.2
  simp only [formedEntries, List.mem_cons, List.not_mem_nil, or_false] at mem
  rcases mem with rfl | rfl | rfl | rfl | rfl | rfl
  · exact other ' ' (by decide)
  · exact other '\t' (by decide)
  · simp [newlinePattern, Pattern.opens, other '\r' (by decide), other '\n' (by decide)]
  · simp [commentPattern, Pattern.opens, leastLength, other '#' (by decide)]
  · simp [numberPattern, digitsPattern, Pattern.opens, leastLength, noDigit]
  · simp [quotedPattern, Pattern.opens, leastLength, other '"' (by decide)]

section

variable (spells : Spells lexer table words)

include spells

theorem first_eq_none (mem : entry ∈ table) (closed : entry.2.opens {} c = false) :
    entry.2.first {} (c :: text) = none :=
  first_eq_none_of_not_opens (spells.lists.plain entry mem) (spells.lists.nonempty entry mem) closed

/-- A special character decides what is hit, if only one pattern can begin with it. -/
theorem hit_of_special (entry : String × Pattern) (special : c ∈ specialChars) (mem : entry ∈ formedEntries)
    (closed : ∀ other ∈ formedEntries, other = entry ∨ other.2.opens {} c = false) :
    hit {} table (c :: text) = (entry.2.first {} (c :: text)).map fun count => (entry.1, count) := by
  apply hit_eq_of_only (spells.formed entry mem)
  intro other listed
  rcases spells.cases other listed with isFormed | rfl | verbal
  · exact (closed other isFormed).imp_right (spells.first_eq_none listed)
  · have noLetter : specialChars.any (letters.contains {}) = false := by decide
    have closed := Bool.eq_false_iff.mpr (List.any_eq_false.mp noLetter c special)
    exact .inr (spells.first_eq_none listed (opens_namePattern.trans closed))
  · obtain ⟨-, avoids, -⟩ := of_isVerbal verbal
    exact .inr (spells.first_eq_none listed (opens_of_avoids (avoids c special)))

theorem hit_space : hit {} table (' ' :: text) =
    some ("spaces", 1 + runLength (fun text => [' '].isPrefixOf text) text) := by
  rw [spells.hit_of_special ("spaces", blanksPattern ' ') (by decide) (by decide) (by decide)]
  simp only [blanksPattern, first_repeated_one (steps_single ' ') rfl]
  rfl

theorem hit_newline : hit {} table ('\n' :: text) = some ("newline", 1) := by
  rw [spells.hit_of_special ("newline", newlinePattern) (by decide) (by decide) (by decide)]
  simp [newlinePattern, first, lengths, both, lengthsOfRounds, lengthsOfMore, contains_single]

theorem hit_hash : hit {} table ('#' :: text) =
    some ("comment", 1 + runLength (fun text => text.head?.any ((CharSet.allBut ['\n']).contains {})) text) := by
  rw [spells.hit_of_special ("comment", commentPattern) (by decide) (by decide) (by decide)]
  simp only [commentPattern, first_seq (steps_single '#'), first_repeated (steps_set _) rfl]
  rfl

theorem hit_quote : hit {} table ('"' :: text) =
    (closing false text).map fun count => ("string", 1 + count) := by
  rw [spells.hit_of_special ("string", quotedPattern) (by decide) (by decide) (by decide), first_quotedPattern]
  simp [Function.comp_def]

/-! ## Other ends -/

/-- What is hit and begins with a letter is a name, or it begins with one of the words that end a name. -/
theorem startsWord_of_hit (mem : entry ∈ table) (letter : letters.contains {} c = true)
    (taken : entry.2.first {} (c :: part ++ text) = some (c :: part).length) :
    entry = ("name", namePattern words) ∨ startsWord words (c :: part) = true := by
  have allows := allows_of_first (spells.lists.plain entry mem) taken
  rcases spells.cases entry mem with isFormed | named | verbal
  · cases (opens_letter letter isFormed).symm.trans allows.opens
  · exact .inl named
  · obtain ⟨-, -, branches⟩ := of_isVerbal verbal
    obtain ⟨branch, isBranch, allows⟩ := allows.exists_branch
    obtain ⟨chars, -, rfl, known⟩ := branches branch isBranch
    obtain rfl := allows_word allows
    have isPrefix := List.isPrefixOf_iff_prefix.mpr (List.prefix_refl (c :: part))
    exact .inr (List.any_eq_true.mpr ⟨_, known letter, isPrefix⟩)

/-- Each of the words that end a name is hit. -/
theorem hit_of_startsWord (starts : startsWord words text = true) : hit {} table text ≠ none := by
  obtain ⟨w, isWord, isPrefix⟩ := List.any_eq_true.mp starts
  obtain ⟨-, entry, mem, isBranch⟩ := spells.words w isWord
  intro never
  have subset : (word w).lengths {} text ⊆ entry.2.lengths {} text := lengths_subset_of_branch isBranch
  rw [List.head?_eq_none_iff.mp (hit_eq_none_iff.mp never entry mem), lengths_word, if_pos isPrefix] at subset
  exact List.not_mem_nil (subset List.mem_cons_self)

/-- But for names, what a pattern takes does not depend on the end behind it, or a special character begins it. -/
theorem firm_of_mem (mem : entry ∈ table) (space : c ≠ ' ') (hash : c ≠ '#') (quote : c ≠ '"') :
    entry = ("name", namePattern words) ∨ Firm (entry.2.first {}) ∨ ∀ text, entry.2.first {} (c :: text) = none := by
  have plain := spells.lists.plain entry mem
  rcases spells.cases entry mem with isFormed | named | verbal
  · right
    simp only [formedEntries, List.mem_cons, List.not_mem_nil, or_false] at isFormed
    rcases isFormed with rfl | rfl | rfl | rfl | rfl | rfl
    · refine .inr fun text => spells.first_eq_none mem ?_
      simpa [blanksPattern, Pattern.opens, contains_single] using space.symm
    · exact .inl (firm_first plain rfl (by decide))
    · exact .inl (firm_first plain rfl (by decide))
    · refine .inr fun text => spells.first_eq_none mem ?_
      simpa [commentPattern, Pattern.opens, leastLength, contains_single] using hash.symm
    · exact .inl (firm_first plain rfl (by decide))
    · refine .inr fun text => spells.first_eq_none mem ?_
      simpa [quotedPattern, Pattern.opens, leastLength, contains_single] using quote.symm
  · exact .inl named
  · obtain ⟨blind, avoids, -⟩ := of_isVerbal verbal
    exact .inr (.inl (firm_first plain blind (avoids ' ' (by decide))))

/-- A token that is kept is hit before any other end. -/
theorem hit_taken (isHit : hit {} table (part ++ text) = some (label, part.length)) (kept : label ∉ dropped)
    (ended : Ended other) : hit {} table (part ++ other) = some (label, part.length) := by
  obtain ⟨pos, -⟩ := spells.lists.hit_pos (spells.flags ▸ isHit)
  obtain ⟨c, part, rfl⟩ := List.exists_cons_of_length_pos pos
  by_cases quote : c = '"'
  · subst quote
    rw [List.cons_append, hit_quote spells] at isHit ⊢
    obtain ⟨count, isClosing, same⟩ := Option.map_eq_some_iff.mp isHit
    obtain ⟨rfl, length⟩ := Prod.mk.inj same
    obtain rfl : count = part.length := Nat.add_left_cancel (length.trans (Nat.add_comm _ 1))
    rw [closing_append_eq_length isClosing, Option.map_some, length]
  have space : c ≠ ' ' := by
    rintro rfl
    rw [List.cons_append, hit_space spells] at isHit
    obtain ⟨rfl, -⟩ := Prod.mk.inj (Option.some.inj isHit)
    exact kept (by decide)
  have hash : c ≠ '#' := by
    rintro rfl
    rw [List.cons_append, hit_hash spells] at isHit
    obtain ⟨rfl, -⟩ := Prod.mk.inj (Option.some.inj isHit)
    exact kept (by decide)
  have unspaced : ∀ w ∈ words, ' ' ∉ w := fun w mem => (spells.words w mem).1
  apply hit_congr isHit
  · intro entry mem never
    rcases spells.firm_of_mem mem space hash quote with rfl | firm | closed
    · -- if no name begins here because of a word, then it is that word that is hit
      refine first_namePattern_append_eq_none never fun letter _ => ?_
      obtain ⟨entry, mem, -, taken⟩ := exists_of_hit isHit
      rcases spells.startsWord_of_hit mem letter taken with rfl | starts
      · cases never.symm.trans taken
      · exact startsWord_append starts
    · exact (firm ended).2 never
    · exact closed _
  · intro entry mem taken
    rcases spells.firm_of_mem mem space hash quote with rfl | firm | closed
    · exact first_namePattern_append unspaced ended taken
    · exact (firm ended).1 taken
    · cases (closed _).symm.trans taken

/-- Where nothing is hit, nothing is hit before another end, unless a quoted text begins. -/
theorem hit_missed (never : hit {} table (c :: part ++ text) = none) (quote : c ≠ '"') (ended : Ended other) :
    hit {} table (c :: part ++ other) = none := by
  have space : c ≠ ' ' := by
    rintro rfl
    cases (hit_space spells).symm.trans never
  have hash : c ≠ '#' := by
    rintro rfl
    cases (hit_hash spells).symm.trans never
  rw [hit_eq_none_iff]
  intro entry mem
  have never' := hit_eq_none_iff.mp never entry mem
  rcases spells.firm_of_mem mem space hash quote with rfl | firm | closed
  · refine first_namePattern_append_eq_none never' fun _ starts => ?_
    exact absurd never (spells.hit_of_startsWord starts)
  · exact (firm ended).2 never'
  · exact closed _

/-- What is hit has one of the roles. -/
theorem role_of_hit (isHit : hit {} table (part ++ text) = some (label, part.length)) : Role label part text := by
  obtain ⟨pos, -⟩ := spells.lists.hit_pos (spells.flags ▸ isHit)
  obtain ⟨entry, mem, rfl, taken⟩ := exists_of_hit isHit
  have allows := allows_of_first (spells.lists.plain entry mem) taken
  have ordinary (avoids : ∀ c ∈ ['"', '\\', '\n'], entry.2.avoids {} c = true) : Role entry.1 part text :=
    .ordinary (allows.not_mem (avoids '"' (by decide))) (allows.not_mem (avoids '\\' (by decide)))
      (allows.not_mem (avoids '\n' (by decide)))
  rcases spells.cases entry mem with isFormed | rfl | verbal
  · simp only [formedEntries, List.mem_cons, List.not_mem_nil, or_false] at isFormed
    rcases isFormed with rfl | rfl | rfl | rfl | rfl | rfl
    · exact ordinary (List.all_eq_true.mp (by decide))
    · exact ordinary (List.all_eq_true.mp (by decide))
    · obtain ⟨carriage, _, allows, ⟨newline, isNewline, rfl⟩, rfl⟩ := allows
      rw [contains_single, beq_iff_eq] at isNewline
      subst isNewline
      refine .newline rfl fun escaped other => ?_
      rcases allows.optional_cases with rfl | ⟨c, isCarriage, rfl⟩
      · rfl
      · rw [contains_single, beq_iff_eq] at isCarriage
        subst isCarriage
        cases escaped <;> rfl
    · obtain ⟨c, body, rfl⟩ := List.exists_cons_of_length_pos pos
      exact .comment rfl (ends_of_comment taken)
    · exact ordinary (List.all_eq_true.mp (by decide))
    · obtain ⟨c, body, rfl⟩ := List.exists_cons_of_length_pos pos
      rw [first_quotedPattern] at taken
      split at taken
      next quote =>
        obtain rfl := Option.some.inj quote
        refine .quoted rfl fun unclosed => ?_
        cases (congrArg (Option.map (1 + ·)) unclosed).symm.trans taken
      next => cases taken
  · have noWord : ['"', '\\', '\n'].any (wordChars.contains {}) = false := by decide
    have noLetter : ['"', '\\', '\n'].any (letters.contains {}) = false := by decide
    exact ordinary fun c special => avoids_namePattern
      (Bool.eq_false_iff.mpr (List.any_eq_false.mp noWord c special))
      (Bool.eq_false_iff.mpr (List.any_eq_false.mp noLetter c special))
  · obtain ⟨-, avoids, -⟩ := of_isVerbal verbal
    have special : ∀ c ∈ ['"', '\\', '\n'], c ∈ specialChars := by simp [specialChars]
    exact ordinary fun c mem => avoids c (special c mem)

end

end Spells

/-! ## The vocabularies -/

/-- The table of a vocabulary, with what each text of it is by itself. -/
def Vocabulary.readTable (vocabulary : Vocabulary) : List (String × Pattern) :=
  vocabulary.lexerSpec.patterns.map fun entry => (entry.1, (alone? {} entry.2).getD .empty)

/-- Checks the table of a vocabulary in which names end where one of some words starts. -/
def Vocabulary.spells (vocabulary : Vocabulary) (words : List (List Char)) : Bool :=
  let table := vocabulary.readTable
  vocabulary.lexerSpec.patterns.all (fun entry => (alone? {} entry.2).isSome) &&
    table.all (fun entry => entry.2.isPlain && decide (0 < entry.2.leastLength)) &&
    formedEntries.all (fun entry => entry ∈ table) &&
    table.all (fun entry =>
      entry ∈ formedEntries || entry = ("name", namePattern words) || isVerbal words entry.2) &&
    words.all (fun w => ' ' ∉ w && table.any fun entry => word w ∈ entry.2.branches)

theorem Spells.of_check {vocabulary : Vocabulary} {lexer : Lexer} (check : vocabulary.spells words = true)
    (defined : vocabulary.lexer = .ok lexer) (flags : lexer.flags = {}) :
    Spells lexer vocabulary.readTable words := by
  simp only [Vocabulary.spells, Bool.and_eq_true, Bool.or_eq_true, List.all_eq_true,
    decide_eq_true_eq, List.any_eq_true] at check
  obtain ⟨⟨⟨⟨alone, forms⟩, formed⟩, cases⟩, words⟩ := check
  rw [← flags] at alone
  refine ⟨flags, ⟨?_, fun entry mem => (forms entry mem).1, fun entry mem => (forms entry mem).2⟩, formed, ?_, ?_⟩
  · rw [define_pattern defined alone, Vocabulary.readTable, List.map_map, flags]
    rfl
  · exact fun entry mem => or_assoc.mp (cases entry mem)
  · exact words

/-- The tables of both vocabularies pass their check. In English no word but a name ends a name. -/
theorem exists_words {vocabulary : Vocabulary} (known : vocabulary = english ∨ vocabulary = chinese) :
    ∃ words, vocabulary.spells words = true := by
  rcases known with rfl | rfl
  · exact ⟨[], by decide +kernel⟩
  · exact ⟨(Spelling.longestFirst chineseKeywords).map (·.1.toList), by decide +kernel⟩

/-- Each text in the tables of both vocabularies is a pattern by itself. -/
theorem alone_of_known {vocabulary : Vocabulary} (known : vocabulary = english ∨ vocabulary = chinese) :
    ∀ entry ∈ vocabulary.lexerSpec.patterns, (alone? {} entry.2).isSome = true := by
  obtain ⟨words, check⟩ := exists_words known
  simp only [Vocabulary.spells, Bool.and_eq_true] at check
  exact List.all_eq_true.mp check.1.1.1.1

/-- The lexers of both vocabularies spell the tokens of scripts. -/
theorem exists_spells {vocabulary : Vocabulary} {lexer : Lexer} (known : vocabulary = english ∨ vocabulary = chinese)
    (defined : vocabulary.lexer = .ok lexer) (flags : lexer.flags = {}) :
    ∃ words, Spells lexer vocabulary.readTable words := by
  obtain ⟨words, check⟩ := exists_words known
  exact ⟨words, .of_check check defined flags⟩

end Script

end Grammatic
