import Grammatic.Proofs.Lexer.Unmatched
import Grammatic.Proofs.Pattern.Greedy
import Grammatic.Proofs.Script.Table

/-!
# The longest match

A lexer takes the first pattern of its table that matches, and of that pattern the match that it prefers. In both
vocabularies this is the longest match that any pattern of the table can have there, and no other pattern can have
one as long (`longest_match`).

The patterns that are not words prefer their longest matches, and no two of them can begin with the same character.
Words can begin with the same characters, and of these none comes before one that it begins (`OrdersWords`). A word
that begins as a name does is one that ends names, so no name starts there.
-/

namespace Grammatic

namespace Pattern

/-- Whether a pattern can match a stretch of a text, be it what the pattern prefers or not. -/
def CanMatch (flags : Flags) (p : Pattern) (text : List Char) (start stop : Nat) : Prop :=
  (p.run flags (fun reached => if reached.cursor.position = stop then some reached else none)
    ⟨Cursor.place text start, none⟩).isSome = true

theorem canMatch_iff {flags : Flags} {p : Pattern} (plain : p.isPlain = true) {text : List Char} {start stop : Nat} :
    p.CanMatch flags text start stop ↔ ∃ count ∈ p.lengths flags (text.drop start), start + count = stop := by
  rw [CanMatch, run_eq plain, List.findSome?_isSome_iff]
  simp only [Cursor.rest_place, Match.skip, Cursor.position_skip, Cursor.position_place]
  refine exists_congr fun count => and_congr_right fun _ => ?_
  split
  next same => exact iff_of_true rfl same
  next differs => exact iff_of_false Bool.false_ne_true differs

end Pattern

namespace Script

open Pattern Lexer

variable {text : List Char} {c : Char} {entry other : String × Pattern} {words : List (List Char)} {p : Pattern}
  {count most : Nat}

/-! ## Patterns of a form of their own -/

/-- The digits, as a set. -/
def digit : CharSet := ⟨false, [.ofClass .digit false]⟩

theorem steps_digit : Steps {} (.set digit) fun text => text.head?.any (digit.contains {}) := steps_set digit

theorem prefersLongest_digits : PrefersLongest {} digitsPattern := .repeated_one steps_digit rfl

theorem exists_of_any_head {test : Char → Bool} (begins : text.head?.any test = true) :
    ∃ c rest, text = c :: rest ∧ test c = true := by
  obtain ⟨c, first, passes⟩ := (Option.any_eq_true _ _).mp begins
  obtain ⟨rest, rfl⟩ := List.head?_eq_some_iff.mp first
  exact ⟨c, rest, rfl, passes⟩

/-- Behind fewer digits than there are, there is a digit. -/
theorem exists_digit_of_lt (preferred : digitsPattern.first {} text = some most) (less : count < most) :
    ∃ c rest, text.drop count = c :: rest ∧ digit.contains {} c = true := by
  have preferred : (repeated true 1 none (.set digit)).first {} text = some most := preferred
  rw [first_repeated_one steps_digit rfl] at preferred
  split at preferred
  next begins =>
    obtain rfl := Option.some.inj preferred
    cases count with
    | zero => exact exists_of_any_head begins
    | succ count =>
      have next := test_of_lt_runLength (Nat.lt_of_add_lt_add_left (Nat.add_comm count 1 ▸ less))
      rw [List.drop_drop, Nat.add_comm] at next
      exact exists_of_any_head next
  next => cases preferred

theorem ne_of_digit {d : Char} (isDigit : digit.contains {} c = true) (other : digit.contains {} d = false) :
    c ≠ d := by
  rintro rfl
  cases isDigit.symm.trans other

/-- A digit begins neither a fraction nor an exponent. -/
theorem eq_zero_of_digit (isDigit : digit.contains {} c = true) :
    (count ∈ fractionPattern.lengths {} (c :: text) → count = 0) ∧
      (count ∈ exponentPattern.lengths {} (c :: text) → count = 0) := by
  constructor
  · refine eq_zero_of_mem_optional rfl (by decide) ?_
    simpa [Pattern.opens, leastLength, contains_single] using (ne_of_digit isDigit (by decide)).symm
  · refine eq_zero_of_mem_optional rfl (by decide) (Bool.eq_false_iff.mpr fun opens => ?_)
    have mark : c = 'e' ∨ c = 'E' := by
      simpa [Pattern.opens, leastLength, CharSet.contains, contains_range_self] using opens
    rcases mark with rfl | rfl
    · exact absurd isDigit (by decide)
    · exact absurd isDigit (by decide)

theorem prefersLongest_exponent : PrefersLongest {} exponentPattern := by
  refine .optional (.seq_of_steps (steps_set _) (.seq (.optional (.of_steps (steps_set _))) prefersLongest_digits ?_))
  intro text count most more preferred mem less further
  -- without its sign an exponent has no digits
  obtain ⟨rfl, -, isSign⟩ := (steps_set _).of_passed preferred less
  obtain ⟨c, rest, rfl, isSign⟩ := exists_of_any_head isSign
  have isDigit : digit.contains {} c = true := opens_of_mem_lengths rfl (by decide) further
  have sign : c = '+' ∨ c = '-' := by simpa [CharSet.contains, contains_range_self] using isSign
  rcases sign with rfl | rfl
  · exact absurd rfl (ne_of_digit isDigit (by decide))
  · exact absurd rfl (ne_of_digit isDigit (by decide))

/-- Behind less than the longest fraction no exponent begins. -/
theorem prefersLongest_fraction_exponent : PrefersLongest {} (.seq fractionPattern exponentPattern) := by
  refine .seq (.optional (.seq_of_steps (steps_single '.') prefersLongest_digits)) prefersLongest_exponent ?_
  intro text count most more preferred mem less further
  have isFirst := first_of_first_optional preferred (Nat.zero_lt_of_lt less)
  have none : more = 0 := by
    rcases mem_optional.mp mem with mem | rfl
    · obtain ⟨point, isPoint, count, mem, rfl⟩ := mem_both.mp mem
      obtain ⟨rfl, begins⟩ := (steps_single '.').of_mem isPoint
      rw [first_seq (steps_single '.'), if_pos begins] at isFirst
      obtain ⟨digits, all, rfl⟩ := Option.map_eq_some_iff.mp isFirst
      obtain ⟨c, rest, behind, isDigit⟩ := exists_digit_of_lt all (Nat.lt_of_add_lt_add_left less)
      rw [← List.drop_drop, behind] at further
      exact (eq_zero_of_digit isDigit).2 further
    · cases text with
      | nil => cases isFirst
      | cons c text =>
        have isPoint := opens_of_mem_lengths rfl (by decide) (mem_of_first isFirst)
        simp [Pattern.opens, leastLength, contains_single] at isPoint
        subst isPoint
        exact eq_zero_of_mem_optional rfl (by decide) (by decide) further
  rw [none]
  exact ⟨Nat.le_of_lt less, exists_first (mem_optional.mpr (.inr rfl))⟩

/-- Behind less than all digits neither a fraction nor an exponent begins. -/
theorem prefersLongest_number : PrefersLongest {} numberPattern := by
  refine .seq prefersLongest_digits prefersLongest_fraction_exponent ?_
  intro text count most more preferred mem less further
  obtain ⟨c, rest, behind, isDigit⟩ := exists_digit_of_lt preferred less
  rw [behind] at further
  obtain ⟨fraction, isFraction, exponent, isExponent, rfl⟩ := mem_both.mp further
  obtain rfl := (eq_zero_of_digit isDigit).1 isFraction
  obtain rfl := (eq_zero_of_digit isDigit).2 isExponent
  have nothing : 0 ∈ (Pattern.seq fractionPattern exponentPattern).lengths {} (text.drop most) :=
    mem_both.mpr ⟨0, mem_optional.mpr (.inr rfl), 0, mem_optional.mpr (.inr rfl), rfl⟩
  exact ⟨Nat.le_of_lt less, exists_first nothing⟩

/-- Each pattern of a form of its own prefers its longest match. -/
theorem prefersLongest_of_formed (mem : entry ∈ formedEntries) : PrefersLongest {} entry.2 := by
  simp only [formedEntries, List.mem_cons, List.not_mem_nil, or_false] at mem
  rcases mem with rfl | rfl | rfl | rfl | rfl | rfl
  · exact .repeated_one (steps_single ' ') rfl
  · exact .repeated_one (steps_single '\t') rfl
  · refine .seq (.optional (.of_steps (steps_single '\r'))) (.of_steps (steps_single '\n')) ?_
    intro text count most more preferred mem less further
    -- a carriage return is no newline
    obtain ⟨rfl, -, isReturn⟩ := (steps_single '\r').of_passed preferred less
    obtain ⟨rest, rfl⟩ := List.isPrefixOf_iff_prefix.mp isReturn
    cases further
  · exact .seq_of_steps (steps_single '#') (.repeated (steps_set _) rfl)
  · exact prefersLongest_number
  · intro text count most mem preferred
    rw [lengths_quotedPattern, Option.mem_toList, ← first_quotedPattern, preferred] at mem
    exact Nat.le_of_eq (Option.some.inj mem).symm

theorem prefersLongest_name : PrefersLongest {} (namePattern words) :=
  .seq_of_steps (steps_guarded words letters) (.repeated (steps_guarded words wordChars) (Bool.and_false _))

/-- The name of the only pattern of a form of its own that a character can begin. -/
def formOf (c : Char) : String :=
  if c = ' ' then "spaces" else if c = '\t' then "tabs" else if c = '\r' ∨ c = '\n' then "newline"
  else if c = '#' then "comment" else if c = '"' then "string" else "number"

theorem formOf_of_opens (mem : entry ∈ formedEntries) (opens : entry.2.opens {} c = true) : entry.1 = formOf c := by
  simp only [formedEntries, List.mem_cons, List.not_mem_nil, or_false] at mem
  rcases mem with rfl | rfl | rfl | rfl | rfl | rfl
  · simp [blanksPattern, Pattern.opens, contains_single] at opens
    subst opens
    rfl
  · simp [blanksPattern, Pattern.opens, contains_single] at opens
    subst opens
    rfl
  · simp [newlinePattern, Pattern.opens, leastLength, contains_single] at opens
    rcases opens with rfl | rfl <;> rfl
  · simp [commentPattern, Pattern.opens, leastLength, contains_single] at opens
    subst opens
    rfl
  · have isDigit : digit.contains {} c = true := by
      simpa [numberPattern, digitsPattern, Pattern.opens, leastLength, digit] using opens
    have closed : ([' ', '\t', '\r', '\n', '#', '"'].all fun d => !digit.contains {} d) = true := by decide
    have other : ∀ d ∈ [' ', '\t', '\r', '\n', '#', '"'], c ≠ d := fun d mem =>
      ne_of_digit isDigit (by simpa using List.all_eq_true.mp closed d mem)
    simp only [List.mem_cons, List.not_mem_nil, or_false, forall_eq_or_imp, forall_eq] at other
    simp [formOf, other]
  · simp [quotedPattern, Pattern.opens, leastLength, contains_single] at opens
    subst opens
    rfl

/-- No two patterns of a form of their own can begin with the same character. -/
theorem eq_of_opens (mem : entry ∈ formedEntries) (mem' : other ∈ formedEntries) (opens : entry.2.opens {} c = true)
    (opens' : other.2.opens {} c = true) : other = entry := by
  have unique : ∀ entry ∈ formedEntries, ∀ other ∈ formedEntries, other.1 = entry.1 → other = entry := by decide
  exact unique entry mem other mem' ((formOf_of_opens mem' opens').trans (formOf_of_opens mem opens).symm)

/-! ## Words -/

/-- The words that a choice of words is made of. -/
def spellings (p : Pattern) : List (List Char) := p.branches.filterMap spelling?

/-- The words of a table, in its order. -/
def wordsOf (table : List (String × Pattern)) : List (List Char) := table.flatMap fun entry => spellings entry.2

/-- None of the words of a table comes before one that it begins, and no pattern of a form of its own can begin with
the first character of one. -/
structure OrdersWords (table : List (String × Pattern)) : Prop where
  ordered : (wordsOf table).Pairwise fun w later => ¬ w <+: later
  apart : ∀ w ∈ wordsOf table, ∀ entry ∈ formedEntries, w.head?.all (fun c => !entry.2.opens {} c) = true

theorem lengths_branches {flags : Flags} (p : Pattern) :
    p.lengths flags text = p.branches.flatMap fun branch => branch.lengths flags text := by
  induction p with
  | alt p q ihp ihq => rw [lengths, branches, List.flatMap_append, ihp, ihq]
  | empty | set | check | seq | group | repeated | ahead | behind | atomic | under => simp [branches]

/-- What a choice of words can match are those of its words that the text begins with, in their order. -/
theorem lengths_of_isVerbal (verbal : isVerbal words p = true) :
    p.lengths {} text = ((spellings p).filter (·.isPrefixOf text)).map List.length := by
  obtain ⟨-, -, spelled⟩ := of_isVerbal verbal
  rw [lengths_branches, spellings]
  generalize p.branches = branches at spelled ⊢
  induction branches with
  | nil => rfl
  | cons branch branches ih =>
    obtain ⟨chars, isSpelling, rfl, -⟩ := spelled branch List.mem_cons_self
    rw [List.flatMap_cons, ih fun other mem => spelled other (List.mem_cons_of_mem _ mem), lengths_word,
      List.filterMap_cons_some isSpelling, List.filter_cons]
    split <;> rfl

theorem exists_of_mem_verbal (verbal : isVerbal words p = true) (mem : count ∈ p.lengths {} text) :
    ∃ w ∈ spellings p, w <+: text ∧ w.length = count := by
  rw [lengths_of_isVerbal verbal] at mem
  obtain ⟨w, begins, rfl⟩ := List.mem_map.mp mem
  obtain ⟨listed, isPrefix⟩ := List.mem_filter.mp begins
  exact ⟨w, listed, List.isPrefixOf_iff_prefix.mp isPrefix, rfl⟩

/-- Of two words that a text begins with, the one that does not begin the other is longer. -/
theorem length_lt_of_not_begins {w later : List Char} (isPrefix : w <+: text) (isPrefix' : later <+: text)
    (not : ¬ w <+: later) : later.length < w.length :=
  Nat.lt_of_not_le fun le => not (List.prefix_of_prefix_length_le isPrefix isPrefix' le)

/-- The word that a choice of words prefers is the longest, if none comes before one that it begins. -/
theorem exists_preferred (verbal : isVerbal words p = true)
    (ordered : (spellings p).Pairwise fun w later => ¬ w <+: later) (preferred : p.first {} text = some most) :
    (∃ w ∈ spellings p, w <+: text ∧ w.length = most) ∧ ∀ count ∈ p.lengths {} text, count ≤ most := by
  refine ⟨exists_of_mem_verbal verbal (mem_of_first preferred), fun count mem => ?_⟩
  rw [first] at preferred
  rw [lengths_of_isVerbal verbal] at preferred mem
  have sorted := ordered.filter (·.isPrefixOf text)
  have all : ∀ w ∈ (spellings p).filter (·.isPrefixOf text), w <+: text := fun w mem =>
    List.isPrefixOf_iff_prefix.mp (List.mem_filter.mp mem).2
  cases isList : (spellings p).filter (·.isPrefixOf text) with
  | nil =>
    rw [isList] at mem
    cases mem
  | cons w others =>
    rw [isList] at preferred mem sorted all
    obtain rfl := Option.some.inj preferred
    obtain ⟨other, listed, rfl⟩ := List.mem_map.mp mem
    rcases List.mem_cons.mp listed with rfl | later
    · exact Nat.le_refl _
    · exact Nat.le_of_lt (length_lt_of_not_begins (all w List.mem_cons_self) (all other listed)
        ((List.pairwise_cons.mp sorted).1 other later))

/-- Among the patterns that are not words there is only one that can match at a text. -/
theorem eq_of_opens_formed (isFormed : entry ∈ formedEntries ∨ entry = ("name", namePattern words))
    (isFormed' : other ∈ formedEntries ∨ other = ("name", namePattern words))
    (opens : entry.2.opens {} c = true) (opens' : other.2.opens {} c = true) : other = entry := by
  rcases isFormed with isFormed | rfl
  · rcases isFormed' with isFormed' | rfl
    · exact eq_of_opens isFormed isFormed' opens opens'
    · rw [opens_namePattern] at opens'
      cases (Spells.opens_letter opens' isFormed).symm.trans opens
  · rcases isFormed' with isFormed' | rfl
    · rw [opens_namePattern] at opens
      cases (Spells.opens_letter opens isFormed').symm.trans opens'
    · rfl

namespace Spells

variable {lexer : Lexer} {table : List (String × Pattern)} {label : String}

section

variable (spells : Spells lexer table words)

include spells

/-- What can match begins with a character that its pattern can begin with. -/
theorem opens_of_mem (listed : entry ∈ table) (mem : count ∈ entry.2.lengths {} (c :: text)) :
    entry.2.opens {} c = true :=
  opens_of_mem_lengths (spells.lists.plain entry listed) (spells.lists.nonempty entry listed) mem

/-- Where a word can match, no pattern that is not a word can. -/
theorem false_of_mem (orders : OrdersWords table) (listed : other ∈ table)
    (isFormed : entry ∈ formedEntries ∨ entry = ("name", namePattern words)) (verbal : isVerbal words other.2 = true)
    {count' : Nat} (mem : count ∈ entry.2.lengths {} (c :: text)) (opens : entry.2.opens {} c = true)
    (mem' : count' ∈ other.2.lengths {} (c :: text)) : False := by
  obtain ⟨w, spelled, isPrefix, rfl⟩ := exists_of_mem_verbal verbal mem'
  cases w with
  | nil =>
    obtain ⟨-, allows⟩ := allows_of_mem_lengths (spells.lists.plain other listed) mem'
    exact absurd (spells.lists.nonempty other listed) (Nat.not_lt.mpr allows.leastLength_le)
  | cons d w =>
    obtain ⟨rfl, -⟩ := List.cons_prefix_cons.mp isPrefix
    rcases isFormed with isFormed | rfl
    · have closed := orders.apart (d :: w) (List.mem_flatMap.mpr ⟨other, listed, spelled⟩) entry isFormed
      simp [opens] at closed
    · rw [opens_namePattern] at opens
      obtain ⟨-, -, branches⟩ := of_isVerbal verbal
      obtain ⟨branch, isBranch, isSpelling⟩ := List.mem_filterMap.mp spelled
      obtain ⟨chars, isSpelling', -, known⟩ := branches branch isBranch
      obtain rfl := Option.some.inj (isSpelling.symm.trans isSpelling')
      have starts : startsWord words (d :: text) = true :=
        List.any_eq_true.mpr ⟨_, known opens, List.isPrefixOf_iff_prefix.mpr isPrefix⟩
      obtain ⟨most, preferred⟩ := exists_first mem
      rw [first_namePattern, begins, starts] at preferred
      cases preferred

/-- What is hit is longer than all other matches, and no other pattern has one as long. -/
theorem longest_of_hit (orders : OrdersWords table) (isHit : hit {} table text = some (label, count)) :
    ∃ entry ∈ table, entry.1 = label ∧ count ∈ entry.2.lengths {} text ∧
      ∀ other ∈ table, ∀ count' ∈ other.2.lengths {} text, count' < count ∨ count' = count ∧ other = entry := by
  obtain ⟨pos, within⟩ := spells.lists.hit_pos (spells.flags ▸ isHit)
  obtain ⟨before, entry, behind, isTable, found, earlier⟩ := List.findSome?_eq_some_iff.mp isHit
  obtain ⟨count, preferred, same⟩ := Option.map_eq_some_iff.mp found
  obtain ⟨rfl, rfl⟩ := Prod.mk.inj same
  have listed : entry ∈ table := by simp [isTable]
  have mem := mem_of_first preferred
  refine ⟨entry, listed, rfl, mem, fun other listed' count' mem' => ?_⟩
  obtain ⟨c, text, rfl⟩ := List.exists_cons_of_length_pos (Nat.lt_of_lt_of_le pos within)
  have opens := spells.opens_of_mem listed mem
  have opens' := spells.opens_of_mem listed' mem'
  rcases or_assoc.mpr (spells.cases entry listed) with isFormed | verbal
  · rcases or_assoc.mpr (spells.cases other listed') with isFormed' | verbal'
    · obtain rfl := eq_of_opens_formed isFormed isFormed' opens opens'
      have longest : PrefersLongest {} other.2 := by
        rcases isFormed with isFormed | rfl
        · exact prefersLongest_of_formed isFormed
        · exact prefersLongest_name
      exact (Nat.lt_or_eq_of_le (longest mem' preferred)).imp_right fun same => ⟨same, rfl⟩
    · exact (spells.false_of_mem orders listed' isFormed verbal' mem opens mem').elim
  · rcases or_assoc.mpr (spells.cases other listed') with isFormed' | verbal'
    · exact (spells.false_of_mem orders listed isFormed' verbal mem' opens' mem).elim
    · obtain ⟨within, between⟩ := List.pairwise_flatMap.mp orders.ordered
      obtain ⟨⟨w, isWord, isPrefix, rfl⟩, longest⟩ := exists_preferred verbal (within entry listed) preferred
      rw [isTable] at listed' between
      rcases List.mem_append.mp listed' with early | listed'
      · obtain ⟨most, isFirst⟩ := exists_first mem'
        cases isFirst.symm.trans (Option.map_eq_none_iff.mp (earlier other early))
      · rcases List.mem_cons.mp listed' with rfl | late
        · exact (Nat.lt_or_eq_of_le (longest count' mem')).imp_right fun same => ⟨same, rfl⟩
        · obtain ⟨later, isWord', isPrefix', rfl⟩ := exists_of_mem_verbal verbal' mem'
          have not := (List.pairwise_cons.mp (List.pairwise_append.mp between).2.1).1 other late w isWord later isWord'
          exact .inl (length_lt_of_not_begins isPrefix isPrefix' not)

end

end Spells

/-! ## The vocabularies -/

/-- Checks the order of the words of a vocabulary. -/
def Vocabulary.ordersWords (vocabulary : Vocabulary) : Bool :=
  let words := wordsOf vocabulary.readTable
  decide (words.Pairwise fun w later => ¬ w.isPrefixOf later) &&
    words.all fun w => formedEntries.all fun entry => w.head?.all fun c => !entry.2.opens {} c

theorem OrdersWords.of_check {vocabulary : Vocabulary} (check : vocabulary.ordersWords = true) :
    OrdersWords vocabulary.readTable := by
  simp only [Vocabulary.ordersWords, Bool.and_eq_true, decide_eq_true_eq, List.all_eq_true] at check
  refine ⟨check.1.imp fun not isPrefix => not (List.isPrefixOf_iff_prefix.mpr isPrefix), check.2⟩

theorem ordersWords {vocabulary : Vocabulary} (known : vocabulary = english ∨ vocabulary = chinese) :
    OrdersWords vocabulary.readTable := by
  rcases known with rfl | rfl
  · exact .of_check (by decide +kernel)
  · exact .of_check (by decide +kernel)

/-- In both vocabularies each token that is a match has a pattern that can match nothing longer at its place, nor can
any other pattern, and no other pattern can match the token. -/
theorem longest_match {vocabulary : Vocabulary} (known : vocabulary = english ∨ vocabulary = chinese) :
    ∃ lexer, vocabulary.lexer = .ok lexer ∧
      (∀ entry ∈ vocabulary.lexerSpec.patterns, (alone? lexer.flags entry.2).isSome = true) ∧
      ∀ text : String, ∀ token ∈ (lexer.lex text fun _ => false).tokens, token.kind ≠ Token.invalid →
        ∃ start stop : Nat, token.start = start ∧ token.stop = stop ∧ ∃ entry ∈ vocabulary.readTable,
          token.kind = lexer.kindOf entry.1 token.text ∧ entry.2.CanMatch lexer.flags text.toList start stop ∧
          ∀ other ∈ vocabulary.readTable, ∀ reached, other.2.CanMatch lexer.flags text.toList start reached →
            reached < stop ∨ reached = stop ∧ other = entry := by
  obtain ⟨lexer, defined, lexes⟩ := exists_lexer (lexes_of_known known)
  obtain ⟨words, spells⟩ := exists_spells known defined lexes.flags
  refine ⟨lexer, defined, lexes.flags ▸ alone_of_known known, fun text token mem matched => ?_⟩
  obtain ⟨start, next, covers, sees⟩ := (splits_lex lexer text fun _ => false).exists_sees mem
  cases sees with
  | passed kind => exact absurd kind matched
  | matched here stops named kind =>
    rw [spells.lists.matchAt, Cursor.rest_place] at here
    obtain ⟨⟨name, count⟩, isHit, rfl⟩ := Option.map_eq_some_iff.mp here
    obtain rfl := Option.some.inj named
    rw [lexes.flags] at isHit ⊢
    obtain ⟨entry, listed, rfl, isMatch, longest⟩ := spells.longest_of_hit (ordersWords known) isHit
    have stop : start + count = next := by simpa using stops
    refine ⟨start, next, covers.starts, covers.stops, entry, listed, kind, ?_, fun other listed' reached isMatch' => ?_⟩
    · exact (canMatch_iff (spells.lists.plain entry listed)).mpr ⟨count, isMatch, stop⟩
    · obtain ⟨count', takes, rfl⟩ := (canMatch_iff (spells.lists.plain other listed')).mp isMatch'
      rw [← stop]
      exact (longest other listed' count' takes).imp (Nat.add_lt_add_left · start)
        fun ⟨same, isEntry⟩ => ⟨congrArg _ same, isEntry⟩

theorem chinese_longest_match :
    (chinese = english ∨ chinese = chinese) ∧
      ∃ lexer, chinese.lexer = .ok lexer ∧ ∀ token ∈ (lexer.lex "计次循环<=1.5e" fun _ => false).tokens,
        token.kind ≠ Token.invalid → ∃ start stop : Nat, token.start = start ∧ token.stop = stop ∧
          ∀ other ∈ chinese.readTable, ∀ reached,
            other.2.CanMatch lexer.flags "计次循环<=1.5e".toList start reached → reached ≤ stop := by
  obtain ⟨lexer, defined, -, longest⟩ := longest_match (.inr rfl : chinese = english ∨ chinese = chinese)
  refine ⟨.inr rfl, lexer, defined, fun token mem matched => ?_⟩
  obtain ⟨start, stop, starts, stops, entry, -, -, -, others⟩ := longest _ token mem matched
  refine ⟨start, stop, starts, stops, fun other listed reached takes => ?_⟩
  rcases others other listed reached takes with less | ⟨same, -⟩
  · exact Nat.le_of_lt less
  · exact Nat.le_of_eq same

end Script

end Grammatic
