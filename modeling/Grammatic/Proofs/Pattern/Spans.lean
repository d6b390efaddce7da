import Grammatic.Proofs.Lexer.Scanning
import Grammatic.Proofs.Pattern.Lengths

/-!
# Runs of characters

The matches of patterns that take one character a round, greedily and without a limit: such a repetition goes on
as long as it can (`first_repeated`). What a character has to fulfil may depend on the characters behind it, as
where a look ahead stands before a set (`steps_guarded`), so it is a test of the text that begins with it.

Also the matches of words, which are sets of one character one behind the other, and of choices of words.
-/

namespace Grammatic

namespace Pattern

/-- How many characters in turn stand at the start of a text that passes a test. -/
def runLength (test : List Char → Bool) : List Char → Nat
  | [] => 0
  | c :: text => if test (c :: text) then runLength test text + 1 else 0

/-- A pattern takes one character if the text passes a test, and otherwise does not match. -/
def Steps (flags : Flags) (p : Pattern) (test : List Char → Bool) : Prop :=
  ∀ text, p.lengths flags text = if test text then [1] else []

variable {flags : Flags} {p q : Pattern} {test : List Char → Bool} {text rest other : List Char}
  {c : Char}

/-! ## Rounds of one character -/

/-- Where a run ends inside a text, the rest fails the test. -/
theorem test_of_runLength (run : runLength test (text ++ rest) = text.length) (nonempty : rest ≠ []) :
    test rest = false := by
  induction text with
  | nil =>
    obtain ⟨c, rest, rfl⟩ := List.exists_cons_of_ne_nil nonempty
    rw [List.nil_append, runLength] at run
    split at run
    next => cases run
    next fails => simpa using fails
  | cons c text ih =>
    rw [List.cons_append, runLength] at run
    split at run
    next => exact ih (Nat.succ.inj run)
    next => cases run

theorem steps_set (s : CharSet) : Steps flags (.set s) fun text => text.head?.any (s.contains flags) :=
  fun _ => rfl

theorem steps_guarded (k : Pattern) (s : CharSet) : Steps flags (.seq (.ahead false k) (.set s)) fun text =>
    (k.lengths flags text).isEmpty && text.head?.any (s.contains flags) := by
  intro text
  by_cases none : k.lengths flags text = []
  · cases text <;> simp [lengths, both, none]
  · simp [lengths, both, none]

/-- As many rounds as there can be come first. -/
theorem Steps.head?_more (steps : Steps flags p test) (ends : test [] = false) {budget : Nat}
    (enough : text.length < budget) :
    (lengthsOfMore (p.lengths flags) true budget none text).head? = some (runLength test text) := by
  induction budget generalizing text with
  | zero => exact absurd enough (Nat.not_lt_zero _)
  | succ budget ih =>
    cases text with
    | nil => simp [lengthsOfMore, steps [], ends, runLength]
    | cons c text =>
      have more := ih (Nat.lt_of_succ_lt_succ enough)
      by_cases passes : test (c :: text) = true
      · simp [lengthsOfMore, steps (c :: text), passes, runLength, more, Nat.add_comm]
      · simp [lengthsOfMore, steps (c :: text), passes, runLength]

theorem first_repeated (steps : Steps flags p test) (ends : test [] = false) :
    (repeated true 0 none p).first flags text = some (runLength test text) := by
  have more := steps.head?_more ends (Nat.lt_succ_self text.length)
  simpa [first, lengths, both, lengthsOfRounds] using more

theorem first_seq (steps : Steps flags p test) : (seq p q).first flags text =
    if test text then (q.first flags (text.drop 1)).map (1 + ·) else none := by
  simp only [first, lengths, both, steps text]
  split <;> simp

theorem first_repeated_one (steps : Steps flags p test) (ends : test [] = false) :
    (repeated true 1 none p).first flags text =
      if test text then some (1 + runLength test (text.drop 1)) else none := by
  have more := steps.head?_more ends (Nat.lt_succ_self (text.drop 1).length)
  simp only [first, lengths, both, lengthsOfRounds, steps text]
  by_cases passes : test text = true
  · simp at more
    simp [passes, more]
  · simp [passes]

/-- A run goes on to the same place with another end, if the test passes as before and not at this end. -/
theorem runLength_append_eq_length (whole : runLength test (text ++ rest) = text.length)
    (stays : ∀ part, part ≠ [] → test (part ++ rest) = true → test (part ++ other) = true)
    (ends : runLength test other = 0) : runLength test (text ++ other) = text.length := by
  induction text with
  | nil => exact ends
  | cons c text ih =>
    rw [List.cons_append, runLength] at whole ⊢
    split at whole
    next passes =>
      have passes : test (c :: (text ++ other)) = true := stays (c :: text) (List.cons_ne_nil _ _) passes
      rw [if_pos passes, ih (Nat.succ.inj whole), List.length_cons]
    next => cases whole

/-! ## Words -/

/-- The pattern of a word. -/
def word (chars : List Char) : Pattern := sequence (chars.map fun c => .set (.single c))

/-- Whether a text begins with one of some words. -/
def startsWord (words : List (List Char)) (text : List Char) : Bool := words.any (·.isPrefixOf text)

theorem contains_range_self {c d : Char} : (SetItem.range d d).contains {} c = true ↔ c = d := by
  have same : (d ≤ c ∧ c ≤ d) ↔ c = d := by
    constructor
    · rintro ⟨le, ge⟩
      exact Char.le_antisymm ge le
    · rintro rfl
      exact ⟨Char.le_refl _, Char.le_refl _⟩
  simpa [SetItem.contains, caseVariants] using same

theorem contains_single {c d : Char} : (CharSet.single d).contains {} c = (d == c) := by
  rw [Bool.eq_iff_iff, beq_iff_eq, eq_comm (a := d)]
  simp [CharSet.contains, CharSet.single, contains_range_self]

theorem contains_allBut {excluded : List Char} : (CharSet.allBut excluded).contains {} c = true ↔ c ∉ excluded := by
  have any : (excluded.any fun d => (SetItem.range d d).contains {} c) = true ↔ c ∈ excluded := by
    simp [contains_range_self]
  rw [CharSet.contains, CharSet.allBut, List.any_map]
  exact (by simp : _ ↔ _).trans (not_congr any)

theorem steps_single (d : Char) : Steps {} (.set (.single d)) fun text => [d].isPrefixOf text := by
  intro text
  cases text with
  | nil => rfl
  | cons c text => simp [lengths, contains_single, List.isPrefixOf]

theorem lengths_word (chars : List Char) :
    (word chars).lengths {} text = if chars.isPrefixOf text then [chars.length] else [] := by
  induction chars generalizing text with
  | nil => rfl
  | cons c chars ih =>
    cases chars with
    | nil => exact steps_single c text
    | cons d chars =>
      have split : word (c :: d :: chars) = .seq (.set (.single c)) (word (d :: chars)) := rfl
      rw [split, lengths, both, steps_single c text]
      cases text with
      | nil => rfl
      | cons e text =>
        by_cases same : c = e
        · subst same
          simp only [List.isPrefixOf, BEq.rfl, Bool.true_and, if_true, List.flatMap_cons, List.flatMap_nil,
            List.append_nil, List.drop_succ_cons, List.drop_zero, ih]
          by_cases starts : (d :: chars).isPrefixOf text = true
          · simp only [starts, if_true, List.map_singleton, List.length_cons, Nat.add_comm 1]
          · simp [starts]
        · simp [same]

theorem lengths_choice (patterns : List Pattern) :
    (choice patterns).lengths flags text = patterns.flatMap fun p => p.lengths flags text := by
  induction patterns with
  | nil => rfl
  | cons p patterns ih =>
    cases patterns with
    | nil => simp [choice]
    | cons q patterns =>
      rw [choice, lengths, ih]
      · rfl
      · exact List.cons_ne_nil _ _

theorem lengths_words (words : List (List Char)) :
    ((choice (words.map word)).lengths {} text).isEmpty = !startsWord words text := by
  rw [lengths_choice, startsWord]
  induction words with
  | nil => rfl
  | cons chars words ih =>
    rw [List.map_cons, List.flatMap_cons, lengths_word, List.any_cons]
    by_cases starts : chars.isPrefixOf text = true
    · simp [starts]
    · simpa [starts] using ih

theorem allows_word {chars : List Char} (allows : (word chars).Allows {} text) : text = chars := by
  induction chars generalizing text with
  | nil => exact allows
  | cons c chars ih =>
    have isSingle {text : List Char} (allows : (Pattern.set (.single c)).Allows {} text) : text = [c] := by
      obtain ⟨d, contains, rfl⟩ := allows
      rw [contains_single, beq_iff_eq] at contains
      rw [contains]
    cases chars with
    | nil => exact isSingle allows
    | cons d chars =>
      obtain ⟨first, second, allows, allows', rfl⟩ := allows
      rw [isSingle allows, ih allows']
      rfl

/-- What a pattern allows, one of its alternatives does. -/
theorem Allows.exists_branch (allows : p.Allows flags text) : ∃ branch ∈ p.branches, branch.Allows flags text := by
  induction p with
  | alt p q ihp ihq =>
    rcases allows with allows | allows
    · obtain ⟨branch, mem, allows⟩ := ihp allows
      exact ⟨branch, List.mem_append_left _ mem, allows⟩
    · obtain ⟨branch, mem, allows⟩ := ihq allows
      exact ⟨branch, List.mem_append_right _ mem, allows⟩
  | empty | set | check | seq | group | repeated | ahead | behind | atomic | under =>
    exact ⟨_, List.mem_singleton_self _, allows⟩

theorem startsWord_append {words : List (List Char)} (starts : startsWord words text = true) :
    startsWord words (text ++ rest) = true := by
  obtain ⟨w, mem, isPrefix⟩ := List.any_eq_true.mp starts
  rw [List.isPrefixOf_iff_prefix] at isPrefix
  exact List.any_eq_true.mpr ⟨w, mem, List.isPrefixOf_iff_prefix.mpr (isPrefix.trans (List.prefix_append _ _))⟩

/-- Where a text ends, a word that it begins with is inside it, if no word has a space. -/
theorem startsWord_of_append {words : List (List Char)} (unspaced : ∀ w ∈ words, ' ' ∉ w) (ended : Ended rest)
    (starts : startsWord words (text ++ rest) = true) : startsWord words text = true := by
  obtain ⟨w, mem, isPrefix⟩ := List.any_eq_true.mp starts
  obtain ⟨behind, whole⟩ := List.isPrefixOf_iff_prefix.mp isPrefix
  refine List.any_eq_true.mpr ⟨w, mem, List.isPrefixOf_iff_prefix.mpr ?_⟩
  rcases List.append_eq_append_iff.mp whole with ⟨more, rfl, -⟩ | ⟨more, rfl, rfl⟩
  · exact List.prefix_append _ _
  · -- the word goes on behind the text, where only a space can stand
    cases more with
    | nil => simp
    | cons c more =>
      cases ended
      exact absurd (List.mem_append_right _ List.mem_cons_self) (unspaced _ mem)

/-- The lengths of an alternative are lengths of the pattern. -/
theorem lengths_subset_of_branch (branch : q ∈ p.branches) : q.lengths flags text ⊆ p.lengths flags text := by
  induction p with
  | alt p p' ih ih' =>
    rw [lengths]
    rcases List.mem_append.mp branch with branch | branch
    · exact List.subset_append_of_subset_left _ (ih branch)
    · exact List.subset_append_of_subset_right _ (ih' branch)
  | empty | set | check | seq | group | repeated | ahead | behind | atomic | under =>
    obtain rfl := List.mem_singleton.mp branch
    exact List.Subset.refl _

end Pattern

end Grammatic
