import Mathlib.Tactic.IntervalCases
import Grammatic.Lexer.Spelling
import Grammatic.Proofs.Lexer.Refusals
import Grammatic.Proofs.Pattern.Spans

/-!
# Texts that are written to be patterns

A table of spelled keywords is made by writing texts: characters behind backslashes, and bars between texts. What is
written for a text is read as the word that it is (`readable_patternText`), whatever its characters and the flags are.
And what is written for alternatives is read as their choice, the first of which may be any pattern
(`exists_read_alternatives`). The second needs a text that is a pattern by itself, and that no comment at the end of it
takes the bar along.
-/

namespace Grammatic

namespace Pattern

open Spelling

variable {flags : Flags} {done : List Pattern} {last : Option Piece} {before before' : List Pattern}
  {final final' p : Pattern} {names : GroupNames} {c : Char}

/-! ## Characters -/

/-- A character behind a backslash is read as itself. -/
theorem readEscape_of_mem (escaped : c ∈ escapedInPatterns) (text : List Char) :
    readEscape c text = .ok (.plain (.set (.single c)), text) := by
  have plain : (escapedInPatterns.all fun c => assertionEscape? c = none ∧ classEscape? c = none ∧
      Text.isBasicLetter c = false ∧ Text.isBasicDigit c = false ∧ isOctal c = false) = true := by decide
  obtain ⟨noAssertion, noClass, noLetter, noDigit, noOctal⟩ :=
    of_decide_eq_true (List.all_eq_true.mp plain c escaped)
  have itself : readEscapedChar c text = .ok (c, text) := by
    unfold readEscapedChar
    split
    case h_11 => rw [noLetter, noDigit]; rfl
    all_goals cases noLetter
  have noNumber : isGroupNumber c text = false := by rw [isGroupNumber, noDigit]; rfl
  rw [readEscape, noAssertion, noClass]
  simp only [noNumber, noOctal, itself, Bool.false_eq_true, if_false, Except.map]

theorem isBasicSpace_of_not_mem (plain : c ∉ escapedInPatterns) : Text.isBasicSpace c = false := by
  rw [Text.isBasicSpace, Bool.or_eq_false_iff, decide_eq_false_iff_not]
  refine ⟨fun space => plain (space ▸ by decide), Bool.eq_false_iff.mpr fun blank => plain ?_⟩
  simp only [Bool.and_eq_true, decide_eq_true_eq] at blank
  rw [← Char.ofNat_toNat c]
  obtain ⟨least, most⟩ := blank
  generalize c.toNat = code at least most ⊢
  interval_cases code <;> decide

/-- A character that is written without a backslash is read as itself, and marks no repetition. -/
theorem literal_of_not_mem (flags : Flags) (plain : c ∉ escapedInPatterns) : Ordinary c ∧ Counts flags c ∧
    pieceOf flags c = .plain (.set (.single c)) ∧ ∀ text, readRepeat (c :: text) = .ok none := by
  have other {d : Char} (escaped : d ∈ escapedInPatterns) : c ≠ d := by
    rintro rfl
    exact plain escaped
  refine ⟨fun mem => ?_, ⟨?_, ?_⟩, ?_, fun text => ?_⟩
  · have special : [')', '|', '\\', '[', '('] ⊆ escapedInPatterns := by decide
    exact plain (special mem)
  · rw [isPatternBlank, isBasicSpace_of_not_mem plain, Bool.and_false]
  · rintro ⟨-, rfl⟩
    exact plain (by decide)
  · unfold pieceOf
    split
    next => exact absurd rfl (other (by decide))
    next => exact absurd rfl (other (by decide))
    next => exact absurd rfl (other (by decide))
    next => rfl
  · unfold readRepeat
    split
    next same => exact absurd (List.cons.inj same).1 (other (by decide))
    next same => exact absurd (List.cons.inj same).1 (other (by decide))
    next same => exact absurd (List.cons.inj same).1 (other (by decide))
    next same => exact absurd (List.cons.inj same).1 (other (by decide))
    next => rfl

/-- The characters that are written for some characters. -/
def written (chars : List Char) : List Char :=
  chars.flatMap fun c => if c ∈ escapedInPatterns then ['\\', c] else [c]

/-- What is written for characters is read as these, behind what has been read before. -/
theorem readable_written (chars : List Char) : Readable flags done last (written chars) []
    (sequence ((closed done last).reverse ++ chars.map fun c => .set (.single c))) [] := by
  induction chars generalizing done last with
  | nil =>
    rw [List.map_nil, List.append_nil]
    exact .nil
  | cons c chars ih =>
    have piece : sequence ((closed done last).reverse ++ (c :: chars).map fun c => .set (.single c)) =
        sequence ((closed (closed done last) (some (.plain (.set (.single c))))).reverse ++
          chars.map fun c => .set (.single c)) := by
      simp [closed, Piece.pattern]
    rw [piece, written, List.flatMap_cons]
    split
    next escaped =>
      show Readable flags done last ('\\' :: c :: ([] ++ written chars)) _ _ _
      exact .escape (fun _ => readEscape_of_mem escaped _) ih
    next plain =>
      obtain ⟨ordinary, counts, isPiece, mark⟩ := literal_of_not_mem flags plain
      exact .literal ordinary counts (fun _ => mark _) (isPiece ▸ ih)

theorem readable_patternText (flags : Flags) (text : String) :
    Readable flags [] none (patternText text).toList [] (word text.toList) [] := by
  rw [patternText, String.toList_ofList]
  exact readable_written text.toList

/-- A word is lawful where case is not ignored. -/
theorem lawful_word (exact : flags.ignoreCase = false) (chars : List Char) : Lawful flags (word chars) := by
  have single (c : Char) : Lawful flags (.set (.single c)) :=
    ⟨rfl, by simp [isSupported, CharSet.single, SetItem.isSupported, exact]⟩
  induction chars with
  | nil => exact ⟨rfl, rfl⟩
  | cons c chars ih =>
    cases chars with
    | nil => exact single c
    | cons d chars => exact (single c).seq ih

theorem lawful_words (exact : flags.ignoreCase = false) (words : List (List Char)) :
    Lawful flags (choice (words.map word)) := by
  rw [lawful_choice, List.forall_mem_map]
  exact fun chars _ => lawful_word exact chars

/-! ## Alternatives -/

/-- Alternatives of two texts match as those of the first, and otherwise as those of the second. -/
theorem run_alternation_append (next : Continuation) (start : Match) :
    (alternation (before ++ final :: before') final').run flags next start =
      ((alternation before final).run flags next start).orElse fun _ =>
        (alternation before' final').run flags next start := by
  induction before with
  | nil => rfl
  | cons p before ih =>
    have cons (others : List Pattern) (last : Pattern) :
        alternation (p :: others) last = .alt p (alternation others last) := rfl
    rw [List.cons_append, cons, cons, run, run, ih]
    cases p.run flags next start <;> rfl

theorem toList_alternatives_cons (text second : String) (texts : List String) :
    (alternatives (text :: second :: texts)).toList =
      text.toList ++ '|' :: (alternatives (second :: texts)).toList := by
  simp [alternatives, String.toList_intercalate]

theorem alternatives_singleton (text : String) : alternatives [text] = text := by
  simp [alternatives]

/-- What is written for the alternatives of some texts is read as the choice of these words. -/
theorem exists_readable_alternatives (flags : Flags) {texts : List String} (nonempty : texts ≠ []) :
    ∃ before final, Readable flags [] none (alternatives (texts.map patternText)).toList before final [] ∧
      alternation before final = choice ((texts.map String.toList).map word) := by
  induction texts with
  | nil => exact absurd rfl nonempty
  | cons text texts ih =>
    have first := readable_patternText flags text
    cases texts with
    | nil =>
      rw [List.map_singleton, alternatives_singleton]
      exact ⟨[], _, first, rfl⟩
    | cons second texts =>
      obtain ⟨before, final, others, same⟩ := ih (List.cons_ne_nil _ _)
      rw [List.map_cons, List.map_cons, toList_alternatives_cons]
      refine ⟨_ :: before, final, first.barred others, ?_⟩
      show Pattern.alt _ _ = .alt _ (choice (((second :: texts).map String.toList).map word))
      rw [← same]
      rfl

/-- What is read from a text without comments can be read before any border. -/
theorem exists_readable_of_read {text : String} (noComments : flags.verbose = false)
    (read : Pattern.read flags text = .ok (p, names)) :
    ∃ before final, p = alternation before final ∧ Readable flags [] none text.toList before final names := by
  obtain ⟨taken, before, final, own, whole, rfl, readable⟩ := (reads_of_read read).readable fun _ => noComments
  obtain rfl : text.toList = taken := by simpa using whole
  obtain rfl : own = names := readable.names.symm.trans (groupNames_of_read read).1
  exact ⟨before, final, rfl, readable⟩

/-- A pattern with words as further alternatives is read as one that matches as it does, and otherwise as one of the
words does. -/
theorem exists_read_alternatives {text : String} (noComments : flags.verbose = false) (exact : flags.ignoreCase = false)
    (read : Pattern.read flags text = .ok (p, names)) (texts : List String) :
    ∃ q, Pattern.read flags (alternatives (text :: texts.map patternText)) = .ok (q, names) ∧
      ∀ next start, q.run flags next start = (p.run flags next start).orElse fun _ =>
        (choice ((texts.map String.toList).map word)).run flags next start := by
  cases texts with
  | nil =>
    refine ⟨p, by rwa [List.map_nil, alternatives_singleton], fun next start => ?_⟩
    cases p.run flags next start <;> rfl
  | cons second texts =>
    obtain ⟨before, final, rfl, readable⟩ := exists_readable_of_read noComments read
    obtain ⟨before', final', others, same⟩ := exists_readable_alternatives flags (List.cons_ne_nil second texts)
    have joined := readable.barred others
    rw [List.append_nil, List.map_cons, ← toList_alternatives_cons] at joined
    have words : Lawful flags (alternation before' final') := same ▸ lawful_words exact _
    have lawful : Lawful flags (alternation (before ++ final :: before') final') := by
      obtain ⟨first, isFinal⟩ := lawful_alternation.mp (readAlternatives_of_read read).2
      obtain ⟨second, isFinal'⟩ := lawful_alternation.mp words
      have others := List.forall_mem_append.mpr ⟨first, List.forall_mem_cons.mpr ⟨isFinal, second⟩⟩
      exact lawful_alternation.mpr ⟨others, isFinal'⟩
    refine ⟨_, joined.read (groupNames_of_read read).2 lawful, fun next start => ?_⟩
    rw [run_alternation_append, same]

end Pattern

end Grammatic
