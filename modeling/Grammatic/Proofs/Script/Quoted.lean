import Grammatic.Proofs.Pattern.Spans

/-!
# Quoted texts

A quoted text of a script goes on up to the first quote that is not escaped. Read from the left, whether a
character is escaped is all that needs to be known of what stands before it, so the end is found by going on one
character at a time (`closing`), and the pattern of quoted texts finds the same end (`first_quotedPattern`).

Where a text is not closed, it stays so when what comes behind some part of it is exchanged for another text that
does not close it either (`closing_append_eq_none`).
-/

namespace Grammatic.Script

open Pattern

/-- How many characters there are up to the quote that closes a quoted text, and with it. The first character may
be escaped by what stands before it. -/
def closing (escaped : Bool) : List Char → Option Nat
  | [] => none
  | c :: text =>
    if c = '\n' then none
    else if escaped then (closing false text).map (1 + ·)
    else if c = '"' then some 1
    else (closing (c = '\\') text).map (1 + ·)

variable {escaped : Bool} {part text other : List Char} {c : Char}

/-! ## Where a quoted text ends -/

/-- A text that is not closed stays so with another end that does not close it. -/
theorem closing_append_eq_none (stays : ∀ escaped, closing escaped text = none → closing escaped other = none)
    (unclosed : closing escaped (part ++ text) = none) : closing escaped (part ++ other) = none := by
  induction part generalizing escaped with
  | nil => exact stays escaped unclosed
  | cons c part ih =>
    rw [List.cons_append, closing] at unclosed ⊢
    split at unclosed
    next newline => rw [if_pos newline]
    next newline =>
      rw [if_neg newline]
      split at unclosed
      next escapes => rw [if_pos escapes, ih (Option.map_eq_none_iff.mp unclosed), Option.map_none]
      next escapes =>
        rw [if_neg escapes]
        split at unclosed
        next => cases unclosed
        next quote => rw [if_neg quote, ih (Option.map_eq_none_iff.mp unclosed), Option.map_none]

/-- Where a quoted text is closed, what comes behind it does not matter. -/
theorem closing_append_eq_length (whole : closing escaped (part ++ text) = some part.length) :
    closing escaped (part ++ other) = some part.length := by
  induction part generalizing escaped with
  | nil =>
    -- the closing quote is part of what is counted
    cases text with
    | nil => cases whole
    | cons c text =>
      rw [List.nil_append, closing] at whole
      split at whole
      next => cases whole
      next =>
        split at whole
        next => simp at whole
        next =>
          split at whole
          next => cases whole
          next => simp at whole
  | cons c part ih =>
    have shorter {escaped : Bool} (more : (closing escaped (part ++ text)).map (1 + ·) = some (c :: part).length) :
        (closing escaped (part ++ other)).map (1 + ·) = some (c :: part).length := by
      obtain ⟨count, isClosing, length⟩ := Option.map_eq_some_iff.mp more
      obtain rfl : count = part.length := Nat.add_left_cancel (length.trans (Nat.add_comm _ 1))
      rw [ih isClosing]
      exact congrArg some length
    rw [List.cons_append, closing] at whole ⊢
    split at whole
    next => cases whole
    next newline =>
      rw [if_neg newline]
      split at whole
      next escapes => rw [if_pos escapes, shorter whole]
      next escapes =>
        rw [if_neg escapes]
        split at whole
        next quote => rw [if_pos quote, whole]
        next quote => rw [if_neg quote, shorter whole]

/-- Characters that have no meaning of their own neither close a quoted text nor escape what comes behind. -/
theorem closing_append_eq_none_iff (nonempty : part ≠ []) (quote : '"' ∉ part) (backslash : '\\' ∉ part)
    (newline : '\n' ∉ part) : closing escaped (part ++ text) = none ↔ closing false text = none := by
  have first {c : Char} {part : List Char} (quote : '"' ∉ c :: part) (backslash : '\\' ∉ c :: part)
      (newline : '\n' ∉ c :: part) (escaped : Bool) :
      closing escaped (c :: part ++ text) = none ↔ closing false (part ++ text) = none := by
    rw [List.mem_cons, not_or, eq_comm] at quote backslash newline
    rw [List.cons_append, closing, if_neg newline.1, if_neg quote.1, decide_eq_false backslash.1, ite_self,
      Option.map_eq_none_iff]
  induction part generalizing escaped with
  | nil => exact absurd rfl nonempty
  | cons c part ih =>
    rw [first quote backslash newline]
    cases part with
    | nil => rfl
    | cons d part =>
      exact ih (List.cons_ne_nil _ _) (mt (List.mem_cons_of_mem _) quote) (mt (List.mem_cons_of_mem _) backslash)
        (mt (List.mem_cons_of_mem _) newline)

/-- A newline ends the search, also when it is escaped. -/
theorem closing_newline : closing escaped ('\n' :: text) = none := rfl

/-! ## The pattern of quoted texts -/

/-- A character between quotes that stands for itself, or an escape. -/
def quotedChar : Pattern :=
  .alt (.set (.allBut ['\\', '"', '\n'])) (.seq (.set (.single '\\')) (.set (.allBut ['\n'])))

/-- The pattern of quoted texts. -/
def quotedPattern : Pattern :=
  .seq (.set (.single '"')) (.seq (.repeated true 0 none quotedChar) (.set (.single '"')))

theorem lengths_quotedChar : quotedChar.lengths {} (c :: text) =
    if c = '\n' ∨ c = '"' then []
    else if c = '\\' then (if text.head?.any (· ≠ '\n') then [2] else [])
    else [1] := by
  have plain : (CharSet.allBut ['\\', '"', '\n']).contains {} c = true ↔ c ≠ '\\' ∧ c ≠ '"' ∧ c ≠ '\n' := by
    simp [contains_allBut]
  have escaped (d : Char) : (CharSet.allBut ['\n']).contains {} d = decide (d ≠ '\n') := by
    rw [Bool.eq_iff_iff, contains_allBut]
    simp
  by_cases ends : c = '\n' ∨ c = '"'
  · have backslash : c ≠ '\\' := by
      rintro rfl
      revert ends
      decide
    have notPlain : (CharSet.allBut ['\\', '"', '\n']).contains {} c = false := by
      rw [← Bool.not_eq_true, plain]
      exact fun ⟨_, quote, newline⟩ => ends.elim newline quote
    simp [quotedChar, lengths, both, notPlain, contains_single, backslash.symm, ends]
  · rw [if_neg ends]
    obtain ⟨newline, quote⟩ := not_or.mp ends
    by_cases backslash : c = '\\'
    · subst backslash
      have notPlain : (CharSet.allBut ['\\', '"', '\n']).contains {} '\\' = false := by decide
      cases text with
      | nil => simp [quotedChar, lengths, both, notPlain, contains_single]
      | cons d text =>
        by_cases isNewline : d = '\n'
        · simp [quotedChar, lengths, both, notPlain, contains_single, escaped, isNewline]
        · simp [quotedChar, lengths, both, notPlain, contains_single, escaped, isNewline]
    · simp [quotedChar, lengths, both, plain.mpr ⟨backslash, quote, newline⟩, contains_single, Ne.symm backslash,
        if_neg backslash]

/-- What a repetition and the rest behind it can match, told by the only way to make a first round. -/
theorem both_lengthsOfMore {round rest : List Char → List Nat} {budget count : Nat}
    (once : round text = [count]) (pos : count ≠ 0) :
    both (lengthsOfMore round true (budget + 1) none) rest text =
      (both (lengthsOfMore round true budget none) rest (text.drop count)).map (count + ·) ++ rest text := by
  simp [both, lengthsOfMore, once, pos, List.flatMap_append, List.flatMap_map, List.map_flatMap, Function.comp_def,
    Nat.add_assoc]

theorem both_lengthsOfMore_of_none {round rest : List Char → List Nat} {budget : Nat} (never : round text = []) :
    both (lengthsOfMore round true (budget + 1) none) rest text = rest text := by
  simp [both, lengthsOfMore, never]

/-- At each place there is one way to go on at most, so there is one match at most. -/
theorem both_quotedChars {budget : Nat} (enough : text.length < budget) :
    both (lengthsOfMore (quotedChar.lengths {}) true budget none) ((Pattern.set (.single '"')).lengths {}) text =
      (closing false text).toList := by
  induction budget generalizing text with
  | zero => exact absurd enough (Nat.not_lt_zero _)
  | succ budget ih =>
    have quoteHere (c : Char) (text : List Char) :
        (Pattern.set (.single '"')).lengths {} (c :: text) = if '"' = c then [1] else [] := by
      simp [lengths, contains_single]
    cases text with
    | nil => rw [both_lengthsOfMore_of_none rfl]; rfl
    | cons c text =>
      have shorter := Nat.lt_of_succ_lt_succ enough
      rw [closing, if_neg Bool.false_ne_true]
      by_cases ends : c = '\n' ∨ c = '"'
      · rw [both_lengthsOfMore_of_none (by rw [lengths_quotedChar, if_pos ends]), quoteHere]
        rcases ends with rfl | rfl <;> rfl
      · obtain ⟨newline, quote⟩ := not_or.mp ends
        rw [if_neg newline, if_neg quote]
        by_cases backslash : c = '\\'
        · rw [decide_eq_true backslash]
          cases text with
          | nil =>
            have never : quotedChar.lengths {} [c] = [] := by
              rw [lengths_quotedChar, if_neg ends, if_pos backslash]
              rfl
            rw [both_lengthsOfMore_of_none never, quoteHere, if_neg (Ne.symm quote)]
            rfl
          | cons d text =>
            rw [closing, if_pos rfl]
            by_cases escapes : d = '\n'
            · have never : quotedChar.lengths {} (c :: d :: text) = [] := by
                rw [lengths_quotedChar, if_neg ends, if_pos backslash]
                simp [escapes]
              rw [both_lengthsOfMore_of_none never, quoteHere, if_neg (Ne.symm quote), if_pos escapes]
              rfl
            · have once : quotedChar.lengths {} (c :: d :: text) = [2] := by
                rw [lengths_quotedChar, if_neg ends, if_pos backslash]
                simp [escapes]
              have inside : text.length < budget := Nat.lt_of_succ_lt shorter
              rw [both_lengthsOfMore once (by decide), quoteHere, if_neg (Ne.symm quote), List.append_nil,
                if_neg escapes, Option.map_map, Option.toList_map]
              exact (congrArg _ (ih inside)).trans (by simp only [Function.comp_def, ← Nat.add_assoc])
        · have once : quotedChar.lengths {} (c :: text) = [1] := by
            rw [lengths_quotedChar, if_neg ends, if_neg backslash]
          rw [both_lengthsOfMore once (by decide), quoteHere, if_neg (Ne.symm quote), List.append_nil,
            decide_eq_false backslash, Option.toList_map]
          exact congrArg _ (ih shorter)

/-- The pattern of quoted texts has one match at most, up to the quote that closes the text. -/
theorem lengths_quotedPattern : quotedPattern.lengths {} text =
    (if text.head? = some '"' then (closing false (text.drop 1)).map (1 + ·) else none).toList := by
  have rest : (Pattern.seq (.repeated true 0 none quotedChar) (.set (.single '"'))).lengths {} (text.drop 1) =
      (closing false (text.drop 1)).toList := by
    rw [← both_quotedChars (Nat.lt_succ_self _)]
    simp [lengths, both, lengthsOfRounds]
  rw [quotedPattern, lengths, both, steps_single '"']
  cases text with
  | nil => rfl
  | cons c text =>
    by_cases quote : c = '"'
    · simpa [List.isPrefixOf, quote, Option.toList_map] using congrArg (List.map (1 + ·)) rest
    · simp [List.isPrefixOf, quote, Ne.symm quote]

/-- The pattern of quoted texts finds the quote that closes the text. -/
theorem first_quotedPattern : quotedPattern.first {} text =
    if text.head? = some '"' then (closing false (text.drop 1)).map (1 + ·) else none := by
  rw [first, lengths_quotedPattern, Option.head?_toList]

end Grammatic.Script
