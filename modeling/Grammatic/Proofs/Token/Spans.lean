import Grammatic.Token.Buffer

/-!
# Stretches of tokens

`TokenBuffer.Spans` reads a stretch of a buffer as a list of tokens, none of them of the end kind. From
each position one stretch comes to the end of the text, which is what `takeWhile` leaves of the tokens
(`spans_text_iff`). The end token that a buffer adds to a list is not part of it
(`takeWhile_ofTokens`).
-/

namespace Grammatic.TokenBuffer

/-- Tokens stand from one position to another, none of them of the end kind. -/
def Spans (buffer : TokenBuffer) : Nat → List Token → Nat → Prop
  | start, [], stop => stop = start
  | start, token :: rest, stop =>
    buffer.peek start = token ∧ buffer.atEnd start = false ∧ buffer.Spans (start + 1) rest stop

variable {buffer : TokenBuffer} {start stop stop' : Nat} {text text' more : List Token}

theorem spans_append :
    buffer.Spans start (text ++ more) stop ↔
      ∃ middle, buffer.Spans start text middle ∧ buffer.Spans middle more stop := by
  induction text generalizing start with
  | nil =>
    constructor
    · intro spans
      exact ⟨start, rfl, spans⟩
    · rintro ⟨_, rfl, spans⟩
      exact spans
  | cons token rest ih =>
    constructor
    · rintro ⟨first, inside, spans⟩
      obtain ⟨middle, before, behind⟩ := ih.mp spans
      exact ⟨middle, ⟨first, inside, before⟩, behind⟩
    · rintro ⟨middle, ⟨first, inside, before⟩, behind⟩
      exact ⟨first, inside, ih.mpr ⟨middle, before, behind⟩⟩

theorem Spans.stop_eq (spans : buffer.Spans start text stop) : stop = start + text.length := by
  induction text generalizing start with
  | nil => exact spans
  | cons token rest ih =>
    rw [ih spans.2.2, List.length_cons]
    omega

/-- The tokens of a stretch are tokens of the buffer. -/
theorem Spans.mem_toList (spans : buffer.Spans start text stop) {token : Token} (mem : token ∈ text) :
    token ∈ buffer.toList := by
  induction text generalizing start with
  | nil => exact absurd mem List.not_mem_nil
  | cons first rest ih =>
    obtain ⟨rfl, -, behind⟩ := spans
    rcases List.mem_cons.mp mem with rfl | mem
    · exact buffer.peek_mem_toList start
    · exact ih behind mem

/-- A stretch ends before the last token. -/
theorem Spans.stop_le (spans : buffer.Spans start text stop) : stop ≤ max start buffer.body.size := by
  induction text generalizing start with
  | nil =>
    obtain rfl := spans
    exact Nat.le_max_left _ _
  | cons token rest ih =>
    have within : start < buffer.body.size := by
      apply Nat.lt_of_not_le
      intro past
      exact nomatch (atEnd_of_le past).symm.trans spans.2.1
    have := ih spans.2.2
    omega

theorem advance_of_not_atEnd (inside : buffer.atEnd start = false) :
    buffer.advance start = start + 1 :=
  if_neg (of_decide_eq_false inside)

theorem not_atEnd_of_mem {kinds : List TokenKind} (notEnd : buffer.endKind ∉ kinds)
    (mem : (buffer.peek start).kind ∈ kinds) : buffer.atEnd start = false := by
  apply decide_eq_false
  intro same
  rw [same] at mem
  exact notEnd mem

/-- A token before the end is one of the list that the buffer is made of. -/
theorem getElem?_of_not_atEnd {tokens : List Token} {source? : Option Source} {endKind : TokenKind}
    (inside : (ofTokens tokens source? endKind).atEnd start = false) :
    tokens[start]? = some ((ofTokens tokens source? endKind).peek start) := by
  have other : ((ofTokens tokens source? endKind).peek start).kind ≠ endKind := by
    have := of_decide_eq_false inside
    rwa [endKind_ofTokens] at this
  rw [peek_eq_getD] at other ⊢
  have ending := (ofTokens tokens source? endKind).final_kind
  rw [endKind_ofTokens] at ending
  cases found : (ofTokens tokens source? endKind).toList[start]? with
  | none =>
    rw [found, Option.getD_none] at other
    exact absurd ending other
  | some token =>
    rw [found, Option.getD_some] at other
    rw [Option.getD_some]
    by_cases ended : ∃ last, tokens.getLast? = some last ∧ last.kind = endKind
    · obtain ⟨last, isLast, kind⟩ := ended
      rwa [toList_ofTokens_of_ended source? isLast kind] at found
    · rw [toList_ofTokens_of_open source? fun last isLast kind => ended ⟨last, isLast, kind⟩,
        List.getElem?_append] at found
      split at found
      next => exact found
      next =>
        obtain rfl := List.mem_singleton.mp (List.mem_of_getElem? found)
        exact absurd rfl other

/-- A stretch is a slice of the list that the buffer is made of. -/
theorem Spans.eq_slice {tokens : List Token} {source? : Option Source} {endKind : TokenKind}
    (spans : (ofTokens tokens source? endKind).Spans start text stop) :
    text = (tokens.take stop).drop start := by
  have stop_eq := spans.stop_eq
  subst stop_eq
  rw [List.drop_take, Nat.add_sub_cancel_left]
  generalize start + text.length = stop at spans
  induction text generalizing start with
  | nil => rw [List.length_nil, List.take_zero]
  | cons token rest ih =>
    obtain ⟨rfl, inside, spans⟩ := spans
    have found := getElem?_of_not_atEnd inside
    obtain ⟨valid, same⟩ := List.getElem?_eq_some_iff.mp found
    rw [List.length_cons, List.drop_eq_getElem_cons valid, List.take_succ_cons, same, ← ih spans]

/-! ## To the end of the text -/

/-- From one position there is one stretch that comes to the end of the text. -/
theorem Spans.unique (spans : buffer.Spans start text stop) (ended : buffer.atEnd stop = true)
    (spans' : buffer.Spans start text' stop') (ended' : buffer.atEnd stop' = true) :
    text = text' := by
  induction text generalizing start text' with
  | nil =>
    obtain rfl := spans
    cases text' with
    | nil => rfl
    | cons _ _ => exact nomatch ended.symm.trans spans'.2.1
  | cons token rest ih =>
    obtain ⟨peeked, inside, spans⟩ := spans
    cases text' with
    | nil =>
      obtain rfl := spans'
      exact nomatch ended'.symm.trans inside
    | cons token' rest' =>
      obtain ⟨peeked', -, spans'⟩ := spans'
      rw [← peeked, ← peeked', ih spans spans']

/-- The tokens before the first end token stand from the start to an end token. -/
theorem exists_spans_takeWhile {tokens : List Token} (left : buffer.toList.drop start = tokens)
    (some : tokens ≠ []) :
    ∃ stop, buffer.Spans start (tokens.takeWhile fun token => token.kind ≠ buffer.endKind) stop ∧
      buffer.atEnd stop = true := by
  induction tokens generalizing start with
  | nil => exact absurd rfl some
  | cons token rest ih =>
    have peeked : buffer.peek start = token := by
      have here : buffer.toList[start]? = token := by
        rw [← Nat.add_zero start, ← List.getElem?_drop, left]
        rfl
      rw [peek_eq_getD, here, Option.getD_some]
    by_cases ended : token.kind = buffer.endKind
    · rw [List.takeWhile_cons_of_neg (by simp [ended])]
      exact ⟨start, rfl, decide_eq_true (by rw [peeked, ended])⟩
    · rw [List.takeWhile_cons_of_pos (by simp [ended])]
      have left' : buffer.toList.drop (start + 1) = rest := by
        rw [← List.drop_drop, left]
        rfl
      have some' : rest ≠ [] := by
        -- the last token of the buffer has the end kind
        rintro rfl
        have last : (buffer.toList.drop start).getLast? = buffer.final := by
          rw [List.getLast?_drop, if_neg]
          · exact List.getLast?_append
          · have := congrArg List.length left
            rw [List.length_drop, List.length_cons, List.length_nil] at this
            omega
        rw [left] at last
        obtain rfl := Option.some.inj last
        exact ended buffer.final_kind
      obtain ⟨stop, spans, atEnd⟩ := ih left' some'
      exact ⟨stop, ⟨peeked, decide_eq_false (by rw [peeked]; exact ended), spans⟩, atEnd⟩

/-- What stands from the first position to the end of the text is the tokens before the first end
token. -/
theorem spans_text_iff :
    (∃ stop, buffer.Spans 0 text stop ∧ buffer.atEnd stop = true) ↔
      text = buffer.toList.takeWhile fun token => token.kind ≠ buffer.endKind := by
  have some : buffer.toList ≠ [] := by simp [toList]
  have whole : buffer.toList.drop 0 = buffer.toList := List.drop_zero
  obtain ⟨last, spans, ended⟩ := exists_spans_takeWhile whole some
  constructor
  · rintro ⟨stop, spans', ended'⟩
    exact spans'.unique ended' spans ended
  · rintro rfl
    exact ⟨last, spans, ended⟩

/-- The end token that is added to a list is not part of the text. -/
theorem takeWhile_ofTokens (tokens : List Token) (source? : Option Source) (endKind : TokenKind) :
    ((ofTokens tokens source? endKind).toList.takeWhile fun token => token.kind ≠ endKind) =
      tokens.takeWhile fun token => token.kind ≠ endKind := by
  by_cases ended : ∃ last, tokens.getLast? = some last ∧ last.kind = endKind
  · obtain ⟨last, isLast, kind⟩ := ended
    rw [toList_ofTokens_of_ended source? isLast kind]
  · rw [toList_ofTokens_of_open source? fun last isLast kind => ended ⟨last, isLast, kind⟩,
      List.takeWhile_append]
    split
    next all =>
      rw [List.takeWhile_cons_of_neg (by simp [Token.mark]), List.append_nil]
      exact ((List.takeWhile_prefix _).eq_of_length all).symm
    next => rfl

end Grammatic.TokenBuffer
