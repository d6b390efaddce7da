import Grammatic.Token.Basic
import Grammatic.Source.Diagnostic

/-!
# Token buffers and streams

A token buffer holds all tokens of a text and ends in a token of its end kind. Positions are
indices; a look past the end sees the last token, and a token of the end kind is never passed.
A token stream is a buffer with a position in it.
-/

namespace Grammatic

/-- The tokens of a text, of which the last has the end kind. -/
structure TokenBuffer where
  endKind : TokenKind
  /-- The tokens before the last one. -/
  body : Array Token
  /-- The last token. -/
  final : Token
  final_kind : final.kind = endKind
  /-- The source that the tokens were read from. -/
  source? : Option Source

namespace TokenBuffer

/-- The position of the token that ends a list of tokens: the end of the source, or else that of the
last token, or else zero. -/
def endPosition (tokens : List Token) (source? : Option Source) : Int :=
  match source?, tokens.getLast? with
  | some source, _ => source.length
  | none, some last => last.stop
  | none, none => 0

/-- The buffer of a list of tokens. An end token is added unless the list ends in one. -/
def ofTokens (tokens : List Token) (source? : Option Source := none)
    (endKind : TokenKind := Token.endOfText) : TokenBuffer :=
  match tokens.getLast? with
  | some last =>
    if h : last.kind = endKind then ⟨endKind, tokens.dropLast.toArray, last, h, source?⟩
    else ⟨endKind, tokens.toArray, .mark endKind (endPosition tokens source?), rfl, source?⟩
  | none => ⟨endKind, #[], .mark endKind (endPosition tokens source?), rfl, source?⟩

/-- All tokens of a buffer. -/
def toList (buffer : TokenBuffer) : List Token :=
  buffer.body.toList ++ [buffer.final]

/-- The number of tokens of a buffer. -/
def size (buffer : TokenBuffer) : Nat := buffer.body.size + 1

/-- The token at a position; past the end, the last one. -/
def peek (buffer : TokenBuffer) (position : Nat) : Token :=
  buffer.body[position]?.getD buffer.final

/-- The position behind the token at a position; the end token is not passed. -/
def advance (buffer : TokenBuffer) (position : Nat) : Nat :=
  if (buffer.peek position).kind = buffer.endKind then position else position + 1

/-- Whether the token at a position has the end kind. -/
def atEnd (buffer : TokenBuffer) (position : Nat) : Bool :=
  (buffer.peek position).kind = buffer.endKind

/-- The first position of a token of the end kind, from a position on. -/
def endFrom (buffer : TokenBuffer) (position : Nat) : Nat :=
  position + (buffer.body.toList.drop position).findIdx (·.kind = buffer.endKind)

@[simp] theorem length_toList (buffer : TokenBuffer) : buffer.toList.length = buffer.size := by
  simp [toList, size]

@[simp] theorem endKind_ofTokens (tokens : List Token) (source? : Option Source)
    (endKind : TokenKind) : (ofTokens tokens source? endKind).endKind = endKind := by
  unfold ofTokens
  split
  · split <;> rfl
  · rfl

/-- A look at a position sees the token there, and past the end the last one. -/
theorem peek_eq_getD (buffer : TokenBuffer) (position : Nat) :
    buffer.peek position = buffer.toList[position]?.getD buffer.final := by
  unfold peek toList
  rcases Nat.lt_trichotomy position buffer.body.size with h | h | h
  · rw [List.getElem?_append_left (by simpa using h), Array.getElem?_toList]
  · subst h
    simp
  · rw [List.getElem?_append_right (by simp; omega), Array.getElem?_eq_none (by omega),
      List.getElem?_eq_none (by simp; omega)]

theorem advance_le (buffer : TokenBuffer) (position : Nat) :
    buffer.advance position ≤ position + 1 := by
  unfold advance
  split <;> omega

theorem le_advance (buffer : TokenBuffer) (position : Nat) :
    position ≤ buffer.advance position := by
  unfold advance
  split <;> omega

/-- Only a token of the end kind is not passed. -/
theorem advance_eq_self_iff (buffer : TokenBuffer) (position : Nat) :
    buffer.advance position = position ↔ buffer.atEnd position = true := by
  unfold advance atEnd
  split <;> simp_all

theorem peek_of_lt {buffer : TokenBuffer} {position : Nat} (h : position < buffer.body.size) :
    buffer.peek position = buffer.body[position] := by
  unfold peek
  rw [Array.getElem?_eq_getElem h, Option.getD_some]

theorem peek_of_le {buffer : TokenBuffer} {position : Nat} (h : buffer.body.size ≤ position) :
    buffer.peek position = buffer.final := by
  unfold peek
  rw [Array.getElem?_eq_none h, Option.getD_none]

theorem peek_mem_toList (buffer : TokenBuffer) (position : Nat) :
    buffer.peek position ∈ buffer.toList := by
  unfold toList
  rcases Nat.lt_or_ge position buffer.body.size with h | h
  · rw [peek_of_lt h]
    exact List.mem_append_left _ (Array.getElem_mem_toList h)
  · rw [peek_of_le h]
    exact List.mem_append_right _ List.mem_cons_self

/-- Every token of a buffer is seen from some position. -/
theorem exists_peek_of_mem_toList {buffer : TokenBuffer} {token : Token}
    (mem : token ∈ buffer.toList) : ∃ position, buffer.peek position = token := by
  obtain ⟨position, found⟩ := List.mem_iff_getElem?.mp mem
  exact ⟨position, by rw [peek_eq_getD, found, Option.getD_some]⟩

/-- Past its tokens a buffer is at its end. -/
theorem atEnd_of_le {buffer : TokenBuffer} {position : Nat} (h : buffer.body.size ≤ position) :
    buffer.atEnd position = true := by
  simp only [atEnd, peek_of_le h, buffer.final_kind, decide_true]

theorem le_endFrom (buffer : TokenBuffer) (position : Nat) : position ≤ buffer.endFrom position :=
  Nat.le_add_right _ _

theorem endFrom_le_size (buffer : TokenBuffer) (position : Nat) :
    buffer.endFrom position ≤ max position buffer.body.size := by
  have : (buffer.body.toList.drop position).findIdx (·.kind = buffer.endKind) ≤
      (buffer.body.toList.drop position).length := List.findIdx_le_length
  simp only [List.length_drop, Array.length_toList] at this
  unfold endFrom
  omega

/-- The first end token from a position on is an end token. -/
theorem atEnd_endFrom (buffer : TokenBuffer) (position : Nat) :
    buffer.atEnd (buffer.endFrom position) = true := by
  by_cases within : buffer.endFrom position < buffer.body.size
  · have inside : (buffer.body.toList.drop position).findIdx (·.kind = buffer.endKind) <
        (buffer.body.toList.drop position).length := by
      simp only [List.length_drop, Array.length_toList]
      unfold endFrom at within
      omega
    have found := @List.findIdx_getElem Token _ _ inside
    simp only [List.getElem_drop, Array.getElem_toList] at found
    rw [atEnd, peek_of_lt within]
    exact found
  · exact atEnd_of_le (Nat.le_of_not_lt within)

/-- No end token stands before the first one. -/
theorem endFrom_le {buffer : TokenBuffer} {position last : Nat} (le : position ≤ last)
    (ended : buffer.atEnd last = true) : buffer.endFrom position ≤ last := by
  refine Nat.le_of_not_lt fun after => ?_
  have within : last < buffer.body.size := by
    have := buffer.endFrom_le_size position
    omega
  have early : last - position <
      (buffer.body.toList.drop position).findIdx fun token => decide (token.kind = buffer.endKind) := by
    unfold endFrom at after
    omega
  have other := List.not_of_lt_findIdx early
  simp only [List.getElem_drop, Array.getElem_toList, Nat.add_sub_cancel' le] at other
  rw [atEnd, peek_of_lt within] at ended
  rw [ended] at other
  exact absurd other (by decide)

/-- A position up to the first end token has the same first end token. -/
theorem endFrom_eq {buffer : TokenBuffer} {position next : Nat} (le : position ≤ next)
    (before : next ≤ buffer.endFrom position) : buffer.endFrom next = buffer.endFrom position :=
  Nat.le_antisymm (endFrom_le before (buffer.atEnd_endFrom position))
    (endFrom_le (Nat.le_trans le (buffer.le_endFrom next)) (buffer.atEnd_endFrom next))

/-- A step forward does not pass the first end token. -/
theorem advance_le_endFrom (buffer : TokenBuffer) (position : Nat) :
    buffer.advance position ≤ buffer.endFrom position := by
  unfold advance
  split
  next => exact buffer.le_endFrom position
  next other =>
    have le := buffer.le_endFrom position
    rcases Nat.eq_or_lt_of_le le with same | less
    · have ended := buffer.atEnd_endFrom position
      rw [← same, atEnd, decide_eq_true_eq] at ended
      exact absurd ended other
    · exact less

/-- A token that ends a list already is not added again. -/
theorem toList_ofTokens_of_ended {tokens : List Token} {last : Token} {endKind : TokenKind}
    (source? : Option Source) (ended : tokens.getLast? = some last) (kind : last.kind = endKind) :
    (ofTokens tokens source? endKind).toList = tokens := by
  obtain ⟨front, rfl⟩ := List.getLast?_eq_some_iff.mp ended
  simp [ofTokens, toList, kind]

/-- A list that does not end in an end token gets one. -/
theorem toList_ofTokens_of_open {tokens : List Token} {endKind : TokenKind}
    (source? : Option Source) (unended : ∀ last ∈ tokens.getLast?, last.kind ≠ endKind) :
    (ofTokens tokens source? endKind).toList =
      tokens ++ [.mark endKind (endPosition tokens source?)] := by
  cases last? : tokens.getLast? with
  | none =>
    obtain rfl := List.getLast?_eq_none_iff.mp last?
    simp [ofTokens, toList]
  | some last => simp [ofTokens, toList, last?, unended last last?]

/-- A buffer has no tokens but those of its list and an end token. -/
theorem mem_or_kind_eq_of_mem_ofTokens {tokens : List Token} {source? : Option Source}
    {endKind : TokenKind} {token : Token} (mem : token ∈ (ofTokens tokens source? endKind).toList) :
    token ∈ tokens ∨ token.kind = endKind := by
  by_cases ended : ∃ last, tokens.getLast? = some last ∧ last.kind = endKind
  · obtain ⟨last, isLast, kind⟩ := ended
    rw [toList_ofTokens_of_ended source? isLast kind] at mem
    exact .inl mem
  · rw [toList_ofTokens_of_open source? fun last isLast kind => ended ⟨last, isLast, kind⟩] at mem
    rcases List.mem_append.mp mem with mem | mem
    · exact .inl mem
    · rw [List.mem_singleton.mp mem]
      exact .inr rfl

end TokenBuffer

/-- Why a stream refuses a call. -/
inductive StreamError where
  | negativeOffset (offset : Int)
  | outside (position : Int)
  deriving DecidableEq, Repr

/-- The wording of a refusal. -/
def StreamError.message : StreamError → String
  | .negativeOffset offset => "peek offset must be non-negative: " ++ toString offset
  | .outside position => toString position

/-- A token buffer with a position. -/
structure TokenStream where
  buffer : TokenBuffer
  position : Nat := 0

namespace TokenStream

/-- The token a number of places ahead. -/
def peek (stream : TokenStream) (offset : Int) : Except StreamError Token :=
  if offset < 0 then .error (.negativeOffset offset)
  else .ok (stream.buffer.peek (stream.position + offset.toNat))

/-- The token at the position, and the stream behind it. -/
def next (stream : TokenStream) : Token × TokenStream :=
  (stream.buffer.peek stream.position,
    { stream with position := stream.buffer.advance stream.position })

/-- The stream at another position. -/
def reset (stream : TokenStream) (position : Int) : Except StreamError TokenStream :=
  if 0 ≤ position ∧ position < stream.buffer.size then
    .ok { stream with position := position.toNat }
  else .error (.outside position)

/-- Whether the stream is at a token of the end kind. -/
def atEnd (stream : TokenStream) : Bool :=
  stream.buffer.atEnd stream.position

/-- The text of a stream that shows its position and the number of its tokens. -/
def shown (stream : TokenStream) : String :=
  "TokenSource(pos=" ++ toString stream.position ++ ", len=" ++ toString stream.buffer.size ++ ")"

end TokenStream

end Grammatic
