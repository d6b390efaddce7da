import Grammatic.Proofs.Token.Spans

/-!
# Histories of a token stream

A stream is looked at, read, marked and reset, in any order, and some calls are refused. Whatever its history, its
buffer stays what it was made of, and its position is that of a token of the buffer (`WithinBuffer`), so the last
token is never passed. A call that is refused changes nothing (`respond_of_error`), and a reset to a mark brings back
the stream as it was (`respond_reset`).

A look ahead is cut at the end of the buffer, while reading stops at a kind. Both come to the same token where the
last token is the only one of that kind (`after_nexts`, `next_after_nexts`), and this is all that is needed for a look
ahead to tell what will be read.
-/

namespace Grammatic.TokenStream

open TokenBuffer

/-! ## Calls -/

/-- A call on a stream. -/
inductive Call where
  | peek (offset : Int)
  | next
  | mark
  | reset (position : Int)

/-- What a stream answers to a call that it does not refuse. -/
inductive Reply where
  | token (token : Token)
  | position (position : Nat)
  | done

/-- The answer of a stream to a call, and the stream behind it. -/
def respond (stream : TokenStream) : Call → Except StreamError Reply × TokenStream
  | .peek offset => ((stream.peek offset).map .token, stream)
  | .next => (.ok (.token stream.next.1), stream.next.2)
  | .mark => (.ok (.position stream.position), stream)
  | .reset position =>
    match stream.reset position with
    | .ok moved => (.ok .done, moved)
    | .error e => (.error e, stream)

/-- The stream behind a history of calls, those that it refused included. -/
def after (stream : TokenStream) (calls : List Call) : TokenStream :=
  calls.foldl (fun stream call => (stream.respond call).2) stream

/-- The answers to a history of calls. -/
def replies (stream : TokenStream) : List Call → List (Except StreamError Reply)
  | [] => []
  | call :: calls => (stream.respond call).1 :: (stream.respond call).2.replies calls

variable {buffer : TokenBuffer} {stream : TokenStream} {call : Call}

/-! ## Positions -/

/-- A stream is at a token of a buffer. -/
structure WithinBuffer (buffer : TokenBuffer) (stream : TokenStream) : Prop where
  isBuffer : stream.buffer = buffer
  lt_size : stream.position < buffer.size

/-- A call that is refused leaves the stream as it is. -/
theorem respond_of_error {e : StreamError} (refused : (stream.respond call).1 = .error e) :
    (stream.respond call).2 = stream := by
  cases call with
  | peek | mark => rfl
  | next => cases refused
  | reset position =>
    unfold respond at refused ⊢
    cases moved : stream.reset position with
    | ok moved' =>
      simp only [moved] at refused
      cases refused
    | error e => simp only [moved]

/-- A reset to a position of the buffer is not refused. -/
theorem respond_reset (within : WithinBuffer buffer stream) {position : Nat} (lt : position < buffer.size) :
    stream.respond (.reset position) = (.ok .done, ⟨buffer, position⟩) := by
  obtain ⟨rfl, -⟩ := within
  have inside : 0 ≤ (position : Int) ∧ (position : Int) < stream.buffer.size :=
    ⟨Int.natCast_nonneg _, Int.ofNat_lt.mpr lt⟩
  have moved : stream.reset position = .ok ⟨stream.buffer, position⟩ := by
    rw [reset, if_pos inside, Int.toNat_natCast]
  rw [respond, moved]

/-- Before the last token a read goes on to the next token, and at the last one it stays, for that has the end
kind. -/
theorem advance_lt_size {position : Nat} (lt : position < buffer.size) : buffer.advance position < buffer.size := by
  rcases Nat.lt_or_ge position buffer.body.size with before | last
  · have := buffer.advance_le position
    unfold size
    omega
  · have ended := atEnd_of_le last
    rwa [(buffer.advance_eq_self_iff position).mpr ended]

theorem WithinBuffer.respond (within : WithinBuffer buffer stream) (call : Call) :
    WithinBuffer buffer (stream.respond call).2 := by
  cases call with
  | peek | mark => exact within
  | next =>
    obtain ⟨rfl, lt⟩ := within
    exact ⟨rfl, advance_lt_size lt⟩
  | reset position =>
    unfold TokenStream.respond TokenStream.reset
    by_cases inside : 0 ≤ position ∧ position < stream.buffer.size
    · simp only [if_pos inside]
      refine ⟨within.isBuffer, ?_⟩
      have := within.isBuffer
      show position.toNat < buffer.size
      rw [← this]
      omega
    · simp only [if_neg inside]
      exact within

theorem WithinBuffer.after (within : WithinBuffer buffer stream) (calls : List Call) :
    WithinBuffer buffer (stream.after calls) := by
  induction calls generalizing stream with
  | nil => exact within
  | cons call calls ih => exact ih (within.respond call)

/-! ## Reading on -/

/-- Where only the last token has the end kind, a number of reads comes that number of tokens further, but not behind
the last. -/
theorem after_nexts (within : WithinBuffer buffer stream)
    (once : ∀ token ∈ buffer.body.toList, token.kind ≠ buffer.endKind) (count : Nat) :
    stream.after (List.replicate count .next) = ⟨buffer, min (stream.position + count) buffer.body.size⟩ := by
  induction count generalizing stream with
  | zero =>
    obtain ⟨rfl, lt⟩ := within
    have le : stream.position ≤ stream.buffer.body.size := Nat.le_of_lt_succ lt
    rw [Nat.add_zero, Nat.min_eq_left le]
    rfl
  | succ count ih =>
    show (stream.respond .next).2.after (List.replicate count .next) = _
    rw [ih (within.respond .next)]
    obtain ⟨rfl, lt⟩ := within
    show TokenStream.mk _ (min (stream.buffer.advance stream.position + count) _) = _
    rcases Nat.lt_or_ge stream.position stream.buffer.body.size with before | last
    · have inside : stream.buffer.atEnd stream.position = false := by
        apply decide_eq_false
        rw [peek_of_lt before]
        exact once _ (Array.getElem_mem_toList before)
      rw [advance_of_not_atEnd inside, Nat.add_right_comm, Nat.add_assoc]
    · -- at the last token neither side goes on
      rw [(stream.buffer.advance_eq_self_iff _).mpr (atEnd_of_le last), Nat.min_eq_right (by omega),
        Nat.min_eq_right (by omega)]

/-- A look past the last token sees the last token. -/
theorem peek_min (buffer : TokenBuffer) (position : Nat) :
    buffer.peek (min position buffer.body.size) = buffer.peek position := by
  rcases Nat.le_total position buffer.body.size with le | ge
  · rw [Nat.min_eq_left le]
  · rw [Nat.min_eq_right ge, peek_of_le ge, peek_of_le (Nat.le_refl _)]

/-- The answer to a read behind a number of calls. -/
theorem getElem?_replies_nexts (stream : TokenStream) {count n : Nat} (lt : n < count) :
    (stream.replies (List.replicate count .next))[n]? =
      some (.ok (.token ((stream.after (List.replicate n .next)).next).1)) := by
  induction n generalizing stream count with
  | zero =>
    cases count with
    | zero => exact absurd lt (Nat.lt_irrefl 0)
    | succ count => rfl
  | succ n ih =>
    cases count with
    | zero => exact absurd lt (Nat.not_lt_zero _)
    | succ count =>
      rw [List.replicate_succ, List.replicate_succ]
      exact ih (stream.respond .next).2 (Nat.lt_of_succ_lt_succ lt)

/-- A look ahead sees the token that as many reads and one more would come to, where only the last token has the end
kind. -/
theorem next_after_nexts (within : WithinBuffer buffer stream)
    (once : ∀ token ∈ buffer.body.toList, token.kind ≠ buffer.endKind) (n : Nat) :
    (stream.after (List.replicate n .next)).next.1 = buffer.peek (stream.position + n) := by
  rw [after_nexts within once]
  exact peek_min buffer (stream.position + n)

theorem dropLast_toList (buffer : TokenBuffer) : buffer.toList.dropLast = buffer.body.toList :=
  List.dropLast_concat

/-- Behind any history of calls, those that are refused included, a stream has the tokens that it was made of and an
end token, which is added exactly if they do not end in one. It is at one of its tokens. A call that it refuses leaves
it as it is, and a mark that it gives brings it back, however it was used in between: the reset is not refused, and
each later history gets the answers that it would have got at the mark. Where only the last token has the end kind, a
look `n` tokens ahead answers what read `n + 1` in a row would answer. -/
theorem history_keeps_stream (tokens : List Token) (source? : Option Source) (endKind : TokenKind)
    (history : List Call) :
    let buffer := TokenBuffer.ofTokens tokens source? endKind
    let stream := (TokenStream.mk buffer 0).after history
    ((∃ last, tokens.getLast? = some last ∧ last.kind = endKind) ∧ buffer.toList = tokens ∨
        (¬ ∃ last, tokens.getLast? = some last ∧ last.kind = endKind) ∧
          buffer.toList = tokens ++ [.mark endKind (endPosition tokens source?)]) ∧
      stream.buffer = buffer ∧
      stream.position < buffer.toList.length ∧
      (∀ call e, (stream.respond call).1 = .error e → (stream.respond call).2 = stream) ∧
      (∃ mark : Nat, stream.respond .mark = (.ok (.position mark), stream) ∧ ∀ between,
        (stream.after between).respond (.reset mark) = (.ok .done, stream) ∧
          ∀ later, (stream.after between).replies (.reset mark :: later) = .ok .done :: stream.replies later) ∧
      ((∀ token ∈ buffer.toList.dropLast, token.kind ≠ endKind) → ∀ n : Nat, ∃ token,
        stream.respond (.peek n) = (.ok (.token token), stream) ∧
          (stream.replies (List.replicate (n + 1) .next))[n]? = some (.ok (.token token))) := by
  intro buffer stream
  have started : WithinBuffer buffer ⟨buffer, 0⟩ := ⟨rfl, Nat.succ_pos _⟩
  have within : WithinBuffer buffer stream := started.after history
  refine ⟨?_, within.isBuffer, ?_, fun _ _ refused => respond_of_error refused,
    ⟨stream.position, rfl, fun between => ?_⟩, fun once n => ?_⟩
  · by_cases ended : ∃ last, tokens.getLast? = some last ∧ last.kind = endKind
    · obtain ⟨last, isLast, kind⟩ := ended
      exact .inl ⟨⟨last, isLast, kind⟩, toList_ofTokens_of_ended source? isLast kind⟩
    · have unended : ∀ last ∈ tokens.getLast?, last.kind ≠ endKind :=
        fun last isLast kind => ended ⟨last, isLast, kind⟩
      exact .inr ⟨ended, toList_ofTokens_of_open source? unended⟩
  · rw [length_toList]
    exact within.lt_size
  · have back : (stream.after between).respond (.reset stream.position) = (.ok .done, stream) := by
      rw [respond_reset (within.after between) within.lt_size, ← within.isBuffer]
    refine ⟨back, fun later => ?_⟩
    rw [replies, back]
  · have alone : ∀ token ∈ buffer.body.toList, token.kind ≠ buffer.endKind := by
      rw [← dropLast_toList, endKind_ofTokens]
      exact once
    have seen : stream.peek n = .ok (buffer.peek (stream.position + n)) := by
      rw [peek, if_neg (Int.not_lt.mpr (Int.natCast_nonneg n)), within.isBuffer, Int.toNat_natCast]
    refine ⟨buffer.peek (stream.position + n), ?_, ?_⟩
    · rw [respond, seen]
      rfl
    · rw [getElem?_replies_nexts stream (Nat.lt_succ_self n), next_after_nexts within alone]

/-- Two tokens are read and two calls are refused in between. The stream is at the end token then, a reset to a place
behind it is refused as well, and a look ahead from the first token sees what is read later. -/
theorem refusals_keep_stream :
    let buffer := TokenBuffer.ofTokens [.ofText "name" "x" 0, .ofText "comma" "," 1]
    let first := (TokenStream.mk buffer 0).after [.next, .peek (-1), .reset 7, .next, .next, .reset 0]
    let last := (TokenStream.mk buffer 0).after [.next, .peek (-1), .reset 7, .next, .next]
    (first.position = 0 ∧ last.position = 2 ∧ last.position < buffer.toList.length) ∧
      ((last.respond (.reset 3)).1 = .error (.outside 3) ∧ (last.respond (.reset 3)).2 = last) ∧
      (∀ token ∈ buffer.toList.dropLast, token.kind ≠ "end_of_text") ∧
      ∃ token, first.respond (.peek 2) = (.ok (.token token), first) ∧
        (first.replies [.next, .next, .next])[2]? = some (.ok (.token token)) := by
  intro buffer first last
  have refused : (last.respond (.reset 3)).1 = .error (.outside 3) := rfl
  have once : ∀ token ∈ buffer.toList.dropLast, token.kind ≠ "end_of_text" := by decide
  obtain ⟨-, -, inside, unmoved, -, -⟩ := history_keeps_stream [.ofText "name" "x" 0, .ofText "comma" "," 1] none
    "end_of_text" [.next, .peek (-1), .reset 7, .next, .next]
  obtain ⟨-, -, -, -, -, looks⟩ := history_keeps_stream [.ofText "name" "x" 0, .ofText "comma" "," 1] none
    "end_of_text" [.next, .peek (-1), .reset 7, .next, .next, .reset 0]
  exact ⟨⟨rfl, rfl, inside⟩, ⟨refused, unmoved _ _ refused⟩, once, looks once 2⟩

end Grammatic.TokenStream
