import Grammatic.Proofs.Evaluation.Position
import Grammatic.Proofs.Evaluation.Simulation

/-!
# The tokens that an evaluation depends on

An evaluation looks ahead without bound, and its failures and marks are absolute positions. Still it
depends on a segment only: the tokens from its start up to the first end token, which is never passed.
Over another buffer that has the same segment somewhere, it gives the same at the same distance from
the start (`evaluation_depends_on_segment`).

The two evaluations are side by side at positions at the same distance from their starts, and not
behind the first end token. That is kept where a token is passed, since at the end none is.
-/

namespace Grammatic

variable {α ε : Type}

namespace TokenBuffer

/-- The tokens from a position up to the first end token, which is the last of them. -/
def segment (buffer : TokenBuffer) (position : Nat) : List Token :=
  (List.range' position (buffer.endFrom position + 1 - position)).map buffer.peek

@[simp] theorem length_segment (buffer : TokenBuffer) (position : Nat) :
    (buffer.segment position).length = buffer.endFrom position + 1 - position := by
  simp [segment]

theorem getElem?_segment {buffer : TokenBuffer} {start distance : Nat}
    (within : start + distance ≤ buffer.endFrom start) :
    (buffer.segment start)[distance]? = some (buffer.peek (start + distance)) := by
  have less : distance < buffer.endFrom start + 1 - start := by omega
  simp [segment, List.getElem?_range' less]

/-- Two positions at the same distance from two starts, of which the first is not behind the first end
token. -/
def Aligned (buffer : TokenBuffer) (start start' position position' : Nat) : Prop :=
  position ≤ buffer.endFrom start ∧
    ∃ distance, position = start + distance ∧ position' = start' + distance

/-- Buffers with the same segments show the same tokens at the same distances. -/
theorem parallel_of_segment {buffer buffer' : TokenBuffer} {start start' : Nat}
    (kinds : buffer.endKind = buffer'.endKind)
    (same : buffer.segment start = buffer'.segment start') :
    buffer.Parallel (buffer.Aligned start start') buffer' := by
  have peeks {position position' : Nat} (aligned : buffer.Aligned start start' position position') :
      buffer.peek position = buffer'.peek position' := by
    obtain ⟨within, distance, rfl, rfl⟩ := aligned
    have lengths := congrArg List.length same
    simp only [length_segment] at lengths
    have le := buffer'.le_endFrom start'
    have within' : start' + distance ≤ buffer'.endFrom start' := by omega
    exact Option.some.inj <| calc
      some (buffer.peek (start + distance)) = (buffer.segment start)[distance]? :=
        (getElem?_segment within).symm
      _ = (buffer'.segment start')[distance]? := by rw [same]
      _ = some (buffer'.peek (start' + distance)) := getElem?_segment within'
  refine ⟨peeks, ?_, ?_⟩
  · intro position position' aligned
    have token := peeks aligned
    obtain ⟨within, distance, from_, from'⟩ := aligned
    have reaches : buffer.Reaches start position := ⟨by omega, within⟩
    have before := (reaches.trans (.advance buffer position)).2
    refine ⟨before, ?_⟩
    unfold advance
    rw [← token, ← kinds]
    split
    next => exact ⟨distance, from_, from'⟩
    next => exact ⟨distance + 1, by omega, by omega⟩
  · rintro _ _ _ _ ⟨_, distance, rfl, rfl⟩ ⟨_, distance', rfl, rfl⟩
    omega

end TokenBuffer

namespace Outcome

/-- An outcome with all its positions moved forward. -/
def shift (offset : Nat) : Outcome α ε → Outcome α ε
  | .matched value next => .matched value (offset + next)
  | .failed failure next =>
    .failed { failure with position := offset + failure.position } (offset + next)
  | .fault cause next => .fault cause (offset + next)
  | .exhausted => .exhausted

theorem shift_injective {offset : Nat} {outcome outcome' : Outcome α ε}
    (same : outcome.shift offset = outcome'.shift offset) : outcome = outcome' := by
  cases outcome with
  | failed failure _ =>
    cases outcome' with
    | failed failure' _ =>
      cases failure
      cases failure'
      simp_all [shift]
    | matched _ _ | fault _ _ | exhausted => exact nomatch same
  | matched _ _ | fault _ _ | exhausted => cases outcome' <;> simp_all [shift]

/-- Outcomes at the same distance from two starts are one outcome, moved to both. -/
theorem Alike.exists_shift {buffer : TokenBuffer} {start start' : Nat} {outcome outcome' : Outcome α ε}
    (alike : outcome.Alike (· = ·) (· = ·) (buffer.Aligned start start') outcome') :
    ∃ relative : Outcome α ε, outcome = relative.shift start ∧ outcome' = relative.shift start' := by
  cases alike with
  | matched values positions =>
    obtain ⟨_, distance, rfl, rfl⟩ := positions
    exact ⟨.matched _ distance, rfl, by rw [← values]; rfl⟩
  | @failed failure failure' _ _ failures positions =>
    obtain ⟨_, distance, rfl, rfl⟩ := positions
    obtain ⟨⟨_, distance', place, place'⟩, token, expected⟩ := failures
    refine ⟨.failed { failure with position := distance' } distance, ?_, ?_⟩
    · rw [shift, ← place]
    · rw [shift, ← place', token, expected]
  | fault positions =>
    obtain ⟨_, distance, rfl, rfl⟩ := positions
    exact ⟨.fault _ distance, rfl, rfl⟩
  | exhausted => exact ⟨.exhausted, rfl, rfl⟩

end Outcome

/-- Where two buffers with one end kind have the same segments, every rule gives the same outcome but
for the positions, which are at the same distance from the starts. -/
theorem evaluation_depends_on_segment {store : Store} {grammar : Grammar} {factory : Factory α ε}
    {buffer buffer' : TokenBuffer} {start start' : Nat} (kinds : buffer.endKind = buffer'.endKind)
    (same : buffer.segment start = buffer'.segment start') (id : RuleId) :
    let setting : Setting α ε := ⟨store, grammar, factory, buffer⟩
    let setting' : Setting α ε := ⟨store, grammar, factory, buffer'⟩
    (setting.Ends id start ↔ setting'.Ends id start') ∧
      (∀ outcome, setting.Gives id start outcome →
        ∃ relative : Outcome α ε, outcome = relative.shift start) ∧
      ∀ relative : Outcome α ε, setting.Gives id start (relative.shift start) ↔
        setting'.Gives id start' (relative.shift start') := by
  intro setting setting'
  have sim : setting.Simulates setting' (fun _ => True) (· = ·) (buffer.Aligned start start') :=
    Setting.simulates_of_store (.refl factory) (TokenBuffer.parallel_of_segment kinds same)
  have starts : buffer.Aligned start start' start start' := ⟨buffer.le_endFrom start, 0, rfl, rfl⟩
  refine ⟨sim.ends_iff trivial starts, ?_, fun relative => ⟨?_, ?_⟩⟩
  · intro outcome given
    obtain ⟨_, _, alike⟩ := sim.gives trivial starts given
    obtain ⟨relative, same, _⟩ := alike.exists_shift
    exact ⟨relative, same⟩
  · intro given
    obtain ⟨_, given', alike⟩ := sim.gives trivial starts given
    obtain ⟨other, same, rfl⟩ := alike.exists_shift
    rwa [Outcome.shift_injective same]
  · intro given
    obtain ⟨_, given', alike⟩ := sim.gives' trivial starts given
    obtain ⟨other, rfl, same⟩ := alike.exists_shift
    rwa [Outcome.shift_injective same]

/-- Three delimiters fail at the end of the text, whatever stands before their start and behind the
end token. -/
theorem threeDelimiters_depends_on_segment :
    let buffer : TokenBuffer :=
      .ofTokens [.mark "c" 7, .mark "a" 0, .mark "b" 0, .mark "end_of_text" 0, .mark "c" 0]
    let buffer' : TokenBuffer := .ofTokens [.mark "a" 0, .mark "b" 0]
    let grammar : Grammar := { words := .within "", table := 0 }
    let setting : Setting Value Unit := ⟨threeDelimiters, grammar, .nothing, buffer⟩
    let setting' : Setting Value Unit := ⟨threeDelimiters, grammar, .nothing, buffer'⟩
    let outcome : Nat → Outcome Value Unit := fun start =>
      .failed ⟨start + 2, .mark "end_of_text" 0, ⟨["c"], by decide⟩⟩ start
    buffer.endKind = buffer'.endKind ∧ buffer.segment 1 = buffer'.segment 0 ∧
      setting'.Gives 0 0 (outcome 0) ∧ setting.Gives 0 1 (outcome 1) := by
  intro buffer buffer' grammar setting setting' outcome
  have kinds : buffer.endKind = buffer'.endKind := rfl
  have same : buffer.segment 1 = buffer'.segment 0 := by decide
  have given : setting'.Gives 0 0 (outcome 0) := ⟨nofun, 2, by rfl⟩
  exact ⟨kinds, same, given,
    ((evaluation_depends_on_segment kinds same 0).2.2
      (.failed ⟨2, .mark "end_of_text" 0, ⟨["c"], by decide⟩⟩ 0)).mpr given⟩

end Grammatic
