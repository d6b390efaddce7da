import Grammatic.Proofs.Evaluation.Units
import Grammatic.Proofs.Language.Recognition

/-!
# Series of units

A text is read unit by unit, each from where the one before it ended. A reader that comes to the end
has read texts of the form, one behind the other (`Reader.derives_of_done`), and it comes to the end of
every series in which one token ahead finds each text (`Reader.done_of_series`). It ends there or in
an error (`Reader.stop_cases`).
-/

namespace Grammatic

variable {α ε : Type} {ν : Type} {language : Language ν} {lead : ν → List TokenKind}

/-- Texts of a form one behind the other, each of which one token ahead finds. -/
inductive Language.Series (language : Language ν) (lead : ν → List TokenKind) (last : TokenKind)
    (form : Form ν) : List (List Token) → Prop
  | nil : Series language lead last form []
  | cons {text : List Token} {texts : List (List Token)}
      (before : Before language lead (ahead texts.flatten last) form text)
      (rest : Series language lead last form texts) :
      Series language lead last form (text :: texts)

namespace Language.Series

variable {last : TokenKind} {form : Form ν} {texts : List (List Token)}

theorem derives (series : Series language lead last form texts) :
    ∀ text ∈ texts, Derives language form text := by
  induction series with
  | nil => simp
  | cons before _ ih =>
    intro text mem
    rcases List.mem_cons.mp mem with rfl | mem
    · exact before.derives
    · exact ih text mem

/-- A series starts with a first kind of the form, unless there is nothing in it. -/
theorem ahead_flatten (solid : ∀ name, (language.rules name).nullable = false)
    (leads : ∀ name, (language.rules name).first lead ⊆ lead name) (some : form.nullable = false)
    (series : Series language lead last form texts) :
    ahead texts.flatten last = last ∨ ahead texts.flatten last ∈ form.first lead := by
  cases series with
  | nil => exact .inl rfl
  | @cons text texts before _ =>
    cases text with
    | nil =>
      rw [before.derives.nullable solid rfl] at some
      cases some
    | cons token rest => exact .inr (before.derives.first solid leads rfl)

end Language.Series

namespace Setting.Reader

variable {setting : Setting α ε} {entry : ν → RuleId} (reader : setting.Reader language entry)
  {root : RuleId} {budget position : Nat}

include reader

theorem evaluate_of_matches {next : Nat} (matched : setting.Matches root position next) :
    ∃ value, setting.evaluate root position = .matched value next := by
  obtain ⟨value, gives⟩ := matched
  exact ⟨value, gives.eq_of_ne (reader.ends root position)⟩

/-- A rule of the store matches or fails. -/
theorem evaluate_cases (valid : root < setting.store.rules.size) (position : Nat) :
    (∃ value next, setting.evaluate root position = .matched value next) ∨
      ∃ failure next, setting.evaluate root position = .failed failure next := by
  rcases reader.decides valid position with ⟨next, matched⟩ | ⟨failure, next, gives⟩
  · obtain ⟨value, evaluated⟩ := reader.evaluate_of_matches matched
    exact .inl ⟨value, next, evaluated⟩
  · exact .inr ⟨failure, next, gives.eq_of_ne (reader.ends root position)⟩

/-- A series of units ends at the end of the text, or in an error. -/
theorem stop_cases (valid : root < setting.store.rules.size)
    (enough : setting.buffer.endFrom position - position < budget) :
    (setting.unitsWithin root budget position).stop = .done ∨
      ∃ error, (setting.unitsWithin root budget position).stop = .error error := by
  rw [(stop_unitsWithin enough).2]
  unfold stopAt
  split
  next => exact .inl rfl
  next =>
    rcases reader.evaluate_cases valid _ with ⟨_, _, evaluated⟩ | ⟨_, _, evaluated⟩
    · exact .inr ⟨_, by rw [evaluated]⟩
    · exact .inr ⟨_, by rw [evaluated]⟩

/-- Units that come to the end of the text are texts of the form. -/
theorem derives_of_done {form : Form ν}
    (realizes : setting.store.Realizes setting.buffer.endKind entry form (.rule root))
    (done : (setting.unitsWithin root budget position).stop = .done) :
    ∃ (texts : List (List Token)) (stop : Nat), (∀ text ∈ texts, Language.Derives language form text) ∧
      setting.buffer.Spans position texts.flatten stop ∧ setting.buffer.atEnd stop = true := by
  induction budget generalizing position with
  | zero => cases done
  | succ budget ih =>
    simp only [unitsWithin] at done
    split at done
    next ended => exact ⟨[], position, by simp, rfl, ended⟩
    next =>
      have valid := reader.realization.lt_size realizes
      rcases reader.evaluate_cases valid position with ⟨value, next, evaluated⟩ | ⟨_, _, evaluated⟩
      · rw [evaluated] at done
        simp only at done
        split at done
        next => cases done
        next =>
          have matched : setting.Matches root position next :=
            ⟨value, gives_of_evaluate evaluated (by simp)⟩
          obtain ⟨text, derives, spans⟩ := reader.derives realizes matched
          obtain ⟨texts, stop, all, spans', ended⟩ := ih done
          refine ⟨text :: texts, stop, ?_, TokenBuffer.spans_append.mpr ⟨next, spans, spans'⟩, ended⟩
          intro other mem
          rcases List.mem_cons.mp mem with rfl | mem
          · exact derives
          · exact all other mem
      · rw [evaluated] at done
        cases done

/-- A series in which one token ahead finds each text is read to the end. -/
theorem done_of_series (solid : ∀ name, (language.rules name).nullable = false)
    (leads : ∀ name, (language.rules name).first lead ⊆ lead name) {form : Form ν}
    (realizes : setting.store.Realizes setting.buffer.endKind entry form (.rule root))
    (some : form.nullable = false) {texts : List (List Token)}
    (series : Language.Series language lead setting.buffer.endKind form texts) {stop : Nat}
    (spans : setting.buffer.Spans position texts.flatten stop)
    (ended : setting.buffer.atEnd stop = true) (enough : stop - position < budget) :
    (setting.unitsWithin root budget position).stop = .done := by
  induction series generalizing position budget with
  | nil =>
    obtain rfl := spans
    obtain ⟨budget, rfl⟩ := Nat.exists_eq_add_of_lt enough
    rw [unitsWithin, if_pos ended]
    rfl
  | @cons text texts before _ ih =>
    obtain ⟨middle, spans, spans'⟩ := TokenBuffer.spans_append.mp spans
    have nonempty : text ≠ [] := by
      intro none
      rw [before.derives.nullable solid none] at some
      cases some
    have length := List.length_pos_iff.mpr nonempty
    have middle_eq := spans.stop_eq
    have stop_eq := spans'.stop_eq
    have inside : setting.buffer.atEnd position = false := by
      obtain ⟨token, rest, rfl⟩ := List.exists_cons_of_ne_nil nonempty
      exact spans.2.1
    have follows : (setting.buffer.peek middle).kind =
        Language.ahead texts.flatten setting.buffer.endKind := by
      rw [spans'.kind_eq, of_decide_eq_true ended]
    have matched : setting.Matches root position middle :=
      reader.matchesAt solid leads before realizes spans follows
    obtain ⟨value, evaluated⟩ := reader.evaluate_of_matches matched
    obtain ⟨budget, rfl⟩ := Nat.exists_eq_add_of_lt (Nat.lt_of_le_of_lt (Nat.zero_le _) enough)
    have progress : middle ≠ position := by omega
    have fewer : stop - middle < 0 + budget := by omega
    rw [unitsWithin, if_neg (by rw [inside]; exact Bool.false_ne_true), evaluated]
    simp only
    rw [if_neg progress]
    exact ih spans' fewer

end Setting.Reader

end Grammatic
