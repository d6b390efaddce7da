import Grammatic.Factories
import Grammatic.Proofs.Evaluation.Steps
import Grammatic.Proofs.Evaluation.Termination
import Grammatic.Proofs.Evaluation.Units

/-!
# Repetitions and series of units

A repetition of a rule and a series of units of it are two loops, which treat three things differently.
A repetition keeps an element that consumes nothing, and a series reports it. A repetition ends with the
failure of its rule, and a series reports that too. And a series looks for the end of the tokens before
it evaluates its rule, where a repetition evaluates it there as well.

`Listed` is what a repetition finds on its way, one step at a time. It is read off the one loop
(`repetition_listed`) and it has the course of the other (`Listed.course`), so that the two agree
(`units_of_repetition`). A rule goes nowhere at the end of the tokens, so each element that consumes a
token starts before it, where the series does not stop.
-/

namespace Grammatic

variable {α ε : Type}

namespace Units

/-- Each element ends behind the place where it starts. -/
def EachConsumes (start : Nat) (elements : List (α × Nat)) : Prop :=
  EachFrom (fun position _ next => position < next) start elements

end Units

namespace Setting

variable {setting : Setting α ε} {root : RuleId}

/-- The elements that a repetition finds, each with the position behind it: its rule matches and goes
forward, up to a failure or to a match that consumes nothing. -/
inductive Listed (setting : Setting α ε) (root : RuleId) : Nat → List (α × Nat) → Nat → Prop
  | failed {position : Nat} {failure : Failure}
      (gives : setting.Gives root position (.failed failure position)) :
      Listed setting root position [] position
  | idle {position : Nat} {value : α} (gives : setting.Gives root position (.matched value position)) :
      Listed setting root position [(value, position)] position
  | element {position next stop : Nat} {value : α} {elements : List (α × Nat)}
      (gives : setting.Gives root position (.matched value next)) (progress : position < next)
      (more : Listed setting root next elements stop) :
      Listed setting root position ((value, next) :: elements) stop

/-! ## The loop of a repetition -/

/-- A repetition that matches lists what its rule has matched, behind the elements it had. -/
theorem repetition_listed {budget rounds position stop : Nat} {earlier : List α} {value : α}
    (evaluated : setting.repetition (setting.evaluateWithin budget root) rounds earlier position =
      .matched value stop) :
    ∃ elements, Listed setting root position elements stop ∧
      value = setting.factory.list (earlier.reverse ++ elements.map (·.1)) := by
  induction rounds generalizing earlier position with
  | zero => cases evaluated
  | succ rounds ih =>
    simp only [repetition] at evaluated
    cases outcome : setting.evaluateWithin budget root position with
    | matched first next =>
      have gives := gives_of_evaluateWithin outcome (by simp)
      simp only [outcome] at evaluated
      split at evaluated
      next same =>
        subst same
        obtain ⟨rfl, rfl⟩ := Outcome.matched.inj evaluated
        exact ⟨[(first, next)], .idle gives, by simp⟩
      next progress =>
        have reaches : setting.buffer.Reaches position next := gives.keeps
        obtain ⟨elements, listed, rfl⟩ := ih evaluated
        refine ⟨(first, next) :: elements, .element gives ?_ listed, by simp⟩
        exact Nat.lt_of_le_of_ne reaches.1 (Ne.symm progress)
    | failed failure next =>
      have gives := gives_of_evaluateWithin outcome (by simp)
      obtain rfl : next = position := gives.keeps
      rw [outcome] at evaluated
      obtain ⟨rfl, rfl⟩ := Outcome.matched.inj evaluated
      exact ⟨[], .failed gives, by simp⟩
    | fault _ _ | exhausted =>
      rw [outcome] at evaluated
      cases evaluated

/-- The elements of a repetition are matches of its rule, one behind the other. -/
theorem Listed.gives {position stop : Nat} {elements : List (α × Nat)}
    (listed : Listed setting root position elements stop) :
    Units.EachFrom (fun position element next => setting.Gives root position (.matched element next))
      position elements := by
  induction listed with
  | failed => trivial
  | idle gives => exact ⟨gives, trivial⟩
  | element gives _ _ ih => exact ⟨gives, ih⟩

/-! ## The loop of a series -/

/-- Nothing goes forward from the end of the tokens. -/
theorem atEnd_eq_false_of_progress {position next : Nat} {value : α}
    (gives : setting.Gives root position (.matched value next)) (progress : position < next) :
    setting.buffer.atEnd position = false := by
  by_contra ended
  have reaches : setting.buffer.Reaches position next := gives.keeps
  have stays := TokenBuffer.endFrom_le (Nat.le_refl position) (eq_true_of_ne_false ended)
  have := reaches.2
  omega

/-- At the place where a series can go no further it stops, for the end of the tokens or for the reason
that it has. -/
theorem course_of_reason {position : Nat} {error : ParseError}
    (reason : setting.buffer.atEnd position = false →
      Course setting root position (.ended (.error error) position)) :
    Course setting root position
      (.ended (if setting.buffer.atEnd position then .done else .error error) position) := by
  cases ended : setting.buffer.atEnd position with
  | true => exact .done ended
  | false => exact reason ended

/-- How a series of units compares with the elements that a repetition lists. If each element consumes a
token, all are units, and the rule fails behind them. Otherwise all but the last are units, and the last
consumes nothing. The series ends where the repetition does: at the end of the tokens, or with an error
that reports the failure, or that it goes no further. -/
inductive Agreeing (setting : Setting α ε) (root : RuleId) (start stop : Nat) :
    List (α × Nat) → Units α ε → Prop
  | consumed {elements : List (α × Nat)} {failure : Failure}
      (consumes : Units.EachConsumes start elements)
      (fails : setting.Gives root stop (.failed failure stop)) :
      Agreeing setting root start stop elements
        ⟨elements, if setting.buffer.atEnd stop then .done
          else .error (.ofFailure setting.buffer failure), stop⟩
  | idled (earlier : List (α × Nat)) {last : α} (consumes : Units.EachConsumes start earlier)
      (idle : setting.Gives root stop (.matched last stop)) :
      Agreeing setting root start stop (earlier ++ [(last, stop)])
        ⟨earlier, if setting.buffer.atEnd stop then .done
          else .error (.noProgress setting.buffer stop), stop⟩

/-- One more element in front is one more unit. -/
theorem Agreeing.cons {position next stop : Nat} {value : α} {elements : List (α × Nat)}
    {units : Units α ε} (agreeing : Agreeing setting root next stop elements units)
    (progress : position < next) :
    Agreeing setting root position stop ((value, next) :: elements) (.cons value next units) := by
  cases agreeing with
  | consumed consumes fails => exact .consumed ⟨progress, consumes⟩ fails
  | idled earlier consumes idle => exact .idled ((value, next) :: earlier) ⟨progress, consumes⟩ idle

/-- A series of the rule of a repetition has a course that agrees with the elements of the repetition, and
comes to the place where it ends. -/
theorem Listed.course (total : setting.factory.Total) {position stop : Nat}
    {elements : List (α × Nat)} (listed : Listed setting root position elements stop) :
    ∃ units, Course setting root position units ∧ units.behind position = stop ∧
      Agreeing setting root position stop elements units := by
  induction listed with
  | failed gives =>
    have course := course_of_reason fun inside => .failed inside (gives.evaluate_eq total)
    exact ⟨_, course, rfl, .consumed trivial gives⟩
  | idle gives =>
    have course := course_of_reason fun inside => .idle inside (gives.evaluate_eq total)
    exact ⟨_, course, rfl, .idled [] trivial gives⟩
  | @element position next stop value elements gives progress _ ih =>
    obtain ⟨units, course, behind, agreeing⟩ := ih
    have inside := atEnd_eq_false_of_progress gives progress
    have evaluated := gives.evaluate_eq total
    refine ⟨.cons value next units, .unit inside evaluated (Nat.ne_of_gt progress) course, ?_, ?_⟩
    · rw [Units.behind_cons, behind]
    · exact agreeing.cons progress

/-! ## The two loops agree -/

/-- A repetition of a rule that matches has for its value the list of some elements, which are matches of
the rule one behind the other. A series of units of the rule from the same position agrees with them, and
its last unit ends where the repetition does. -/
theorem units_of_repetition {repetition : RuleId} {rule : Rule} {rest : List RuleId}
    {start stop : Nat} {value : α} (total : setting.factory.Total)
    (found : setting.store.rules[repetition]? = some rule) (kind : rule.kind = .repetition)
    (children : rule.children = root :: rest)
    (gives : setting.Gives repetition start (.matched value stop)) :
    ∃ elements : List (α × Nat), value = setting.factory.list (elements.map (·.1)) ∧
      Units.EachFrom (fun position element next =>
        setting.Gives root position (.matched element next)) start elements ∧
      Agreeing setting root start stop elements (setting.units root start) ∧
      (setting.units root start).behind start = stop := by
  obtain ⟨budget, evaluated⟩ := gives.exists_evaluateRule found
  rw [evaluateRule_repetition kind children] at evaluated
  obtain ⟨elements, listed, rfl⟩ := repetition_listed evaluated
  obtain ⟨units, course, behind, agreeing⟩ := listed.course total
  obtain rfl := course.units_eq
  exact ⟨elements, rfl, listed.gives, agreeing, behind⟩

end Setting

/-- Names, each of which may be left out. -/
def optionalNames : Store where
  rules := #[
    { kind := .repetition, children := [1] },
    { kind := .optional, children := [2] },
    { kind := .terminal, tag := some "name", kinds := .ofList ["name"], literal := some .name }]
  closed := by decide

/-- Two names before a plus are repeated with a third that is left out. A series of units stops behind the
two, since the third consumes nothing. -/
theorem optionalNames_units :
    let setting : Setting Value Unit :=
      ⟨optionalNames, ⟨.within "", 0, "end_of_text", none⟩, .nodes, .ofTokens [.ofText "name" "a" 0,
        .ofText "name" "b" 1, .mark "plus" 2]⟩
    let name (text : String) : Value := .node (some "name") [.text text]
    setting.Gives 0 0 (.matched (.list [name "a", name "b", .absent]) 2) ∧
      (∃ elements : List (Value × Nat),
        .list [name "a", name "b", .absent] = Value.list (elements.map (·.1)) ∧
        Units.EachFrom (fun position element next =>
          setting.Gives 1 position (.matched element next)) 0 elements ∧
        setting.Agreeing 1 0 2 elements (setting.units 1 0) ∧ (setting.units 1 0).behind 0 = 2) ∧
      setting.units 1 0 =
        ⟨[(name "a", 1), (name "b", 2)], .error (.noProgress setting.buffer 2), 2⟩ := by
  intro setting name
  have total : setting.factory.Total := fun _ _ => ⟨_, rfl⟩
  have gives : setting.Gives 0 0 (.matched (.list [name "a", name "b", .absent]) 2) :=
    ⟨nofun, 4, by rfl⟩
  exact ⟨gives, Setting.units_of_repetition total rfl rfl rfl gives, by rfl⟩

end Grammatic
