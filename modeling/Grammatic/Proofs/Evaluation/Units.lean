import Grammatic.Evaluation.Units
import Grammatic.Proofs.Evaluation.Position

/-!
# How a series of units stops

A series of units goes on as long as the root rule matches and consumes something. How it stops is
decided at the position behind its last unit, by the token there and by what the root rule gives there
(`stop_unitsWithin`). The rounds suffice for that, since each unit goes forward and none passes the
first end token.

`Course` is the series without the number of its rounds: what it yields and how it stops, by steps. Every
series has its course (`course_units`), and no other (`Course.units_eq`).
-/

namespace Grammatic

variable {α ε : Type}

namespace Units

/-- The position behind the last unit of a series that starts at a position. -/
def behind (units : Units α ε) (start : Nat) : Nat :=
  (units.values.getLast?.map (·.2)).getD start

theorem behind_cons (value : α) (next : Nat) (units : Units α ε) (start : Nat) :
    (units.cons value next).behind start = units.behind next := by
  simp only [behind, cons, List.getLast?_cons]
  cases units.values.getLast? <;> rfl

/-- A statement about each unit of a series: where it starts, its value, and where it ends. -/
def EachFrom (holds : Nat → α → Nat → Prop) : Nat → List (α × Nat) → Prop
  | _, [] => True
  | start, (value, next) :: rest => holds start value next ∧ EachFrom holds next rest

/-- What is said of each unit holds of any of them. -/
theorem EachFrom.exists_start {holds : Nat → α → Nat → Prop} {start : Nat} {values : List (α × Nat)}
    (each : EachFrom holds start values) {unit : α × Nat} (mem : unit ∈ values) :
    ∃ position, holds position unit.1 unit.2 := by
  induction values generalizing start with
  | nil => exact nomatch mem
  | cons first rest ih =>
    obtain ⟨holdsFirst, each⟩ := each
    rcases List.mem_cons.mp mem with rfl | mem
    · exact ⟨start, holdsFirst⟩
    · exact ih each mem

end Units

namespace Setting

variable {setting : Setting α ε} {root : RuleId}

/-! ## The course of a series -/

/-- The course of a series of units from a position on: units that go forward, up to where the tokens end, or
where the root does something else than to match and go forward. -/
inductive Course (setting : Setting α ε) (root : RuleId) : Nat → Units α ε → Prop
  | done {position : Nat} (ended : setting.buffer.atEnd position = true) :
      Course setting root position (.ended .done position)
  | idle {position : Nat} {value : α} (inside : setting.buffer.atEnd position = false)
      (evaluated : setting.evaluate root position = .matched value position) :
      Course setting root position (.ended (.error (.noProgress setting.buffer position)) position)
  | failed {position next : Nat} {failure : Failure} (inside : setting.buffer.atEnd position = false)
      (evaluated : setting.evaluate root position = .failed failure next) :
      Course setting root position (.ended (.error (.ofFailure setting.buffer failure)) next)
  | fault {position next : Nat} {cause : Fault ε} (inside : setting.buffer.atEnd position = false)
      (evaluated : setting.evaluate root position = .fault cause next) :
      Course setting root position (.ended (.fault cause) next)
  | exhausted {position : Nat} (inside : setting.buffer.atEnd position = false)
      (evaluated : setting.evaluate root position = .exhausted) :
      Course setting root position (.ended .exhausted position)
  | unit {position next : Nat} {value : α} {units : Units α ε}
      (inside : setting.buffer.atEnd position = false)
      (evaluated : setting.evaluate root position = .matched value next) (progress : next ≠ position)
      (more : Course setting root next units) : Course setting root position (.cons value next units)

/-- A unit that goes forward leaves fewer tokens before the first end token. -/
theorem left_lt_of_progress {position next : Nat} {value : α}
    (evaluated : setting.evaluate root position = .matched value next) (progress : next ≠ position) :
    setting.buffer.endFrom next - next < setting.buffer.endFrom position - position := by
  have reaches : setting.buffer.Reaches position next :=
    (gives_of_evaluate evaluated (by simp)).keeps
  obtain ⟨le, before⟩ := reaches
  rw [TokenBuffer.endFrom_eq le before]
  omega

/-- A series with rounds enough runs its course. -/
theorem course_unitsWithin {budget position : Nat}
    (enough : setting.buffer.endFrom position - position < budget) :
    Course setting root position (setting.unitsWithin root budget position) := by
  induction budget generalizing position with
  | zero => omega
  | succ budget ih =>
    simp only [unitsWithin]
    split
    next ended => exact .done ended
    next notEnded =>
      have inside := eq_false_of_ne_true notEnded
      cases evaluated : setting.evaluate root position with
      | matched value next =>
        simp only
        split
        next same =>
          subst same
          exact .idle inside evaluated
        next progress =>
          have fewer := left_lt_of_progress evaluated progress
          exact .unit inside evaluated progress (ih (by omega))
      | failed _ _ => exact .failed inside evaluated
      | fault _ _ => exact .fault inside evaluated
      | exhausted => exact .exhausted inside evaluated

/-- What runs its course is the series, with rounds enough. -/
theorem Course.unitsWithin_eq {position : Nat} {units : Units α ε}
    (course : Course setting root position units) {budget : Nat}
    (enough : setting.buffer.endFrom position - position < budget) :
    setting.unitsWithin root budget position = units := by
  induction course generalizing budget with
  | done ended =>
    obtain ⟨budget, rfl⟩ := Nat.exists_eq_add_of_lt enough
    simp only [unitsWithin, ended, if_true]
  | idle inside evaluated | failed inside evaluated | fault inside evaluated
  | exhausted inside evaluated =>
    obtain ⟨budget, rfl⟩ := Nat.exists_eq_add_of_lt enough
    simp only [unitsWithin, inside, evaluated, Bool.false_eq_true, if_true, if_false]
  | unit inside evaluated progress _ ih =>
    have fewer := left_lt_of_progress evaluated progress
    obtain ⟨budget, rfl⟩ := Nat.exists_eq_add_of_lt enough
    simp only [unitsWithin, inside, evaluated, progress, Bool.false_eq_true, if_false]
    rw [ih (by omega)]

theorem enough_rounds (buffer : TokenBuffer) (position : Nat) :
    buffer.endFrom position - position < buffer.size + 1 := by
  have := buffer.endFrom_le_size position
  unfold TokenBuffer.size
  omega

theorem course_units (setting : Setting α ε) (root : RuleId) (position : Nat) :
    Course setting root position (setting.units root position) :=
  course_unitsWithin (enough_rounds setting.buffer position)

theorem Course.units_eq {position : Nat} {units : Units α ε}
    (course : Course setting root position units) : setting.units root position = units :=
  course.unitsWithin_eq (enough_rounds setting.buffer position)

/-! ## Where a series stops -/

/-- How a series of units stops if its last unit ends at a position. -/
def stopAt (setting : Setting α ε) (root : RuleId) (position : Nat) : Stop ε :=
  if setting.buffer.atEnd position then .done
  else
    match setting.evaluate root position with
    | .matched _ _ => .error (.noProgress setting.buffer position)
    | .failed failure _ => .error (.ofFailure setting.buffer failure)
    | .fault cause _ => .fault cause
    | .exhausted => .exhausted

theorem stopAt_eq_done_iff {position : Nat} :
    setting.stopAt root position = .done ↔ setting.buffer.atEnd position = true := by
  unfold stopAt
  split
  next ended => simp [ended]
  next inside => cases setting.evaluate root position <;> simp [inside]

theorem stopAt_eq_fault_iff {position : Nat} {cause : Fault ε} :
    setting.stopAt root position = .fault cause ↔ setting.buffer.atEnd position = false ∧
      ∃ next, setting.evaluate root position = .fault cause next := by
  unfold stopAt
  split
  next ended => simp [ended]
  next inside => cases setting.evaluate root position <;> simp [inside]

/-- Where an evaluation ends, a series of units does so too, in an error, or in a fault that is that of the
evaluation. -/
theorem stopAt_cases {position : Nat} (ends : setting.evaluate root position ≠ .exhausted) :
    (setting.stopAt root position = .done ∨ ∃ error, setting.stopAt root position = .error error) ∨
      ∃ cause next, setting.evaluate root position = .fault cause next ∧
        setting.stopAt root position = .fault cause := by
  unfold stopAt
  split
  next => exact .inl (.inl rfl)
  next =>
    cases evaluated : setting.evaluate root position with
    | matched _ _ | failed _ _ => exact .inl (.inr ⟨_, rfl⟩)
    | fault cause next => exact .inr ⟨cause, next, rfl, rfl⟩
    | exhausted => exact absurd evaluated ends

/-- What holds of all values that the root matches with, holds of each unit. -/
theorem eachFrom_unitsWithin {holds : Nat → α → Nat → Prop}
    (ofMatch : ∀ start value next, setting.Gives root start (.matched value next) →
      holds start value next) (budget position : Nat) :
    Units.EachFrom holds position (setting.unitsWithin root budget position).values := by
  induction budget generalizing position with
  | zero => exact trivial
  | succ budget ih =>
    simp only [unitsWithin]
    split
    next => exact trivial
    next =>
      cases evaluated : setting.evaluate root position with
      | matched value next =>
        simp only
        split
        next => exact trivial
        next => exact ⟨ofMatch _ _ _ (gives_of_evaluate evaluated nofun), ih next⟩
      | failed _ _ | fault _ _ | exhausted => exact trivial

/-- A unit of a series is a match of the root. -/
theorem exists_gives_of_mem_units {position : Nat} {unit : α × Nat}
    (mem : unit ∈ (setting.units root position).values) :
    ∃ start, setting.Gives root start (.matched unit.1 unit.2) :=
  Units.EachFrom.exists_start (eachFrom_unitsWithin (fun _ _ _ gives => gives) _ position) mem

/-- A single unit is a match of the root. -/
theorem gives_of_mem_unit {position : Nat} {unit : α × Nat}
    (mem : unit ∈ (setting.unit root position).values) :
    setting.Gives root position (.matched unit.1 unit.2) := by
  unfold Setting.unit at mem
  cases evaluated : setting.evaluate root position with
  | matched value next =>
    rw [evaluated] at mem
    rw [List.mem_singleton.mp mem]
    exact gives_of_evaluate evaluated nofun
  | failed _ _ | fault _ _ | exhausted =>
    rw [evaluated] at mem
    exact nomatch mem

/-- A series of units does not pass the first end token, and how it stops is decided behind its last
unit. -/
theorem stop_unitsWithin {budget position : Nat}
    (enough : setting.buffer.endFrom position - position < budget) :
    setting.buffer.Reaches position ((setting.unitsWithin root budget position).behind position) ∧
      (setting.unitsWithin root budget position).stop =
        setting.stopAt root ((setting.unitsWithin root budget position).behind position) := by
  induction budget generalizing position with
  | zero => omega
  | succ budget ih =>
    have stays {units : Units α ε} (none : units.values = [])
        (decided : setting.stopAt root position = units.stop) :
        setting.buffer.Reaches position (units.behind position) ∧
          units.stop = setting.stopAt root (units.behind position) := by
      have same : units.behind position = position := by simp [Units.behind, none]
      rw [same]
      exact ⟨.refl _ _, decided.symm⟩
    simp only [unitsWithin]
    by_cases ended : setting.buffer.atEnd position = true
    · rw [if_pos ended]
      exact stays rfl (stopAt_eq_done_iff.mpr ended)
    · rw [if_neg ended]
      cases evaluated : setting.evaluate root position with
      | matched value next =>
        simp only
        split
        next => exact stays rfl (by simp [stopAt, ended, evaluated, Units.ended])
        next progress =>
          have reaches : setting.buffer.Reaches position next :=
            (gives_of_evaluate evaluated (by simp)).keeps
          have fewer : setting.buffer.endFrom next - next < budget := by
            have := left_lt_of_progress evaluated progress
            omega
          obtain ⟨further, stops⟩ := ih fewer
          rw [Units.behind_cons]
          exact ⟨reaches.trans further, stops⟩
      | failed _ _ | fault _ _ | exhausted =>
        exact stays rfl (by simp [stopAt, ended, evaluated, Units.ended])

/-- The units of a rule stop as is decided behind the last of them, before or at the first end token. -/
theorem stop_units (setting : Setting α ε) (root : RuleId) (position : Nat) :
    setting.buffer.Reaches position ((setting.units root position).behind position) ∧
      (setting.units root position).stop =
        setting.stopAt root ((setting.units root position).behind position) :=
  stop_unitsWithin (enough_rounds setting.buffer position)

/-- A fault of the first unit is all that a series has. -/
theorem units_of_fault {position next : Nat} {cause : Fault ε}
    (inside : setting.buffer.atEnd position = false)
    (evaluated : setting.evaluate root position = .fault cause next) :
    setting.units root position = .ended (.fault cause) next := by
  simp only [units, unitsWithin, inside, evaluated]
  rfl

end Setting

end Grammatic
