import Grammatic.Proofs.Evaluation.Simulation
import Grammatic.Proofs.Evaluation.Units

/-!
# Two series of units side by side

Settings that evaluate rules alike yield alike series of units: related values at positions near each
other, as many on one side as on the other, and stops of one form (`Simulates.units_alike`). An evaluation
that runs out of its budget does so on both sides, provided that the budgets are the same.

Tokens that are alike, one by one, make parallel buffers (`TokenBuffer.parallel_ofTokens`). The end token
that a buffer adds has to be like any other, wherever it stands.
-/

namespace Grammatic

variable {α β ε : Type}

/-! ## Buffers -/

namespace TokenBuffer

variable {shows : Token → Token → Prop} {near : Nat → Nat → Prop} {buffer buffer' : TokenBuffer}

/-- One of two parallel buffers is at its end where the other is. -/
theorem Parallel.atEnd_eq (parallel : buffer.Parallel near buffer' shows) {position position' : Nat}
    (positions : near position position') : buffer.atEnd position = buffer'.atEnd position' := by
  rw [Bool.eq_iff_iff, ← advance_eq_self_iff, ← advance_eq_self_iff]
  exact parallel.eq_iff positions (parallel.advance positions)

/-- Looks at the same position of two buffers show tokens that are alike, if their lists do. -/
theorem peek_related (same : List.Forall₂ shows buffer.toList buffer'.toList) (position : Nat) :
    shows (buffer.peek position) (buffer'.peek position) := by
  have last := List.rel_reverse same
  simp only [toList, List.reverse_append, List.reverse_cons, List.reverse_nil, List.nil_append,
    List.singleton_append, List.forall₂_cons] at last
  obtain ⟨final, -⟩ := last
  rw [peek_eq_getD, peek_eq_getD]
  by_cases inside : position < buffer.toList.length
  · have inside' : position < buffer'.toList.length := same.length_eq ▸ inside
    rw [List.getElem?_eq_getElem inside, List.getElem?_eq_getElem inside']
    exact same.get inside inside'
  · have outside' : ¬ position < buffer'.toList.length := same.length_eq ▸ inside
    rw [List.getElem?_eq_none (Nat.le_of_not_lt inside),
      List.getElem?_eq_none (Nat.le_of_not_lt outside')]
    exact final

variable (kinds : ∀ {token token'}, shows token token' → token.kind = token'.kind)

include kinds

/-- Buffers of tokens that are alike, one by one, are parallel. -/
theorem parallel_of_toList (endKinds : buffer.endKind = buffer'.endKind)
    (same : List.Forall₂ shows buffer.toList buffer'.toList) :
    buffer.Parallel (· = ·) buffer' shows where
  peek := by
    rintro position _ rfl
    exact peek_related same position
  advance := by
    rintro position _ rfl
    rw [advance, advance, kinds (peek_related same position), endKinds]
  eq_iff := by
    rintro start _ next _ rfl rfl
    exact Iff.rfl

variable {endKind : TokenKind}
  (marks : ∀ position position', shows (.mark endKind position) (.mark endKind position'))
  {tokens tokens' : List Token}

include marks

/-- Tokens that are alike, one by one, make buffers of such tokens: either both get an end token, or
none. -/
theorem toList_ofTokens_related (same : List.Forall₂ shows tokens tokens')
    (source? source?' : Option Source) :
    List.Forall₂ shows (ofTokens tokens source? endKind).toList
      (ofTokens tokens' source?' endKind).toList := by
  have lasts : Option.Rel shows tokens.getLast? tokens'.getLast? := by
    rw [List.getLast?_eq_head?_reverse, List.getLast?_eq_head?_reverse]
    have inReverse := List.rel_reverse same
    generalize tokens.reverse = reversed at inReverse
    generalize tokens'.reverse = reversed' at inReverse
    cases inReverse with
    | nil => exact .none
    | cons last _ => exact .some last
  by_cases ended : ∃ last, tokens.getLast? = some last ∧ last.kind = endKind
  · obtain ⟨last, isLast, kind⟩ := ended
    rw [isLast] at lasts
    generalize isLast' : tokens'.getLast? = last? at lasts
    cases lasts with
    | some lasts =>
      rw [toList_ofTokens_of_ended source? isLast kind,
        toList_ofTokens_of_ended source?' isLast' ((kinds lasts).symm.trans kind)]
      exact same
  · have unended : ∀ last ∈ tokens.getLast?, last.kind ≠ endKind :=
      fun last isLast kind => ended ⟨last, isLast, kind⟩
    have unended' : ∀ last ∈ tokens'.getLast?, last.kind ≠ endKind := by
      intro last' isLast' kind
      rw [Option.mem_def.mp isLast'] at lasts
      generalize isLast : tokens.getLast? = last? at lasts
      cases lasts with
      | some lasts => exact unended _ isLast ((kinds lasts).trans kind)
    rw [toList_ofTokens_of_open source? unended, toList_ofTokens_of_open source?' unended']
    exact List.rel_append same (.cons (marks _ _) .nil)

theorem parallel_ofTokens (same : List.Forall₂ shows tokens tokens')
    (source? source?' : Option Source) :
    (ofTokens tokens source? endKind).Parallel (· = ·) (ofTokens tokens' source?' endKind) shows := by
  refine parallel_of_toList kinds ?_ (toList_ofTokens_related kinds marks same source? source?')
  rw [endKind_ofTokens, endKind_ofTokens]

theorem size_ofTokens_eq (same : List.Forall₂ shows tokens tokens')
    (source? source?' : Option Source) :
    (ofTokens tokens source? endKind).size = (ofTokens tokens' source?' endKind).size := by
  rw [← length_toList, ← length_toList]
  exact (toList_ofTokens_related kinds marks same source? source?').length_eq

end TokenBuffer

/-! ## Units -/

/-- Stops of one form: at the end, or behind units that are near each other, with failures that are alike,
or with the same fault. -/
inductive Stop.Alike (shows : Token → Token → Prop) (near : Nat → Nat → Prop)
    (buffer buffer' : TokenBuffer) : Stop ε → Stop ε → Prop
  | done : Alike shows near buffer buffer' .done .done
  | idle {position position' : Nat} (positions : near position position') :
      Alike shows near buffer buffer' (.error (.noProgress buffer position))
        (.error (.noProgress buffer' position'))
  | failed {failure failure' : Failure} (failures : failure.Alike shows near failure') :
      Alike shows near buffer buffer' (.error (.ofFailure buffer failure))
        (.error (.ofFailure buffer' failure'))
  | fault {cause : Fault ε} : Alike shows near buffer buffer' (.fault cause) (.fault cause)
  | exhausted : Alike shows near buffer buffer' .exhausted .exhausted

namespace Stop.Alike

variable {shows shows' : Token → Token → Prop} {near : Nat → Nat → Prop} {buffer buffer' : TokenBuffer}
  {stop stop' : Stop ε}

theorem imp (weaker : ∀ {token token'}, shows token token' → shows' token token')
    (alike : stop.Alike shows near buffer buffer' stop') : stop.Alike shows' near buffer buffer' stop' := by
  cases alike with
  | done => exact .done
  | idle positions => exact .idle positions
  | failed failures => exact .failed ⟨failures.position, weaker failures.token, failures.expected⟩
  | fault => exact .fault
  | exhausted => exact .exhausted

/-- Stops that are alike at the same tokens are the same. -/
theorem eq (alike : stop.Alike (· = ·) (· = ·) buffer buffer stop') : stop = stop' := by
  cases alike with
  | idle positions => rw [positions]
  | failed failures => rw [failures.eq]
  | done | fault | exhausted => rfl

theorem eq_done (alike : Stop.Alike shows near buffer buffer' .done stop') : stop' = .done := by
  cases alike
  rfl

/-- Beside a failure there is one like it. -/
theorem exists_failed {failure : Failure}
    (alike : Stop.Alike shows near buffer buffer' (.error (.ofFailure buffer failure)) stop') :
    ∃ failure', stop' = .error (.ofFailure buffer' failure') ∧ failure.Alike shows near failure' := by
  generalize stops : Stop.error (.ofFailure buffer failure) = stop at alike
  cases alike with
  | failed failures =>
    cases congrArg ParseError.failure? (Stop.error.inj stops)
    exact ⟨_, rfl, failures⟩
  | idle _ => cases congrArg ParseError.failure? (Stop.error.inj stops)
  | done | fault | exhausted => cases stops

end Stop.Alike

/-- Series with related values, as many, which stop in one form. -/
structure Units.Alike (related : α → β → Prop) (shows : Token → Token → Prop)
    (near : Nat → Nat → Prop) (buffer buffer' : TokenBuffer) (units : Units α ε) (units' : Units β ε) :
    Prop where
  values : List.Forall₂ (fun unit unit' => related unit.1 unit'.1 ∧ near unit.2 unit'.2)
    units.values units'.values
  position : near units.position units'.position
  stop : units.stop.Alike shows near buffer buffer' units'.stop

/-- Where values and positions are the same, so are the units. -/
theorem Units.Alike.values_eq {shows : Token → Token → Prop} {buffer buffer' : TokenBuffer}
    {units units' : Units α ε} (alike : units.Alike (· = ·) shows (· = ·) buffer buffer' units') :
    units'.values = units.values := by
  have same : List.Forall₂ (· = ·) units.values units'.values :=
    alike.values.imp fun _ _ unit => Prod.ext unit.1 unit.2
  rw [List.forall₂_eq_eq_eq] at same
  exact same.symm

theorem Units.Alike.eq {buffer : TokenBuffer} {units units' : Units α ε}
    (alike : units.Alike (· = ·) (· = ·) (· = ·) buffer buffer units') : units = units' := by
  have values := alike.values_eq
  have stop := alike.stop.eq
  have position := alike.position
  cases units
  cases units'
  simp_all only

namespace Setting

variable {setting : Setting α ε} {setting' : Setting β ε} {known : RuleId → Prop}
  {related : α → β → Prop} {near : Nat → Nat → Prop} {shows : Token → Token → Prop} {root : RuleId}

/-- Where one setting runs a course, another that evaluates the root alike runs an alike one. -/
theorem Course.alike (buffers : setting.buffer.Parallel near setting'.buffer shows)
    (evaluates : ∀ {start start'}, near start start' →
      (setting.evaluate root start).Alike related shows near (setting'.evaluate root start'))
    {position position' : Nat} (positions : near position position') {units : Units α ε}
    (course : Course setting root position units) :
    ∃ units', Course setting' root position' units' ∧
      units.Alike related shows near setting.buffer setting'.buffer units' := by
  induction course generalizing position' with
  | done ended =>
    rw [buffers.atEnd_eq positions] at ended
    exact ⟨_, .done ended, .nil, positions, .done⟩
  | idle inside evaluated =>
    rw [buffers.atEnd_eq positions] at inside
    have alike := evaluates positions
    rw [evaluated] at alike
    generalize evaluated' : setting'.evaluate root position' = outcome' at alike
    cases alike with
    | matched _ nexts =>
      obtain rfl := (buffers.eq_iff positions nexts).mp rfl
      exact ⟨_, .idle inside evaluated', .nil, positions, .idle positions⟩
  | failed inside evaluated =>
    rw [buffers.atEnd_eq positions] at inside
    have alike := evaluates positions
    rw [evaluated] at alike
    generalize evaluated' : setting'.evaluate root position' = outcome' at alike
    cases alike with
    | failed failures nexts => exact ⟨_, .failed inside evaluated', .nil, nexts, .failed failures⟩
  | fault inside evaluated =>
    rw [buffers.atEnd_eq positions] at inside
    have alike := evaluates positions
    rw [evaluated] at alike
    generalize evaluated' : setting'.evaluate root position' = outcome' at alike
    cases alike with
    | fault nexts => exact ⟨_, .fault inside evaluated', .nil, nexts, .fault⟩
  | exhausted inside evaluated =>
    rw [buffers.atEnd_eq positions] at inside
    have alike := evaluates positions
    rw [evaluated] at alike
    generalize evaluated' : setting'.evaluate root position' = outcome' at alike
    cases alike
    exact ⟨_, .exhausted inside evaluated', .nil, positions, .exhausted⟩
  | unit inside evaluated progress _ ih =>
    rw [buffers.atEnd_eq positions] at inside
    have alike := evaluates positions
    rw [evaluated] at alike
    generalize evaluated' : setting'.evaluate root position' = outcome' at alike
    cases alike with
    | matched value nexts =>
      have progress' := mt (buffers.eq_iff positions nexts).mpr progress
      obtain ⟨units', course', values, stays, stop⟩ := ih nexts
      exact ⟨_, .unit inside evaluated' progress' course', .cons ⟨value, nexts⟩ values, stays, stop⟩

namespace Simulates

variable (sim : setting.Simulates setting' known related near shows)
  (budgets : setting.budget = setting'.budget)

include sim budgets

/-- Settings that evaluate rules alike and have the same budget evaluate them to alike outcomes. -/
theorem evaluate_alike {id : RuleId} (isKnown : known id) {start start' : Nat}
    (starts : near start start') :
    (setting.evaluate id start).Alike related shows near (setting'.evaluate id start') := by
  rw [evaluate, evaluate, ← budgets]
  exact sim.evaluateWithin_alike _ isKnown starts

theorem units_alike (isKnown : known root) {position position' : Nat}
    (positions : near position position') :
    (setting.units root position).Alike related shows near setting.buffer setting'.buffer
      (setting'.units root position') := by
  obtain ⟨units', course', alike⟩ := (course_units setting root position).alike sim.buffers
    (sim.evaluate_alike budgets isKnown) positions
  rw [course'.units_eq]
  exact alike

end Simulates

end Setting

end Grammatic
