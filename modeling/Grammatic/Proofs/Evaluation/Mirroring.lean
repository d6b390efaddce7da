import Grammatic.Proofs.Evaluation.Rearranging
import Grammatic.Proofs.Evaluation.Termination
import Grammatic.Proofs.Evaluation.Units

/-!
# The order of alternatives does not matter

An ordered choice takes the first alternative that matches. If no two of them match at one position, it
takes the only one that does, in any order. So an evaluation with the alternatives in another order matches
where the first one matches, with the same value and position, and fails where it fails
(`evaluate_mirrored`). A failure is of the alternative that was tried last, and so it may be another one; but
nothing looks at a failure that is absorbed, and the values stay the same.

An alternation in another order tries alternatives that the first evaluation has never come to. That they
fail cannot be read off the first evaluation. It follows in the second setting, where every evaluation ends
in a match or a failure, from the alternatives being exclusive there.
-/

namespace Grammatic

variable {α ε : Type}

/-- The second outcome is the same match as the first, or a failure as the first, but maybe another one. -/
inductive Outcome.MirroredBy : Outcome α ε → Outcome α ε → Prop
  | matched {value : α} {next : Nat} : MirroredBy (.matched value next) (.matched value next)
  | failed {failure failure' : Failure} {next next' : Nat} :
      MirroredBy (.failed failure next) (.failed failure' next')
  | fault {cause : Fault ε} {next : Nat} {outcome : Outcome α ε} : MirroredBy (.fault cause next) outcome
  | exhausted {outcome : Outcome α ε} : MirroredBy .exhausted outcome

theorem Outcome.MirroredBy.refl (outcome : Outcome α ε) : outcome.MirroredBy outcome := by
  cases outcome with
  | matched _ _ => exact .matched
  | failed _ _ => exact .failed
  | fault _ _ => exact .fault
  | exhausted => exact .exhausted

/-- Both series stop in the same way, but a failure may be another one. -/
inductive Stop.MirroredBy (buffer : TokenBuffer) : Stop ε → Stop ε → Prop
  | done : MirroredBy buffer .done .done
  | idle {position : Nat} :
      MirroredBy buffer (.error (.noProgress buffer position)) (.error (.noProgress buffer position))
  | failed {failure failure' : Failure} :
      MirroredBy buffer (.error (.ofFailure buffer failure)) (.error (.ofFailure buffer failure'))

/-- Series of the same units, which stop at the same position in the same way. -/
structure Units.MirroredBy (buffer : TokenBuffer) (units units' : Units α ε) : Prop where
  values : units'.values = units.values
  position : units'.position = units.position
  stop : units.stop.MirroredBy buffer units'.stop

namespace Setting

variable {setting : Setting α ε} {choices : List RuleId} {other : Store}

/-! ## Loops -/

section Loops

variable {part more : RuleId → Nat → Outcome α ε} {sub moreSub : Nat → Outcome α ε}

theorem sequence_mirrored (rearranged : setting.store.Rearranged choices other)
    (parts : ∀ id position, (part id position).MirroredBy (more id position)) (rule : Rule)
    (start : Nat) (components : List RuleId) (captured : List α) (position : Nat) :
    (setting.sequence part rule start components captured position).MirroredBy
      ((setting.withStore other).sequence more rule start components captured position) := by
  induction components generalizing captured position with
  | nil => exact .refl _
  | cons component rest ih =>
    have first := parts component position
    simp only [sequence, store_withStore, rearranged.captures_eq]
    generalize part component position = outcome at first
    generalize more component position = outcome' at first
    cases first with
    | matched => exact ih _ _
    | failed => exact .failed
    | fault => exact .fault
    | exhausted => exact .exhausted

theorem alternation_mirrored (parts : ∀ id position, (part id position).MirroredBy (more id position))
    (start : Nat) (alternatives : List RuleId) {expected expected' : StringSet}
    {last last' : Option Failure} (lasts : last ≠ none → last' ≠ none) :
    (alternation part start alternatives expected last).MirroredBy
      (alternation more start alternatives expected' last') := by
  induction alternatives generalizing expected expected' last last' with
  | nil =>
    cases last with
    | none => exact .fault
    | some failure =>
      obtain ⟨failure', rfl⟩ := Option.ne_none_iff_exists'.mp (lasts nofun)
      exact .failed
  | cons alternative rest ih =>
    have first := parts alternative start
    simp only [alternation]
    generalize part alternative start = outcome at first
    generalize more alternative start = outcome' at first
    cases first with
    | matched => exact .matched
    | failed => exact ih fun _ => nofun
    | fault => exact .fault
    | exhausted => exact .exhausted

/-- An alternation takes an alternative that matches, if all others fail. -/
theorem alternation_of_only {start next : Nat} {value : α} {alternatives : List RuleId}
    {alternative : RuleId} (mem : alternative ∈ alternatives)
    (matched : more alternative start = .matched value next)
    (others : ∀ id ∈ alternatives, id ≠ alternative → Refused more id start) (expected : StringSet)
    (last : Option Failure) :
    alternation more start alternatives expected last = .matched value next := by
  induction alternatives generalizing expected last with
  | nil => cases mem
  | cons first rest ih =>
    by_cases same : first = alternative
    · rw [alternation, same, matched]
    · obtain ⟨failure, position, outcome⟩ := others first List.mem_cons_self same
      rw [alternation, outcome]
      have mem : alternative ∈ rest := (List.mem_cons.mp mem).resolve_left (Ne.symm same)
      exact ih mem (fun id among => others id (List.mem_cons_of_mem _ among)) _ _

/-- An alternation of which only one alternative can match takes that one in any order. -/
theorem alternation_mirrored_of_perm
    (parts : ∀ id position, (part id position).MirroredBy (more id position)) {start : Nat}
    {alternatives reordered : List RuleId} (perm : reordered.Perm alternatives)
    (exclusive : ∀ id ∈ alternatives, ∀ next, Took more id start next →
      ∀ id' ∈ alternatives, id' ≠ id → Refused more id' start) :
    (alternation part start alternatives .empty none).MirroredBy
      (alternation more start reordered .empty none) := by
  cases outcome : alternation part start alternatives .empty none with
  | matched value next =>
    obtain ⟨earlier, alternative, later, split, -, matched⟩ := alternation_matched outcome
    have mem : alternative ∈ alternatives := by
      rw [split]
      exact List.mem_append_right _ List.mem_cons_self
    have matched' : more alternative start = .matched value next := by
      have mirrored := parts alternative start
      rw [matched] at mirrored
      generalize more alternative start = outcome' at mirrored
      cases mirrored
      rfl
    have others : ∀ id ∈ reordered, id ≠ alternative → Refused more id start := by
      intro id among differs
      exact exclusive alternative mem next ⟨value, matched'⟩ id (perm.mem_iff.mp among) differs
    rw [alternation_of_only (perm.mem_iff.mpr mem) matched' others]
    exact .matched
  | failed failure next =>
    have refused : ∀ id ∈ reordered, Refused more id start := by
      intro id among
      obtain ⟨failure, position, failed⟩ := alternation_failed outcome id (perm.mem_iff.mp among)
      have mirrored := parts id start
      rw [failed] at mirrored
      generalize found : more id start = outcome' at mirrored
      cases mirrored with
      | @failed _ failure' _ behind => exact ⟨failure', behind, found⟩
    have some : reordered ≠ [] := by
      rintro rfl
      obtain rfl := perm.nil_eq
      cases outcome
    obtain ⟨failure', next', failed⟩ :
        ∃ failure position, alternation more start reordered .empty none = .failed failure position :=
      alternation_of_refused refused (.inl some)
    rw [failed]
    exact .failed
  | fault cause next => exact .fault
  | exhausted => exact .exhausted

theorem optional_mirrored (subs : ∀ position, (sub position).MirroredBy (moreSub position))
    (start : Nat) :
    (setting.optional sub start).MirroredBy ((setting.withStore other).optional moreSub start) := by
  have element := subs start
  unfold optional
  generalize sub start = outcome at element
  generalize moreSub start = outcome' at element
  cases element with
  | matched | failed => exact .matched
  | fault => exact .fault
  | exhausted => exact .exhausted

theorem repetition_mirrored (subs : ∀ position, (sub position).MirroredBy (moreSub position))
    {budget larger : Nat} (le : budget ≤ larger) (elements : List α) (start : Nat) :
    (setting.repetition sub budget elements start).MirroredBy
      ((setting.withStore other).repetition moreSub larger elements start) := by
  induction budget generalizing larger elements start with
  | zero => exact .exhausted
  | succ budget ih =>
    obtain ⟨larger, rfl⟩ := Nat.exists_eq_add_of_le' (Nat.lt_of_lt_of_le (Nat.succ_pos _) le)
    have element := subs start
    simp only [repetition]
    generalize sub start = outcome at element
    generalize moreSub start = outcome' at element
    cases element with
    | @matched value next =>
      simp only
      split
      next => exact .matched
      next => exact ih (Nat.le_of_succ_le_succ le) _ next
    | failed => exact .matched
    | fault => exact .fault
    | exhausted => exact .exhausted

theorem climb_mirrored (subs : ∀ position, (sub position).MirroredBy (moreSub position))
    (tag : Option NodeTag) (table : OperatorTable) {budget larger : Nat} (le : budget ≤ larger)
    (limit : Option Int) (left : α) (position : Nat) :
    (setting.climb sub tag table budget limit left position).MirroredBy
      ((setting.withStore other).climb moreSub tag table larger limit left position) := by
  induction budget generalizing larger limit left position with
  | zero => exact .exhausted
  | succ budget ih =>
    obtain ⟨larger, rfl⟩ := Nat.exists_eq_add_of_le' (Nat.lt_of_lt_of_le (Nat.succ_pos _) le)
    have le := Nat.le_of_succ_le_succ le
    rcases stopsAt_or_takes setting table limit position with stops | ⟨operator, takes⟩
    · have stops' : StopsAt (setting.withStore other) table limit position := stops
      rw [climb_of_stopsAt stops, climb_of_stopsAt stops']
      exact .matched
    · have takes' : Takes (setting.withStore other) table limit position operator := takes
      rw [climb_of_takes takes, climb_of_takes takes', buffer_withStore, factory_withStore]
      have operand := subs (setting.buffer.advance position)
      generalize sub (setting.buffer.advance position) = outcome at operand
      generalize moreSub (setting.buffer.advance position) = outcome' at operand
      cases operand with
      | @matched first next =>
        have nested := ih le (some operator.rightLimit) first next
        simp only
        generalize setting.climb sub tag table budget _ _ _ = outcome at nested
        generalize (setting.withStore other).climb moreSub tag table larger _ _ _ = outcome' at nested
        cases nested with
        | matched =>
          simp only
          split
          next folded _ => exact ih le limit folded _
          next => exact .fault
        | failed => exact .failed
        | fault => exact .fault
        | exhausted => exact .exhausted
      | failed => exact .failed
      | fault => exact .fault
      | exhausted => exact .exhausted

theorem expression_mirrored (subs : ∀ position, (sub position).MirroredBy (moreSub position))
    (tag : Option NodeTag) (table : OperatorTable) {budget larger : Nat} (le : budget ≤ larger)
    (start : Nat) :
    (setting.expression sub tag table budget start).MirroredBy
      ((setting.withStore other).expression moreSub tag table larger start) := by
  have operand := subs start
  unfold expression
  generalize sub start = outcome at operand
  generalize moreSub start = outcome' at operand
  cases operand with
  | @matched first next =>
    have chain : (setting.climb sub tag table budget none first next).MirroredBy
        ((setting.withStore other).climb moreSub tag table larger none first next) :=
      climb_mirrored subs tag table le none first next
    simp only
    generalize setting.climb sub tag table budget _ _ _ = outcome at chain
    generalize (setting.withStore other).climb moreSub tag table larger _ _ _ = outcome' at chain
    cases chain with
    | matched => exact .matched
    | failed => exact .failed
    | fault => exact .fault
    | exhausted => exact .exhausted
  | failed => exact .failed
  | fault => exact .fault
  | exhausted => exact .exhausted

/-- A rule that is the same in both orders. -/
theorem evaluateRule_mirrored (rearranged : setting.store.Rearranged choices other)
    (parts : ∀ id position, (part id position).MirroredBy (more id position)) {budget larger : Nat}
    (le : budget ≤ larger) (rule : Rule) (start : Nat) :
    (setting.evaluateRule part budget rule start).MirroredBy
      ((setting.withStore other).evaluateRule more larger rule start) := by
  refine evaluateRule_cases (P := fun outcome => outcome.MirroredBy
    ((setting.withStore other).evaluateRule more larger rule start)) ?terminal ?sequence ?alternation
    ?optional ?repetition ?capture ?expression ?lacking
  case terminal =>
    intro kind
    rw [evaluateRule_terminal kind]
    simp only [terminal, buffer_withStore, factory_withStore, accepts_withStore rearranged]
    exact .refl _
  case sequence =>
    intro kind
    rw [evaluateRule_sequence kind]
    exact sequence_mirrored rearranged parts rule start _ [] start
  case alternation =>
    intro kind
    rw [evaluateRule_alternation kind]
    exact alternation_mirrored parts start _ (absurd rfl)
  case optional =>
    intro sub rest kind children
    rw [evaluateRule_optional kind children]
    exact optional_mirrored (parts sub) start
  case repetition =>
    intro sub rest kind children
    rw [evaluateRule_repetition kind children]
    exact repetition_mirrored (parts sub) le [] start
  case capture =>
    intro sub rest kind children
    rw [evaluateRule_capture kind children]
    exact parts sub start
  case expression =>
    intro operand rest table kind table? children
    rw [← rearranged.tableOf?_eq] at table?
    rw [evaluateRule_expression kind table? children]
    exact expression_mirrored (parts operand) _ _ le start
  case lacking =>
    intro cause _
    exact .fault

end Loops

/-! ## Evaluations -/

/-- In a setting where every evaluation ends in a match or a failure, all other alternatives of an exclusive
choice fail where one matches. -/
theorem Exclusive.refused {ids : List RuleId} (exclusive : setting.Exclusive ids)
    (decides : ∀ id ∈ ids, ∀ start, (∃ next, setting.Matches id start next) ∨ setting.Fails id start)
    {budget : Nat} (ended : ∀ id start, setting.evaluateWithin budget id start ≠ .exhausted)
    {id start next : Nat} (mem : id ∈ ids) (took : Took (setting.evaluateWithin budget) id start next)
    {id' : RuleId} (mem' : id' ∈ ids) (differs : id' ≠ id) :
    Refused (setting.evaluateWithin budget) id' start := by
  have matched := matches_of_took id start next took
  rcases decides id' mem' start with ⟨next', matched'⟩ | ⟨failure, position, gives⟩
  · exact absurd (exclusive id' mem' id mem start next' next matched' matched) differs
  · exact ⟨failure, position, gives.eq_of_ne (ended id' start)⟩

/-- What a setting with the alternatives in another order has to satisfy: all evaluations end, in a match or
a failure, and the choices that are in another order are exclusive. -/
structure Decided (setting : Setting α ε) (choices : List RuleId) : Prop where
  faultless : setting.Faultless
  ends : ∀ id start, setting.evaluate id start ≠ .exhausted
  exclusive : ∀ id ∈ choices, setting.Exclusive (setting.store.childrenOf id)

namespace Decided

variable (decided : (setting.withStore other).Decided choices)
  (rearranged : setting.store.Rearranged choices other)

include decided

theorem ended {budget : Nat} (enough : (setting.withStore other).budget ≤ budget) (id : RuleId)
    (start : Nat) : (setting.withStore other).evaluateWithin budget id start ≠ .exhausted := by
  have ends := decided.ends id start
  rw [evaluate] at ends
  rw [evaluateWithin_mono enough id start ends]
  exact ends

include rearranged

theorem evaluateWithin_mirrored (budget : Nat) (id : RuleId) (start : Nat) :
    (setting.evaluateWithin budget id start).MirroredBy
      ((setting.withStore other).evaluateWithin ((setting.withStore other).budget + budget) id start) := by
  induction budget generalizing id start with
  | zero => exact .exhausted
  | succ budget ih =>
    rw [← Nat.add_assoc]
    simp only [evaluateWithin, store_withStore]
    rcases rearranged.rules id with same | ⟨rule, children, found, kind, perm, found', chosen⟩
    · rw [same]
      cases setting.store.rules[id]? with
      | none => exact .fault
      | some rule => exact evaluateRule_mirrored rearranged ih (Nat.le_add_left _ _) rule start
    · have kind' : ({ rule with children } : Rule).kind = .alternation := kind
      simp only [found, found']
      rw [evaluateRule_alternation kind, evaluateRule_alternation kind']
      refine alternation_mirrored_of_perm ih perm fun id' mem next took other' mem' differs => ?_
      have same : other.childrenOf id = children := Store.childrenOf_of_getElem? found'
      have exclusive : (setting.withStore other).Exclusive children := by
        rw [← same]
        exact decided.exclusive id chosen
      refine exclusive.refused ?_ (decided.ended (Nat.le_add_right _ _)) (perm.mem_iff.mpr mem) took
        (perm.mem_iff.mpr mem') differs
      intro alternative among start
      have valid : alternative < other.rules.size := by
        apply Store.lt_size_of_mem_childrenOf
        rw [same]
        exact among
      exact decided.faultless.decides valid (ends_of_evaluateWithin (decided.ends alternative start))

/-- An evaluation with the alternatives in another order matches with the same value and position, or fails,
where the first one does. -/
theorem evaluate_mirrored (id : RuleId) (start : Nat) :
    (setting.evaluate id start).MirroredBy ((setting.withStore other).evaluate id start) := by
  have mirrored := decided.evaluateWithin_mirrored rearranged setting.budget id start
  rw [evaluateWithin_mono (Nat.le_add_right _ _) id start (decided.ends id start)] at mirrored
  exact mirrored

end Decided

/-- The conditions can be checked in any order: rules that settle, no operator of the end kind, and choices
that the first token tells apart. -/
theorem decided_of_settled (rearranged : setting.store.Rearranged choices other)
    (faultless : setting.Faultless)
    (settled : setting.store.settled setting.buffer.endKind = true)
    (operators : ∀ table ∈ setting.store.tables, table.find? setting.buffer.endKind = none)
    {kinds : List TokenKind}
    (apart : ∀ id ∈ choices, setting.store.tellsApart kinds (setting.store.childrenOf id) = true) :
    (setting.withStore other).Decided choices where
  faultless := faultless.withStore rearranged
  ends := by
    apply evaluate_ends_of_settled
    · rw [store_withStore, rearranged.settled_eq]
      exact settled
    · rw [store_withStore, rearranged.tables]
      exact operators
  exclusive id mem := by
    apply exclusive_of_tellsApart
    rw [store_withStore, rearranged.tellsApart_eq kinds (rearranged.childrenOf_perm id)]
    exact apart id mem

/-! ## Series of units -/

variable {root : RuleId}

/-- If each unit is the same in both settings, and none is a fault, then so is the series. -/
theorem Course.mirrored {setting' : Setting α ε} (buffers : setting'.buffer = setting.buffer)
    (sound : ∀ start cause next, setting.evaluate root start ≠ .fault cause next)
    (ends : ∀ start, setting.evaluate root start ≠ .exhausted)
    (mirrored : ∀ start, (setting.evaluate root start).MirroredBy (setting'.evaluate root start))
    {position : Nat} {units : Units α ε} (course : Course setting root position units) :
    ∃ units', Course setting' root position units' ∧ units.MirroredBy setting.buffer units' := by
  induction course with
  | done ended =>
    rw [← buffers] at ended
    exact ⟨_, .done ended, rfl, rfl, .done⟩
  | @idle position value inside evaluated =>
    have mirrored := mirrored position
    rw [evaluated] at mirrored
    generalize evaluated' : setting'.evaluate root position = outcome at mirrored
    cases mirrored
    rw [← buffers] at inside
    refine ⟨_, .idle inside evaluated', rfl, rfl, ?_⟩
    rw [buffers]
    exact .idle
  | @failed position next failure inside evaluated =>
    have mirrored := mirrored position
    rw [evaluated] at mirrored
    generalize evaluated' : setting'.evaluate root position = outcome at mirrored
    cases mirrored with
    | @failed _ failure' _ next' =>
      rw [← buffers] at inside
      have stays : next = position := (gives_of_evaluate evaluated nofun).keeps
      have stays' : next' = position := (gives_of_evaluate evaluated' nofun).keeps
      refine ⟨_, .failed inside evaluated', rfl, stays'.trans stays.symm, ?_⟩
      rw [buffers]
      exact .failed
  | fault _ evaluated => exact absurd evaluated (sound _ _ _)
  | exhausted _ evaluated => exact absurd evaluated (ends _)
  | @unit position next value units inside evaluated progress _ ih =>
    obtain ⟨units', course', values, stays, stop⟩ := ih
    have mirrored := mirrored position
    rw [evaluated] at mirrored
    generalize evaluated' : setting'.evaluate root position = outcome at mirrored
    cases mirrored
    rw [← buffers] at inside
    exact ⟨_, .unit inside evaluated' progress course', congrArg ((value, next) :: ·) values, stays, stop⟩

/-- Units with the alternatives in another order are the same units, and stop at the same position. -/
theorem units_mirrored (decided : setting.Decided choices)
    (decided' : (setting.withStore other).Decided choices)
    (rearranged : setting.store.Rearranged choices other) (valid : root < setting.store.rules.size)
    (position : Nat) :
    (setting.units root position).MirroredBy setting.buffer
      ((setting.withStore other).units root position) := by
  have sound (start cause next) : setting.evaluate root start ≠ .fault cause next := by
    intro evaluated
    have gives := gives_of_evaluate evaluated nofun
    rcases decided.faultless.decides valid ⟨_, gives⟩ with ⟨_, _, gives'⟩ | ⟨_, _, gives'⟩
    · cases gives.unique gives'
    · cases gives.unique gives'
  obtain ⟨units', course, mirrored⟩ := (course_units setting root position).mirrored buffer_withStore
    sound (decided.ends root) (decided'.evaluate_mirrored rearranged root)
  rw [course.units_eq]
  exact mirrored

end Setting

end Grammatic
