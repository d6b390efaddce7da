import Grammatic.Proofs.Source.Newlines
import Grammatic.Source.Diagnostic

/-!
# What a source has recorded

A source records the newlines that it has come by, and scans on from where it stopped. The calls that show lines
scan inside the text only, and scanning inside the text keeps the record: it has the newlines of the scanned part,
each once and in increasing order (`Records`), and lines are told by it (`Records.answersLines`).

A scan past the end of the text fails when it gets there, and then it has recorded the newlines on its way but not
how far it came. If there was one, the record has too many entries from then on (`Overfull`), for the next scan
comes by the same newlines again. So a history of calls, those that fail included, keeps the record if and only if
it has no such scan, and the answers about lines go wrong with the record (`bookkeeping_survives_iff`).
-/

namespace Grammatic.Source

variable {source : Source} {text : List Char} {place : Nat}

/-! ## Calls -/

/-- A call on a source, with its arguments. -/
inductive Call where
  | scanTo (position : Int)
  | lineIndex (position : Int)
  | lineStart (position : Int)
  | lineEnd (position : Int)
  | diagnosticAt (position stop : Int) (message : String)
  | diagnostic (items : List (Option (Span × String)))

/-- The source behind a query, whether it has an answer or none. -/
def behind {α : Type} (query : Query α) (source : Source) : Source :=
  match query source with
  | .ok _ after | .error _ after => after

/-- The source behind a call. -/
def Call.after : Call → Source → Source
  | .scanTo position => behind (Source.scanTo position)
  | .lineIndex position => behind (Source.lineIndex position)
  | .lineStart position => behind do return (← get).lineStart position
  | .lineEnd position => behind do return (← get).lineEnd position
  | .diagnosticAt position stop message => behind (Source.diagnosticAt position stop message)
  | .diagnostic items => behind (Source.diagnostic items)

/-- The source behind a history of calls. -/
def afterAll (source : Source) (calls : List Call) : Source :=
  calls.foldl (fun source call => call.after source) source

/-- A call that scans past the end of a text, and comes by a newline that has not been scanned yet. -/
def Call.Overruns (source : Source) : Call → Prop
  | .scanTo position => source.length < position ∧ '\n' ∈ source.chars.drop source.scanned
  | _ => False

/-- In a history of calls one overruns the source that the calls before it have left. -/
def Overruns (source : Source) (calls : List Call) : Prop :=
  ∃ before call later, calls = before ++ call :: later ∧ call.Overruns (source.afterAll before)

/-! ## Records -/

/-- A source has recorded the newlines of the part of a text that it has scanned. -/
structure Records (text : List Char) (source : Source) : Prop where
  chars : source.chars = text
  newlines : source.newlines.toList = newlinesFrom (text.take source.scanned) 0
  scanned_le : source.scanned ≤ text.length

/-- A source has recorded more newlines than there are in the part of a text that it has scanned. -/
structure Overfull (text : List Char) (source : Source) : Prop where
  chars : source.chars = text
  lt_size : (text.take source.scanned).count '\n' < source.newlines.size
  scanned_le : source.scanned ≤ text.length

/-- What a scan leaves behind. -/
theorem behind_scanTo (position : Int) (source : Source) :
    behind (scanTo position) source =
      if position ≤ source.scanned then source
      else
        { source with
          newlines := source.newlines ++ (source.newlinesBetween source.scanned position.toNat).toArray
          scanned := if position ≤ source.length then position.toNat else source.scanned } := by
  unfold behind scanTo
  by_cases known : position ≤ source.scanned
  · simp [known]
  · by_cases inside : position ≤ source.length <;> simp [known, inside]

theorem Records.scanned {position : Int} (records : Records text source) (within : position ≤ text.length) :
    Records text (behind (scanTo position) source) := by
  obtain ⟨rfl, newlines, le⟩ := records
  rw [behind_scanTo]
  split
  next => exact ⟨rfl, newlines, le⟩
  next further =>
    have inside : position ≤ source.length := within
    refine ⟨rfl, ?_, ?_⟩
    · simp only [if_pos inside, Array.toList_append, newlines]
      exact newlinesFrom_take_append (by omega) le
    · simp only [if_pos inside]
      exact Int.toNat_le.mpr inside

theorem Overfull.scanned (overfull : Overfull text source) (position : Int) :
    Overfull text (behind (scanTo position) source) := by
  obtain ⟨rfl, lt, le⟩ := overfull
  rw [behind_scanTo]
  split
  next => exact ⟨rfl, lt, le⟩
  next further =>
    refine ⟨rfl, ?_, ?_⟩
    · simp only [Array.size_append, List.size_toArray, length_newlinesBetween]
      split
      next =>
        show (source.chars.take position.toNat).count '\n' < _
        rw [count_take (Nat.le_of_lt (Int.lt_toNat.mpr (Int.not_le.mp further)))]
        omega
      next =>
        show (source.chars.take source.scanned).count '\n' < _
        omega
    · split
      next inside => exact Int.toNat_le.mpr inside
      next => exact le

/-- Where a scan overruns a source, its record has too many entries. -/
theorem Records.overfull {position : Int} (records : Records text source)
    (overruns : (Call.scanTo position).Overruns source) : Overfull text (behind (Source.scanTo position) source) := by
  obtain ⟨rfl, newlines, le⟩ := records
  obtain ⟨outside, mem⟩ := overruns
  have le' : source.scanned ≤ source.length := le
  have further : ¬ position ≤ source.scanned := by omega
  have notInside : ¬ position ≤ source.length := Int.not_le.mpr outside
  have size : source.newlines.size = (source.chars.take source.scanned).count '\n' := by
    rw [← Array.length_toList, newlines, length_newlinesFrom]
  have all : source.chars.take position.toNat = source.chars :=
    List.take_of_length_le (Nat.le_of_lt (Int.lt_toNat.mpr outside))
  rw [behind_scanTo, if_neg further, if_neg notInside]
  refine ⟨rfl, ?_, le⟩
  simp only [Array.size_append, List.size_toArray, length_newlinesBetween, size, all]
  exact Nat.lt_add_of_pos_right (List.count_pos_iff.mpr mem)

/-- A scan past the end that does not overrun a source leaves it as it is. -/
theorem behind_scanTo_of_not_overruns {position : Int} (outside : source.length < position)
    (stays : ¬ (Call.scanTo position).Overruns source) : behind (scanTo position) source = source := by
  have notInside : ¬ position ≤ source.length := Int.not_le.mpr outside
  have all : source.chars.take position.toNat = source.chars :=
    List.take_of_length_le (Nat.le_of_lt (Int.lt_toNat.mpr outside))
  have none : source.newlinesBetween source.scanned position.toNat = [] := by
    rw [← List.length_eq_zero_iff, length_newlinesBetween, all]
    exact List.count_eq_zero.mpr fun mem => stays ⟨outside, mem⟩
  rw [behind_scanTo, if_neg notInside, none]
  split <;> simp

/-! ## What calls keep -/

/-- A query keeps a property of sources, whether it has an answer or none. -/
def Keeps {α : Type} (holds : Source → Prop) (query : Query α) : Prop :=
  ∀ source, holds source → holds (behind query source)

section Keeps

variable {α β : Type} {holds : Source → Prop} {query : Query α} {next : α → Query β}

theorem behind_bind (query : Query α) (next : α → Query β) (source : Source) :
    behind (query >>= next) source =
      match query source with
      | .ok value after => behind (next value) after
      | .error _ after => after := by
  simp only [behind, bind, EStateM.bind]
  cases query source <;> rfl

theorem keeps_pure (value : α) : Keeps holds (pure value) := fun _ kept => kept

theorem Keeps.bind (keeps : Keeps holds query) (more : ∀ value, Keeps holds (next value)) :
    Keeps holds (query >>= next) := by
  intro source kept
  have between := keeps source kept
  rw [behind_bind]
  unfold behind at between
  cases answer : query source with
  | ok value after =>
    rw [answer] at between
    exact more value after between
  | error e after =>
    rw [answer] at between
    exact between

theorem keeps_foldlM {step : β → α → Query β} (each : ∀ value item, Keeps holds (step value item))
    (items : List α) (value : β) : Keeps holds (items.foldlM step value) := by
  induction items generalizing value with
  | nil => exact keeps_pure value
  | cons item items ih =>
    rw [List.foldlM_cons]
    exact (each value item).bind ih

/-- The index of a line asks for a scan inside the text, or for nothing. -/
theorem behind_lineIndex (position : Int) (source : Source) :
    behind (lineIndex position) source =
      if 0 ≤ position ∧ position ≤ source.length then behind (scanTo position) source else source := by
  by_cases within : 0 ≤ position ∧ position ≤ source.length
  · rw [if_pos within]
    unfold lineIndex
    rw [behind_bind]
    show behind (if 0 ≤ position ∧ position ≤ source.length then _ else _) source = _
    rw [if_pos within, behind_bind]
    unfold behind
    cases scanTo position source with
    | error e after => rfl
    | ok value after =>
      show behind (if position = source.length then _ else _) after = after
      split <;> rfl
  · rw [if_neg within]
    unfold lineIndex
    rw [behind_bind]
    show behind (if 0 ≤ position ∧ position ≤ source.length then _ else _) source = _
    rw [if_neg within]
    rfl

/-- A diagnostic leaves what the index of its line leaves. -/
theorem behind_diagnosticAt (position stop : Int) (message : String) (source : Source) :
    behind (diagnosticAt position stop message) source = behind (lineIndex position) source := by
  unfold diagnosticAt
  rw [behind_bind]
  unfold behind
  cases lineIndex position source with
  | error e after => rfl
  | ok index after =>
    show behind (if _ then _ else _) after = after
    split <;> rfl

variable (stable : ∀ source, holds source → ∀ position : Int, position ≤ source.length →
  holds (behind (Source.scanTo position) source))

include stable

theorem keeps_diagnosticAt (position stop : Int) (message : String) :
    Keeps holds (diagnosticAt position stop message) := by
  intro source kept
  rw [behind_diagnosticAt, behind_lineIndex]
  split
  next within => exact stable source kept position within.2
  next => exact kept

theorem keeps_diagnostic (items : List (Option (Span × String))) : Keeps holds (diagnostic items) := by
  unfold diagnostic
  refine keeps_foldlM (fun shown item => ?_) _ _
  exact (keeps_diagnosticAt stable _ _ _).bind fun _ => keeps_pure _

/-- A property that scans inside the text keep is kept by every call but a scan past the end. -/
theorem Call.keeps (kept : holds source) (call : Call)
    (inside : ∀ position : Int, call = .scanTo position → position ≤ source.length) :
    holds (call.after source) := by
  cases call with
  | scanTo position => exact stable source kept position (inside position rfl)
  | lineIndex position =>
    show holds (behind (Source.lineIndex position) source)
    rw [behind_lineIndex]
    split
    next within => exact stable source kept position within.2
    next => exact kept
  | lineStart | lineEnd => exact kept
  | diagnosticAt position stop message => exact keeps_diagnosticAt stable position stop message source kept
  | diagnostic items => exact keeps_diagnostic stable items source kept

end Keeps

theorem Records.after (records : Records text source) {call : Call} (stays : ¬ call.Overruns source) :
    Records text (call.after source) := by
  by_cases outside : ∃ position : Int, call = .scanTo position ∧ source.length < position
  · obtain ⟨position, rfl, outside⟩ := outside
    show Records text (behind (Source.scanTo position) source)
    rwa [behind_scanTo_of_not_overruns outside stays]
  · refine Call.keeps (fun source records position within => ?_) records call ?_
    · exact Records.scanned records (records.chars ▸ within)
    · rintro position rfl
      exact Int.not_lt.mp fun less => outside ⟨position, rfl, less⟩

theorem Overfull.after (overfull : Overfull text source) (call : Call) : Overfull text (call.after source) := by
  by_cases isScan : ∃ position : Int, call = .scanTo position
  · obtain ⟨position, rfl⟩ := isScan
    exact overfull.scanned position
  · refine Call.keeps (fun _ overfull position _ => overfull.scanned position) overfull call ?_
    rintro position rfl
    exact absurd ⟨position, rfl⟩ isScan

theorem Overfull.afterAll (overfull : Overfull text source) (calls : List Call) :
    Overfull text (source.afterAll calls) := by
  induction calls generalizing source with
  | nil => exact overfull
  | cons call calls ih => exact ih (overfull.after call)

theorem overruns_cons {call : Call} {calls : List Call} :
    Overruns source (call :: calls) ↔ call.Overruns source ∨ Overruns (call.after source) calls := by
  constructor
  · rintro ⟨before, found, later, split, overruns⟩
    cases before with
    | nil =>
      obtain ⟨rfl, -⟩ := List.cons.inj split
      exact .inl overruns
    | cons first before =>
      obtain ⟨rfl, rfl⟩ := List.cons.inj split
      exact .inr ⟨before, found, later, rfl, overruns⟩
  · rintro (overruns | ⟨before, found, later, rfl, overruns⟩)
    · exact ⟨[], call, calls, rfl, overruns⟩
    · exact ⟨call :: before, found, later, rfl, overruns⟩

/-- A history keeps the record, or overruns the source and leaves a record with too many entries. -/
theorem Records.afterAll_cases (records : Records text source) (calls : List Call) :
    ¬ Overruns source calls ∧ Records text (source.afterAll calls) ∨
      Overruns source calls ∧ Overfull text (source.afterAll calls) := by
  induction calls generalizing source with
  | nil =>
    refine .inl ⟨?_, records⟩
    rintro ⟨before, call, later, split, -⟩
    simp at split
  | cons call calls ih =>
    rw [overruns_cons]
    by_cases overruns : call.Overruns source
    · have overfull : Overfull text (call.after source) := by
        cases call with
        | scanTo position => exact records.overfull overruns
        | lineIndex | lineStart | lineEnd | diagnosticAt | diagnostic => cases overruns
      exact .inr ⟨.inl overruns, overfull.afterAll calls⟩
    · have kept := ih (records.after overruns)
      simp only [overruns, false_or]
      exact kept

/-! ## Indices of lines -/

/-- The index of the line of a place: the number of newlines before it. The end of a text lies in the last line. -/
def lineOf (text : List Char) (place : Nat) : Nat :=
  let before := (text.take place).count '\n'
  if place = text.length ∧ text.getLast? = some '\n' then before - 1 else before

theorem lineOf_length (text : List Char) : lineOf text text.length =
    if text.getLast? = some '\n' then text.count '\n' - 1 else text.count '\n' := by
  simp [lineOf]

/-- A source tells the line of each place in a text. -/
def AnswersLines (text : List Char) (source : Source) : Prop :=
  ∀ place ≤ text.length, ∃ after, lineIndex place source = .ok (lineOf text place) after

/-- A scan inside the text has no fault. -/
theorem scanTo_eq_ok {position : Int} (within : position ≤ source.length) :
    scanTo position source = .ok () (behind (scanTo position) source) := by
  unfold behind scanTo
  by_cases known : position ≤ source.scanned
  · simp [known]
  · simp [known, within]

/-- The answer to a question about a place inside the text. -/
theorem lineIndex_eq_ok (within : place ≤ source.length) :
    let after := behind (scanTo place) source
    lineIndex place source = .ok
      (if place = source.length then (if source.endsLine then after.newlines.size - 1 else after.newlines.size)
        else countBefore after.newlines place) after := by
  have inside : 0 ≤ (place : Int) ∧ (place : Int) ≤ source.length := ⟨Int.natCast_nonneg _, by omega⟩
  show (lineIndex place).run source = .ok _ (behind (scanTo place) source)
  unfold lineIndex
  simp only [EStateM.run_bind, EStateM.run_get, if_pos inside]
  simp only [EStateM.run, scanTo_eq_ok inside.2, Int.ofNat_inj, Int.toNat_natCast]
  by_cases atEnd : place = source.length
  · rw [if_pos atEnd, if_pos atEnd]
    rfl
  · rw [if_neg atEnd, if_neg atEnd]
    rfl

/-- A record tells the lines of all places. -/
theorem Records.answersLines (records : Records text source) : AnswersLines text source := by
  intro place le
  obtain rfl := records.chars
  have le : place ≤ source.length := le
  have scanned := records.scanned (Int.ofNat_le.mpr le)
  have further : place ≤ (behind (scanTo place) source).scanned := by
    rw [behind_scanTo]
    split
    next known => exact Int.ofNat_le.mp known
    next => simp [le]
  refine ⟨_, (lineIndex_eq_ok le).trans (congrArg (EStateM.Result.ok · _) ?_)⟩
  by_cases atEnd : place = source.length
  · -- all of the text has been scanned
    have all : source.chars.take (behind (scanTo place) source).scanned = source.chars :=
      List.take_of_length_le (atEnd ▸ further)
    have size : (behind (scanTo place) source).newlines.size = source.chars.count '\n' := by
      rw [← Array.length_toList, scanned.newlines, length_newlinesFrom, all]
    have told : lineOf source.chars place = _ :=
      (congrArg (lineOf source.chars) atEnd).trans (lineOf_length source.chars)
    simp only [told, if_pos atEnd, size, endsLine, decide_eq_true_eq]
  · have notLength : ¬ place = source.chars.length := atEnd
    rw [if_neg atEnd, countBefore_eq (scanned.newlines ▸ increasing_newlinesFrom _ _), scanned.newlines,
      countP_newlinesFrom, List.take_take, Nat.min_eq_left further]
    simp [lineOf, notLength]

/-- With too many entries the line of the end of the text is told wrongly. -/
theorem Overfull.not_answersLines (overfull : Overfull text source) : ¬ AnswersLines text source := by
  intro answers
  obtain rfl := overfull.chars
  obtain ⟨after, told⟩ := answers source.length (Nat.le_refl _)
  have scanned := overfull.scanned source.length
  have all : source.chars.take (behind (scanTo source.length) source).scanned = source.chars := by
    apply List.take_of_length_le
    rw [behind_scanTo]
    split
    next known => exact Int.ofNat_le.mp known
    next => simp [length]
  have lt := scanned.lt_size
  rw [all] at lt
  rw [lineIndex_eq_ok (Nat.le_refl _)] at told
  have same := ((EStateM.Result.ok.inj told).1).trans (lineOf_length source.chars)
  rw [if_pos rfl, endsLine] at same
  by_cases ends : source.chars.getLast? = some '\n'
  · have pos : 0 < source.chars.count '\n' := List.count_pos_iff.mpr (List.mem_of_getLast? ends)
    simp only [ends, decide_true, if_true] at same
    omega
  · simp only [ends, decide_false, Bool.false_eq_true, if_false] at same
    omega

/-! ## Histories -/

/-- What a source has recorded is the list of the newlines of a text below the scanned length, in increasing order. -/
structure Faithful (text : List Char) (source : Source) : Prop where
  increasing : source.newlines.toList.Pairwise (· < ·)
  mem_iff : ∀ place, place ∈ source.newlines.toList ↔ place < source.scanned ∧ text[place]? = some '\n'
  scanned_le : source.scanned ≤ text.length

theorem Records.faithful (records : Records text source) : Faithful text source where
  increasing := records.newlines ▸ increasing_newlinesFrom _ _
  mem_iff place := records.newlines ▸ mem_newlinesFrom_take text source.scanned place
  scanned_le := records.scanned_le

/-- With too many entries a record is not faithful, for a faithful one has as many as there are newlines. -/
theorem Overfull.not_faithful (overfull : Overfull text source) : ¬ Faithful text source := by
  intro faithful
  have distinct : source.newlines.toList.Nodup := faithful.increasing.imp Nat.ne_of_lt
  have distinct' : (newlinesFrom (text.take source.scanned) 0).Nodup :=
    (increasing_newlinesFrom _ _).imp Nat.ne_of_lt
  have same : source.newlines.toList.Perm (newlinesFrom (text.take source.scanned) 0) := by
    rw [List.perm_ext_iff_of_nodup distinct distinct']
    exact fun place => (faithful.mem_iff place).trans (mem_newlinesFrom_take _ _ _).symm
  have size := same.length_eq
  rw [Array.length_toList, length_newlinesFrom] at size
  exact absurd overfull.lt_size (by omega)

theorem records_ofText (name text : String) : Records text.toList (ofText name text) where
  chars := rfl
  newlines := rfl
  scanned_le := Nat.zero_le _

/-- Behind a history of calls, those that fail included, a source has recorded just the newlines of what it has
scanned, and it tells the line of each place, if and only if no call of the history scans past the end of the text
and comes by a newline on its way. -/
theorem bookkeeping_survives_iff (name text : String) (calls : List Call) :
    (Faithful text.toList ((ofText name text).afterAll calls) ↔ ¬ Overruns (ofText name text) calls) ∧
      (AnswersLines text.toList ((ofText name text).afterAll calls) ↔ ¬ Overruns (ofText name text) calls) := by
  rcases (records_ofText name text).afterAll_cases calls with ⟨stays, records⟩ | ⟨overruns, overfull⟩
  · exact ⟨iff_of_true records.faithful stays, iff_of_true records.answersLines stays⟩
  · have notStays : ¬ ¬ Overruns (ofText name text) calls := not_not_intro overruns
    exact ⟨iff_of_false overfull.not_faithful notStays, iff_of_false overfull.not_answersLines notStays⟩

/-- A scan past the end has recorded the newline, but not that it has passed it. The next question for a line comes
by the newline again, and puts the end of the text into a third line. -/
theorem overrun_tells_wrong_line :
    let source := (ofText "t" "a\nb").afterAll [.scanTo 5]
    source.newlines = #[1] ∧ source.scanned = 0 ∧ ¬ Faithful "a\nb".toList source ∧
      (∃ after, lineIndex 3 source = .ok 2 after ∧ after.newlines = #[1, 1]) ∧ lineOf "a\nb".toList 3 = 1 := by
  refine ⟨by decide +kernel, by decide +kernel, fun faithful => ?_, ⟨_, rfl, by decide +kernel⟩, by decide +kernel⟩
  have less := ((faithful.mem_iff 1).mp (by decide +kernel)).1
  exact absurd less (by decide +kernel)

end Grammatic.Source
