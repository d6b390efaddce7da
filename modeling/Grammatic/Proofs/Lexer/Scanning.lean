import Grammatic.Lexer.Basic
import Grammatic.Proofs.Pattern.Matching

/-!
# Scanning

Each token of a text is invalid, or it is the text of a match and has the kind that the lexer gives to the
name of the match (`exists_of_step`). So all kinds come from the groups of the pattern and from the keyword
table.

Where each alternative of the pattern is a group with a name that takes at least one character
(`Pattern.isTable`), every text is split up to its end, and each valid token is the text of one
alternative.
-/

namespace Grammatic

namespace Pattern

/-- The alternatives of a pattern. -/
def branches : Pattern → List Pattern
  | .alt p q => p.branches ++ q.branches
  | p => [p]

/-- Whether each alternative is a group with a name that takes at least one character. -/
def isTable (p : Pattern) : Bool :=
  p.branches.all fun
    | .group (some _) inner => 0 < inner.leastLength
    | _ => false

variable {flags : Flags} {p : Pattern} {next : Continuation} {start result found : Match}
  {cursor : Cursor}

/-- A run that succeeds is the run of an alternative. -/
theorem exists_branch_of_run (ran : p.run flags next start = some result) :
    ∃ branch ∈ p.branches, branch.run flags next start = some result := by
  induction p with
  | alt p q ihp ihq =>
    rcases orElse_cases ran with ran | ran
    · obtain ⟨branch, mem, ran⟩ := ihp ran
      exact ⟨branch, List.mem_append_left _ mem, ran⟩
    · obtain ⟨branch, mem, ran⟩ := ihq ran
      exact ⟨branch, List.mem_append_right _ mem, ran⟩
  | empty | set | check | seq | group | repeated | ahead | behind | atomic | under =>
    exact ⟨_, List.mem_singleton_self _, ran⟩

/-- A match of a table is that of one of its groups, whose name it has. -/
theorem exists_group_of_matchAt (table : p.isTable = true) (matched : p.matchAt flags cursor = some found) :
    ∃ label inner text, .group (some label) inner ∈ p.branches ∧ inner.Allows flags text ∧ text ≠ [] ∧
      cursor.Passes text found.cursor ∧ found.lastGroup = some label := by
  obtain ⟨branch, mem, ran⟩ := exists_branch_of_run matched
  have isGroup := List.all_eq_true.mp table branch mem
  split at isGroup
  next label inner =>
    obtain ⟨text, stop, takes, same⟩ := exists_of_run (p := inner) ran
    obtain rfl := Option.some.inj same
    have length := takes.allows.leastLength_le
    have some : text ≠ [] := by
      rintro rfl
      exact absurd (of_decide_eq_true isGroup) (Nat.not_lt.mpr length)
    exact ⟨label, inner, text, mem, takes.allows, some, takes.passes, rfl⟩
  next => cases isGroup

/-- A match that is found without passing anything over is one at the place itself. -/
theorem matchAt_of_search (searched : p.search flags cursor = some (0, found)) :
    p.matchAt flags cursor = some found := by
  obtain ⟨before, rest, position⟩ := cursor
  unfold search at searched
  cases rest with
  | nil =>
    obtain ⟨m, matched, same⟩ := Option.map_eq_some_iff.mp searched
    rw [matched, (Prod.mk.inj same).2]
  | cons c rest =>
    simp only [searchFrom] at searched
    split at searched
    next m matched =>
      rw [matched, (Prod.mk.inj (Option.some.inj searched)).2]
    next =>
      obtain ⟨⟨n, m⟩, -, same⟩ := Option.map_eq_some_iff.mp searched
      exact absurd (Prod.mk.inj same).1 (Nat.succ_ne_zero n)

/-- A match at the place itself is found first. -/
theorem search_of_matchAt (matched : p.matchAt flags cursor = some found) :
    p.search flags cursor = some (0, found) := by
  obtain ⟨before, rest, position⟩ := cursor
  unfold search
  cases rest with
  | nil => simp only [searchFrom, matched, Option.map_some]
  | cons c rest => simp only [searchFrom, matched]

end Pattern

namespace Lexer

variable {lexer : Lexer} {cursor next : Cursor} {token : Token} {fault : LexFault}

/-- The next token is invalid, or it is the text of a match and has the kind of its name. -/
theorem exists_of_step (stepped : lexer.step cursor = .ok (token, next)) :
    token.kind = Token.invalid ∨ ∃ found label, lexer.pattern.matchAt lexer.flags cursor = some found ∧
      found.lastGroup = some label ∧ token.kind = lexer.kindOf label token.text ∧
      ∀ text, cursor.Passes text found.cursor → token.text = String.ofList text := by
  unfold step at stepped
  split at stepped
  next =>
    obtain ⟨rfl, -⟩ := Prod.mk.inj (Except.ok.inj stepped)
    exact .inl rfl
  next found searched =>
    split at stepped
    next => cases stepped
    next =>
      split at stepped
      next => cases stepped
      next label named =>
        obtain ⟨rfl, -⟩ := Prod.mk.inj (Except.ok.inj stepped)
        refine .inr ⟨found, label, Pattern.matchAt_of_search searched, named, rfl, ?_⟩
        intro text passes
        show String.ofList _ = _
        rw [passes.2, Nat.add_sub_cancel_left, passes.1, List.take_left]
  next =>
    obtain ⟨rfl, -⟩ := Prod.mk.inj (Except.ok.inj stepped)
    exact .inl rfl

/-- A fault is a match without characters, or one without a name. -/
theorem exists_of_step_error (stepped : lexer.step cursor = .error fault) :
    ∃ found, lexer.pattern.matchAt lexer.flags cursor = some found ∧
      (found.cursor.position = cursor.position ∨ found.lastGroup = none) := by
  unfold step at stepped
  split at stepped
  next => cases stepped
  next found searched =>
    refine ⟨found, Pattern.matchAt_of_search searched, ?_⟩
    split at stepped
    next same => exact .inl same
    next =>
      split at stepped
      next unnamed => exact .inr unnamed
      next => cases stepped
  next => cases stepped

/-- Each token of a text is the next one at some place. -/
theorem exists_step_of_mem_scan {budget : Nat} (mem : token ∈ (lexer.scan budget cursor).tokens) :
    ∃ place next, lexer.step place = .ok (token, next) := by
  induction budget generalizing cursor with
  | zero => cases mem
  | succ budget ih =>
    unfold scan at mem
    split at mem
    next => cases mem
    next =>
      split at mem
      next => cases mem
      next first behind stepped =>
        rcases List.mem_cons.mp mem with rfl | mem
        · exact ⟨cursor, behind, stepped⟩
        · exact ih mem

theorem exists_step_of_scan_fault {budget : Nat} (faulted : (lexer.scan budget cursor).fault = some fault) :
    ∃ place, lexer.step place = .error fault := by
  induction budget generalizing cursor with
  | zero => cases faulted
  | succ budget ih =>
    unfold scan at faulted
    split at faulted
    next => cases faulted
    next =>
      split at faulted
      next cause stepped =>
        obtain rfl := Option.some.inj faulted
        exact ⟨cursor, stepped⟩
      next => exact ih faulted

/-- A text that is matched up to its end is one token. -/
theorem tile_of_matchAt {text : List Char} {label : String} (nonempty : text ≠ [])
    (matched : lexer.pattern.matchAt lexer.flags (.start text) =
      some ⟨(Cursor.start text).toEnd, some label⟩) :
    lexer.tile (String.ofList text) =
      ⟨[.ofText (lexer.kindOf label (String.ofList text)) (String.ofList text) 0], none⟩ := by
  have atEnd : (Cursor.start text).toEnd.position = text.length := Nat.zero_add _
  have moves : text.length ≠ 0 := by
    rwa [ne_eq, List.length_eq_zero_iff]
  have first : lexer.step (.start text) = .ok (tokenOf (lexer.kindOf label) (.start text) text.length) := by
    simp only [step, Pattern.search_of_matchAt matched, atEnd]
    simp [Cursor.start, moves]
  have behind (budget : Nat) (before : List Char) (position : Nat) :
      lexer.scan budget ⟨before, [], position⟩ = ⟨[], none⟩ := by
    cases budget <;> rfl
  have begins : (Cursor.start text).rest ≠ [] := nonempty
  obtain ⟨budget, isSucc⟩ := Nat.exists_eq_succ_of_ne_zero moves
  rw [tile, String.toList_ofList, isSucc, scan, if_neg begins, first]
  simp [tokenOf, Cursor.start, behind]

/-- The tokens of a text that are of no dropped kind. -/
def kept (lexer : Lexer) (text : String) : List Token :=
  (lexer.tile text).tokens.filter fun token => !lexer.drop.contains token.kind

theorem mem_tile_of_mem_kept {text : String} (mem : token ∈ lexer.kept text) :
    token ∈ (lexer.tile text).tokens :=
  (List.mem_filter.mp mem).1

/-- The kind of a match is its name, or that of the keyword that its text is. -/
theorem kindOf_eq_or_mem (lexer : Lexer) (label text : String) :
    lexer.kindOf label text = label ∨ (text, lexer.kindOf label text) ∈ lexer.keywords := by
  unfold kindOf
  split
  next =>
    cases found : lexer.keywords.lookup text with
    | none => exact .inl rfl
    | some keyword =>
      obtain ⟨before, after, split, -⟩ := List.lookup_eq_some_iff.mp found
      exact .inr (by simp [split])
  next => exact .inl rfl

theorem kindOf_cases (lexer : Lexer) (label text : String) :
    lexer.kindOf label text = label ∨ lexer.kindOf label text ∈ lexer.keywords.map (·.2) :=
  (lexer.kindOf_eq_or_mem label text).imp_right (List.mem_map_of_mem (f := Prod.snd))

/-- A kind comes from a group of the pattern or from the keyword table, or it is that of invalid text. -/
theorem kind_cases_of_mem_tile {text : String} (mem : token ∈ (lexer.tile text).tokens) :
    token.kind = Token.invalid ∨ token.kind ∈ lexer.pattern.labels ∨
      token.kind ∈ lexer.keywords.map (·.2) := by
  obtain ⟨place, next, stepped⟩ := exists_step_of_mem_scan mem
  rcases exists_of_step stepped with invalid | ⟨found, label, matched, named, kind, -⟩
  · exact .inl invalid
  · right
    obtain ⟨_, takes⟩ := Pattern.takes_of_matchAt matched
    have known : label ∈ lexer.pattern.labels := (takes.label label named).resolve_left (by simp)
    rw [kind]
    rcases lexer.kindOf_cases label token.text with same | keyword
    · exact .inl (same.symm ▸ known)
    · exact .inr keyword

/-! ## Tables -/

section Table

variable (table : lexer.pattern.isTable = true)

include table

/-- A lexer whose pattern is a table splits every text. -/
theorem tile_fault_eq_none (text : String) : (lexer.tile text).fault = none := by
  cases faulted : (lexer.tile text).fault with
  | none => rfl
  | some fault =>
    obtain ⟨place, stepped⟩ := exists_step_of_scan_fault faulted
    obtain ⟨found, matched, cause⟩ := exists_of_step_error stepped
    obtain ⟨label, inner, text, -, -, some, passes, named⟩ :=
      Pattern.exists_group_of_matchAt table matched
    rcases cause with same | unnamed
    · have length := List.length_pos_iff.mpr some
      have := passes.2
      omega
    · cases named.symm.trans unnamed

/-- A valid token is the text of an alternative. -/
theorem exists_group_of_mem_tile {text : String} (mem : token ∈ (lexer.tile text).tokens) :
    token.kind = Token.invalid ∨ ∃ label inner chars, .group (some label) inner ∈ lexer.pattern.branches ∧
      inner.Allows lexer.flags chars ∧ token.text = String.ofList chars ∧
      token.kind = lexer.kindOf label token.text := by
  obtain ⟨place, next, stepped⟩ := exists_step_of_mem_scan mem
  rcases exists_of_step stepped with invalid | ⟨found, label, matched, named, kind, isText⟩
  · exact .inl invalid
  · obtain ⟨label', inner, chars, mem, allows, -, passes, named'⟩ :=
      Pattern.exists_group_of_matchAt table matched
    obtain rfl := Option.some.inj (named.symm.trans named')
    exact .inr ⟨label, inner, chars, mem, allows, isText chars passes, kind⟩

end Table

end Lexer

end Grammatic
