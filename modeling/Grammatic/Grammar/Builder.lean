import Grammatic.Grammar.Definition

/-!
# Building grammars

Rules are declared step by step. `newRule` makes a sequence without components, which other rules
can refer to at once; each builder appends one component to a sequence. A call checks all its
arguments before it changes the store, so a call that fails changes nothing.

The arguments are plain data. They are checked in the order in which they are given, except that
the operators of an expression are looked at before its tag.
-/

namespace Grammatic

/-- A step in the building of grammars. -/
abbrev Building := EStateM DefinitionError Store

namespace Building

/-- A check as a step that changes nothing. -/
def check {α : Type} (result : Except DefinitionError α) : Building α :=
  match result with
  | .ok value => pure value
  | .error e => throw e

/-- The number of a rule of the store. -/
def ruleOf (argument : Argument) : Building RuleId := do
  match argument with
  | .other value => throw (.notRule value)
  | .item id => if id < (← get).rules.size then return id else throw (.unknownItem id)

/-- The number of an operator table of the store. -/
def tableOf (argument : Argument) : Building TableId := do
  match argument with
  | .other value => throw (.notOperators value)
  | .item id => if id < (← get).tables.size then return id else throw (.unknownItem id)

/-- Puts a rule into the store. -/
def addRule (rule : Rule) : Building RuleId := fun store =>
  if h : rule.within store.rules.size store.tables.size then
    .ok store.rules.size (store.pushRule rule h)
  else .error (.unknownItem store.rules.size) store

/-- A new sequence without components, with a tag unless the tag is missing. -/
def newRule (tag : Datum := .scalar .absent) : Building RuleId := do
  match tag with
  | .scalar .absent => addRule { kind := .sequence }
  | _ => addRule { kind := .sequence, tag := some (← check (validTag tag)) }

/-- Appends a component to a sequence. -/
def append (parent : RuleId) (component : Rule) : Building Unit := fun store =>
  match store.rules[parent]? with
  | none => .error (.unknownItem parent) store
  | some rule =>
    if rule.frozen then .error (.frozenRule parent) store
    else if rule.kind ≠ .sequence then .error (.notSequence parent) store
    else if component.captures ∧ rule.tag = none ∧ store.captureCount rule ≠ 0 then
      .error (.capturesMany parent) store
    else if h : component.within store.rules.size store.tables.size then
      .ok () ((store.pushRule component h).addChild parent store.rules.size
        (by simp [Store.pushRule]))
    else .error (.unknownItem parent) store

/-- Requires a token of one of the kinds, whose value is not captured. -/
def delimiter (parent : RuleId) (kinds : List Datum) : Building Unit := do
  if kinds.isEmpty then throw .noDelimiters
  let kinds ← check (kinds.mapM validKind)
  append parent { kind := .terminal, kinds := .ofList kinds }

/-- Requires a sub-rule, and captures its value. -/
def capture (parent : RuleId) (sub : Argument) : Building Unit := do
  append parent { kind := .capture, children := [← ruleOf sub] }

/-- Captures the value of a sub-rule if it matches, or else nothing. -/
def optional (parent : RuleId) (sub : Argument) : Building Unit := do
  append parent { kind := .optional, children := [← ruleOf sub] }

/-- Captures the list of the values of a sub-rule, as often as it matches. -/
def repetition (parent : RuleId) (sub : Argument) : Building Unit := do
  append parent { kind := .repetition, children := [← ruleOf sub] }

/-- Captures the value of the first alternative that matches. -/
def choice (parent : RuleId) (alternatives : List Argument) : Building Unit := do
  if alternatives.isEmpty then throw .noAlternatives
  append parent { kind := .alternation, children := ← alternatives.mapM ruleOf }

/-- Requires a token of one of the kinds, and captures a node of the value that it is read as. -/
def literal (parent : RuleId) (tag : Datum) (kinds : List Datum) (literal : Literal)
    (reserved : Reserved := .none) : Building Unit := do
  let tag ← check (validTag tag)
  let kinds ← check (kinds.mapM validKind)
  append parent
    { kind := .terminal
      tag := some tag
      kinds := .ofList kinds
      literal := some literal
      reserved }

/-- Captures a number. -/
def number (parent : RuleId) (tag : Datum) (kind : Datum := "number") : Building Unit :=
  literal parent tag [kind] .number

/-- Captures a name that is none of the reserved words. -/
def identifier (parent : RuleId) (tag : Datum) (reserved : Reserved := .ofGrammar)
    (kind : Datum := "name") : Building Unit :=
  literal parent tag [kind] .name reserved

/-- Captures a quoted string. -/
def string (parent : RuleId) (tag : Datum) (kind : Datum := "string") : Building Unit :=
  literal parent tag [kind] .string

/-- Captures a truth value. -/
def truth (parent : RuleId) (tag : Datum) (trueKind : Datum := "true")
    (falseKind : Datum := "false") : Building Unit :=
  literal parent tag [trueKind, falseKind] (.truth (trueKind.text?.getD ""))

/-- Captures nothing, as a literal. -/
def null (parent : RuleId) (tag : Datum) (kind : Datum := "null") : Building Unit :=
  literal parent tag [kind] .null

/-- Captures an expression of binary operators over an operand. -/
def expression (parent : RuleId) (tag : Datum) (operand operators : Argument) : Building Unit := do
  let table ← tableOf operators
  let tag ← check (validTag tag)
  append parent
    { kind := .expression, tag := some tag, children := [← ruleOf operand], table := some table }

/-- A new operator table. -/
def newTable (entries : List (Datum × Datum × AssocArgument)) : Building TableId := fun store =>
  match OperatorTable.ofList entries with
  | .ok table => .ok store.tables.size (store.pushTable table)
  | .error e => .error (.operator e) store

/-- Adds an operator to a table. -/
def addOperator (id : TableId) (kind precedence : Datum)
    (assoc : AssocArgument := .assoc .left) : Building Unit := fun store =>
  match store.tables[id]? with
  | none => .error (.unknownItem id) store
  | some table =>
    match table.add kind precedence assoc with
    | .ok table => .ok () (store.mapTables fun i old => if i = id then table else old)
    | .error e => .error (.operator e) store

/-- Freezes a table. -/
def freezeTable (id : TableId) : Building Unit :=
  modify (·.mapTables fun i table => if i = id then { table with frozen := true } else table)

/-- A new set of words that can still grow. -/
def newWords (words : List String) : Building WordsId := fun store =>
  .ok store.wordSets.size { store with wordSets := store.wordSets.push (.ofList words) }

/-- Adds a word to a set of words. -/
def addWord (id : WordsId) (word : String) : Building Unit :=
  modify fun store => { store with wordSets := store.wordSets.modify id (·.insert word) }

/-- A new grammar. -/
def newGrammar (grammar : Grammar) : Building GrammarId := fun store =>
  .ok store.grammars.size { store with grammars := store.grammars.push grammar }

end Building

end Grammatic
