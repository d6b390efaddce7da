import Grammatic.Grammar.Builder
import Grammatic.Lexer.Basic

/-!
# Compiling grammars

A parser is a compiled grammar. Compilation visits every rule that is reachable from the root,
checks it, and then freezes the rules, their operator tables and their words, so that nothing that
is built later changes what the parser matches. A compilation that fails changes nothing.
-/

namespace Grammatic

namespace Store

/-- The sub-rules of a rule. -/
def childrenOf (store : Store) (id : RuleId) : List RuleId :=
  (store.rules[id]?.map (·.children)).getD []

/-- Walks a graph depth first from the rules on a stack. `seen` holds the rules visited so far, the
last one first. -/
def walk (children : RuleId → List RuleId) : Nat → List RuleId → List RuleId → List RuleId
  | 0, _, seen => seen.reverse
  | _ + 1, [], seen => seen.reverse
  | steps + 1, id :: stack, seen =>
    if id ∈ seen then walk children steps stack seen
    else walk children steps (children id ++ stack) (id :: seen)

/-- A bound on the steps of a walk: every reference of every rule is followed once at most. -/
def walkSteps (store : Store) : Nat :=
  store.rules.foldl (fun n rule => n + rule.children.length) 2

/-- Every rule reachable from a root, each once, in depth-first order. -/
def reachable (store : Store) (root : RuleId) : List RuleId :=
  walk store.childrenOf store.walkSteps [root] []

/-- Checks that the kinds that a rule refers to are known, if it is known which kinds there are. -/
def checkKinds (known : Option StringSet) (id : RuleId) (kinds : List TokenKind) :
    Except DefinitionError Unit :=
  match known with
  | none => .ok ()
  | some known =>
    match kinds.find? fun kind => !known.contains kind with
    | some kind => .error (.unknownKind id kind)
    | none => .ok ()

/-- Checks a rule by its kind. -/
def checkRule (store : Store) (known : Option StringSet) (id : RuleId) (rule : Rule) :
    Except DefinitionError Unit :=
  match rule.kind with
  | .sequence =>
    if rule.tag = none ∧ rule.children = [] then .error (.placeholder id)
    else if rule.tag = none ∧ 1 < store.captureCount rule then .error (.capturesMany id)
    else .ok ()
  | .terminal =>
    if rule.kinds.isEmpty then .error (.matchesNothing id)
    else checkKinds known id rule.kinds.toList
  | .alternation => if rule.children = [] then .error (.withoutAlternatives id) else .ok ()
  | .expression =>
    match store.tableOf? rule with
    | none => .error (.incompleteExpression id)
    | some table =>
      if rule.children.length ≠ 1 ∨ rule.tag = none then .error (.incompleteExpression id)
      else if table.entries = [] then .error (.emptyTable id)
      else checkKinds known id table.kinds
  | .optional | .repetition | .capture =>
    if rule.children.length ≠ 1 then .error (.notOneSubRule id) else .ok ()

/-- Checks the rule with a number. -/
def checkRuleAt (store : Store) (known : Option StringSet) (id : RuleId) :
    Except DefinitionError Unit :=
  match store.rules[id]? with
  | some rule => store.checkRule known id rule
  | none => .error (.unknownItem id)

/-- Words that nobody can add to any more. -/
def fixWords (store : Store) (words : Words) : Words :=
  .fixed (store.wordSet words)

/-- Reserved words that nobody can add to any more. -/
def fixReserved (store : Store) : Reserved → Reserved
  | .words words => .words (store.fixWords words)
  | other => other

/-- Freezes rules, the operator tables they refer to, and the table and words of a grammar. -/
def freeze (store : Store) (id : GrammarId) (rules : List RuleId) : Store :=
  let tables := (store.grammars[id]?.map (·.table)).toList ++
    rules.filterMap fun rule => store.rules[rule]?.bind (·.table)
  let frozen := store.mapRules
    (fun i rule =>
      { rule with
        frozen := i ∈ rules || rule.frozen
        reserved := if i ∈ rules then store.fixReserved rule.reserved else rule.reserved })
    fun _ _ => ⟨rfl, rfl⟩
  let frozen := frozen.mapTables fun i table =>
    { table with frozen := i ∈ tables || table.frozen }
  { frozen with
    grammars := frozen.grammars.modify id fun g => { g with words := store.fixWords g.words } }

end Store

/-- A compiled grammar. Its rules and words stay in the store that it was compiled in. -/
structure Parser where
  grammar : GrammarId
  root : RuleId
  /-- The lexer that makes the tokens, if there is one. -/
  lexer : Option Lexer
  /-- All kinds of token, if they are known. -/
  tokenKinds : Option StringSet
  /-- The rules reachable from the root. -/
  rules : List RuleId

namespace Building

/-- Compiles a grammar from a root rule. -/
def compile (id : GrammarId) (root : Argument) (lexer : Option Lexer := none) :
    Building Parser := do
  let root ← ruleOf root
  let store ← get
  match store.grammars[id]? with
  | none => throw (.unknownItem id)
  | some grammar =>
    let known := grammar.tokenKinds.or (lexer.map (·.kinds))
    if known.any fun known => !known.contains grammar.endKind then
      throw (.endKindUnknown grammar.endKind)
    let rules := store.reachable root
    check (rules.forM (store.checkRuleAt known))
    set (store.freeze id rules)
    return { grammar := id, root, lexer, tokenKinds := known, rules }

end Building

end Grammatic
