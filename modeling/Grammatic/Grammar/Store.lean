import Grammatic.Grammar.Operators
import Grammatic.Grammar.Rule
import Grammatic.Text.Occurrence

/-!
# The store of grammars

A store holds all rules, operator tables, sets of words and grammars that are being built. Rules and
tables may be shared by any number of grammars. Everything that a rule refers to is in the store:
this is part of the type, and each operation that changes rules keeps it.
-/

namespace Grammatic

/-- What the rules of one grammar share. -/
structure Grammar where
  /-- The words that identifiers must not be, unless they have words of their own. -/
  words : Words
  /-- The operators that belong to the grammar. -/
  table : TableId
  /-- The kind of the token that ends a text. -/
  endKind : TokenKind := Token.endOfText
  /-- All kinds of token, if they are known. -/
  tokenKinds : Option StringSet := none
  deriving DecidableEq, Repr

/-- Rules, operator tables, sets of words and grammars. -/
structure Store where
  rules : Array Rule := #[]
  tables : Array OperatorTable := #[]
  wordSets : Array StringSet := #[]
  grammars : Array Grammar := #[]
  closed : ∀ rule ∈ rules, rule.within rules.size tables.size := by simp

namespace Store

/-- The operators that a rule refers to. -/
def tableOf? (store : Store) (rule : Rule) : Option OperatorTable :=
  rule.table.bind (store.tables[·]?)

/-- Whether a collection of words contains one. -/
def hasWord (store : Store) (words : Words) (word : String) : Bool :=
  match words with
  | .shared id => store.wordSets[id]?.any (·.contains word)
  | .fixed set => set.contains word
  | .within text => Text.occurs word text

/-- A collection of words as a set. The set of a text is that of its characters. -/
def wordSet (store : Store) (words : Words) : StringSet :=
  match words with
  | .shared id => store.wordSets[id]?.getD .empty
  | .fixed set => set
  | .within text => .ofCharacters text

/-- Whether a sequence captures the value of a component. -/
def captures (store : Store) (id : RuleId) : Bool :=
  store.rules[id]?.any Rule.captures

/-- The number of components of a rule whose values are captured. -/
def captureCount (store : Store) (rule : Rule) : Nat :=
  rule.children.countP store.captures

/-- The text of a list of kinds. -/
def shownKinds (kinds : List TokenKind) : String :=
  "[" ++ ", ".intercalate (kinds.map Text.quoted) ++ "]"

/-- The text of a rule: its kind, and those of its parts that it has. -/
def shownRule (store : Store) (rule : Rule) : String :=
  let tag := rule.tag.map fun tag => "tag=" ++ Text.quoted tag
  let kinds := if rule.kinds.isEmpty then none else some ("kinds=" ++ shownKinds rule.kinds.toList)
  let table := (store.tableOf? rule).map fun table => "operators=" ++ table.shown
  let children :=
    if rule.children = [] then none else some ("children=" ++ toString rule.children.length)
  "Rule(" ++ ", ".intercalate (rule.kind.name :: [tag, kinds, table, children].filterMap id) ++ ")"

/-- A store with one more rule, whose parts are in the store. -/
def pushRule (store : Store) (rule : Rule) (h : rule.within store.rules.size store.tables.size) :
    Store :=
  { store with
    rules := store.rules.push rule
    closed := fun other hother => by
      rw [Array.size_push]
      rcases Array.mem_push.mp hother with hold | rfl
      · exact Rule.within_mono (store.closed other hold) (Nat.le_succ _) (Nat.le_refl _)
      · exact Rule.within_mono h (Nat.le_succ _) (Nat.le_refl _) }

/-- A store in which every rule has been changed, but not what it refers to. -/
def mapRules (store : Store) (change : RuleId → Rule → Rule)
    (keeps : ∀ id rule, (change id rule).children = rule.children ∧
      (change id rule).table = rule.table) : Store :=
  { store with
    rules := store.rules.mapIdx change
    closed := fun other hother => by
      rw [Array.size_mapIdx]
      obtain ⟨i, hi, rfl⟩ := Array.mem_mapIdx.mp hother
      have := store.closed _ (Array.getElem_mem hi)
      simpa only [Rule.within, (keeps _ _).1, (keeps _ _).2] using this }

/-- A store in which one rule has one more component, which is in the store. -/
def addChild (store : Store) (parent child : RuleId) (h : child < store.rules.size) : Store :=
  { store with
    rules := store.rules.modify parent fun rule =>
      { rule with children := rule.children ++ [child] }
    closed := fun other hother => by
      rw [Array.size_modify]
      obtain ⟨i, hi, rfl⟩ := Array.mem_iff_getElem.mp hother
      rw [Array.getElem_modify]
      rw [Array.size_modify] at hi
      have old := store.closed _ (Array.getElem_mem hi)
      split
      · simp only [Rule.within, List.all_append, Bool.and_eq_true, List.all_cons, List.all_nil,
          decide_eq_true_eq] at old ⊢
        exact ⟨⟨old.1, h, trivial⟩, old.2⟩
      · exact old }

/-- A store with other operator tables, as many as before. -/
def mapTables (store : Store) (change : TableId → OperatorTable → OperatorTable) : Store :=
  { store with
    tables := store.tables.mapIdx change
    closed := fun rule h => by rw [Array.size_mapIdx]; exact store.closed rule h }

/-- A store with one more operator table. -/
def pushTable (store : Store) (table : OperatorTable) : Store :=
  { store with
    tables := store.tables.push table
    closed := fun rule h => by
      rw [Array.size_push]
      exact Rule.within_mono (store.closed rule h) (Nat.le_refl _) (Nat.le_succ _) }

end Store

end Grammatic
