import Grammatic.Text.CharClass

/-!
# Patterns

The syntax of the regular expressions that a lexer is made of, and the meaning of its leaves: which
characters a set contains, and where an assertion holds. Flags belong to the reading of a whole
pattern; those that act on leaves are given to the functions of this module, and those that act on
the text of a pattern (`.`, `^`, `$` and blanks) are settled when the text is read.
-/

namespace Grammatic

/-- The flags of a pattern. -/
structure Flags where
  /-- The classes `\d`, `\s`, `\w` and the word boundaries know basic characters only. -/
  ascii : Bool := false
  /-- Letters match in any case; if the classes know basic characters only, basic letters do. -/
  ignoreCase : Bool := false
  /-- `^` and `$` also hold at the newlines inside a text. -/
  multiline : Bool := false
  /-- `.` also matches a newline. -/
  dotAll : Bool := false
  /-- The classes know all characters, as they do without flags. -/
  unicode : Bool := false
  /-- Blanks and comments in the text of a pattern are skipped. -/
  verbose : Bool := false
  deriving DecidableEq, Repr, Inhabited

namespace Flags

/-- The flags with the one of a letter switched on. -/
def switchOn (flags : Flags) : Char → Option Flags
  | 'a' => some { flags with ascii := true }
  | 'i' => some { flags with ignoreCase := true }
  | 'm' => some { flags with multiline := true }
  | 's' => some { flags with dotAll := true }
  | 'u' => some { flags with unicode := true }
  | 'x' => some { flags with verbose := true }
  | _ => none

/-- Flags that no pattern can be read with. -/
def conflict (flags : Flags) : Bool := flags.ascii && flags.unicode

/-- The flags with the one of a letter on or off. The letters for the classes exclude each other. -/
def turned (on : Bool) (flags : Flags) : Char → Flags
  | 'a' => { flags with ascii := on, unicode := !on }
  | 'i' => { flags with ignoreCase := on }
  | 'm' => { flags with multiline := on }
  | 's' => { flags with dotAll := on }
  | 'u' => { flags with unicode := on, ascii := !on }
  | 'x' => { flags with verbose := on }
  | _ => flags

/-- The flags where some letters are turned on, and then others off. -/
def changed (flags : Flags) (on off : List Char) : Flags :=
  off.foldl (turned false) (on.foldl (turned true) flags)

end Flags

/-- The classes of characters that have an escape. -/
inductive CharClass where
  | digit
  | space
  | word
  deriving DecidableEq, Repr

/-- Whether a class contains a character. -/
def CharClass.contains (flags : Flags) (c : Char) : CharClass → Bool
  | .digit => if flags.ascii then Text.isBasicDigit c else Text.isDigit c
  | .space => if flags.ascii then Text.isBasicSpace c else Text.isSpace c
  | .word =>
    if flags.ascii then Text.isBasicLetter c || Text.isBasicDigit c || c = '_' else Text.isWord c

/-- A part of a character set. -/
inductive SetItem where
  | range (first last : Char)
  /-- A class, or all that is outside it. -/
  | ofClass (cls : CharClass) (negated : Bool)
  deriving DecidableEq, Repr

/-- A set of characters: those in one of the items, or all others. -/
structure CharSet where
  negated : Bool
  items : List SetItem
  deriving DecidableEq, Repr

/-- The characters that a character stands for under the flags. -/
def caseVariants (flags : Flags) (c : Char) : List Char :=
  if !flags.ignoreCase then [c]
  else if flags.ascii then [c, Text.otherBasicCase c]
  else Text.caseForms c

/-- Whether an item of a set contains a character. -/
def SetItem.contains (flags : Flags) (c : Char) : SetItem → Bool
  | .range first last => (caseVariants flags c).any fun v => first ≤ v && v ≤ last
  | .ofClass cls negated => cls.contains flags c != negated

/-- Whether a set contains a character. -/
def CharSet.contains (flags : Flags) (set : CharSet) (c : Char) : Bool :=
  set.items.any (·.contains flags c) != set.negated

/-- The set of one character. -/
def CharSet.single (c : Char) : CharSet := ⟨false, [.range c c]⟩

/-- The set of all characters but some. -/
def CharSet.allBut (excluded : List Char) : CharSet := ⟨true, excluded.map fun c => .range c c⟩

/-- Conditions on a place in a text. -/
inductive Assertion where
  | textStart
  /-- After nothing, or after a newline. -/
  | lineStart
  | textEnd
  /-- Before nothing, or before a newline that ends the text. -/
  | lastLineEnd
  /-- Before nothing, or before a newline. -/
  | lineEnd
  | wordBoundary
  | insideWord
  deriving DecidableEq, Repr

/-- A place in a text: the characters before it, the nearest first, the characters after it, and its
position. -/
structure Cursor where
  before : List Char
  rest : List Char
  position : Nat
  deriving DecidableEq, Repr

namespace Cursor

/-- The start of a text. -/
def start (text : List Char) : Cursor := ⟨[], text, 0⟩

/-- The place behind the next character. -/
def next? (cursor : Cursor) : Option (Char × Cursor) :=
  match cursor.rest with
  | [] => none
  | c :: rest => some (c, ⟨c :: cursor.before, rest, cursor.position + 1⟩)

/-- The place some characters before another, if there are as many. -/
def back? (cursor : Cursor) : Nat → Option Cursor
  | 0 => some cursor
  | count + 1 =>
    match cursor.before with
    | [] => none
    | c :: before => back? ⟨before, c :: cursor.rest, cursor.position - 1⟩ count

/-- Whether just one of the characters around a place is a word character. -/
def atWordBoundary (flags : Flags) (cursor : Cursor) : Bool :=
  let isWord := fun (c : Option Char) => c.any fun c => CharClass.word.contains flags c
  isWord cursor.before.head? != isWord cursor.rest.head?

end Cursor

/-- Whether a condition holds at a place. -/
def Assertion.holds (flags : Flags) (cursor : Cursor) : Assertion → Bool
  | .textStart => cursor.before.isEmpty
  | .lineStart => cursor.before.isEmpty || cursor.before.head? = some '\n'
  | .textEnd => cursor.rest.isEmpty
  | .lastLineEnd => cursor.rest.isEmpty || cursor.rest = ['\n']
  | .lineEnd => cursor.rest.isEmpty || cursor.rest.head? = some '\n'
  | .wordBoundary => cursor.atWordBoundary flags
  | .insideWord => !cursor.atWordBoundary flags

/-- A regular expression. -/
inductive Pattern where
  | empty
  | set (set : CharSet)
  | check (assertion : Assertion)
  | seq (first second : Pattern)
  | alt (first second : Pattern)
  /-- A group that notes its name when it closes. -/
  | group (name : Option String) (inner : Pattern)
  /-- From `min` to `max` rounds of a pattern, as many as possible first, or as few. -/
  | repeated (greedy : Bool) (min : Nat) (max : Option Nat) (inner : Pattern)
  /-- A look ahead, for a match or for none. -/
  | ahead (positive : Bool) (inner : Pattern)
  /-- A look behind, for a match that ends at the place or for none. -/
  | behind (positive : Bool) (inner : Pattern)
  /-- A pattern of which the first match alone counts. -/
  | atomic (inner : Pattern)
  /-- A pattern with flags of its own. -/
  | under (flags : Flags) (inner : Pattern)
  deriving DecidableEq, Repr, Inhabited

namespace Pattern

/-- Patterns one after the other. -/
def sequence : List Pattern → Pattern
  | [] => .empty
  | [p] => p
  | p :: rest => .seq p (sequence rest)

/-- Patterns of which the first that leads to a match is taken. -/
def choice : List Pattern → Pattern
  | [] => .ahead false .empty
  | [p] => p
  | p :: rest => .alt p (choice rest)

/-- The length of the texts that a pattern takes, if its form allows texts of one length only. -/
def fixedLength? : Pattern → Option Nat
  | .empty | .check _ | .ahead _ _ | .behind _ _ => some 0
  | .set _ => some 1
  | .seq p q => p.fixedLength?.bind fun n => q.fixedLength?.map (n + ·)
  | .alt p q => p.fixedLength?.filter (q.fixedLength? = some ·)
  | .group _ p | .atomic p | .under _ p => p.fixedLength?
  | .repeated _ min max p =>
    if max = some 0 then some 0
    else (p.fixedLength?.filter fun n => n = 0 || max = some min).map (min * ·)

/-- The greatest length of what is looked for behind a place. -/
def lookBound : Nat := 4294967295

/-- Whether what is looked for behind a place has a fixed length everywhere in a pattern. -/
def looksFixed : Pattern → Bool
  | .empty | .set _ | .check _ => true
  | .seq p q | .alt p q => p.looksFixed && q.looksFixed
  | .group _ p | .repeated _ _ _ p | .ahead _ p | .atomic p | .under _ p => p.looksFixed
  | .behind _ p => p.fixedLength?.any (· ≤ lookBound) && p.looksFixed

end Pattern

end Grammatic
