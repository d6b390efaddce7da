import Grammatic.Pattern.Basic

/-!
# The text of patterns

Reading regular expressions: literals, escapes, character sets, groups, flags of a group, looks
ahead and behind, atomic groups, alternatives and repetitions. What a look behind looks for has to
have a fixed length, which is known when the whole text has been read.

The language of patterns leaves some things out. A reference to a group is one to a number or name
that other texts may shift or take, so there are no references and no conditions on groups. There
are no characters by name, and no surrogates, which are in no text. A group cannot change what the
classes know. Where case is ignored, a letter beyond the first plane stands in its lower case. A
text that goes beyond the language is refused for that reason (`PatternError.unsupported`), which is
apart from the ways in which a text is no pattern.
-/

namespace Grammatic

/-- Why a text is no pattern. -/
inductive PatternError where
  | unbalanced
  | badEscape
  | badSet
  | badGroup
  /-- What is looked for behind a place has no fixed length, or too great a one. -/
  | badLook
  | nothingToRepeat
  | badRepeat
  | repeatTooLarge
  /-- The text has a part that is outside the language. -/
  | unsupported
  deriving DecidableEq, Repr

/-- Whether an item of a set is in the language. Where case is ignored, a letter beyond the first
plane is in it in its lower case, and a range that goes beyond the plane is in it unless the classes
know basic characters only. -/
def SetItem.isSupported (flags : Flags) : SetItem → Bool
  | .range first last =>
    !flags.ignoreCase || last ≤ '\uffff' ||
      if flags.ascii then first = last
      else first ≠ last || (Text.caseForms first).all (· ≤ first)
  | .ofClass _ _ => true

namespace Pattern

/-- Names of groups in the order in which the groups open. -/
abbrev GroupNames := List String

/-- What stands last in a sequence, which decides whether it can be repeated. -/
inductive Piece where
  | plain (p : Pattern)
  | assertion (a : Assertion)
  | repetition (p : Pattern)

/-- The pattern of a piece. -/
def Piece.pattern : Piece → Pattern
  | .plain p => p
  | .assertion a => .check a
  | .repetition p => p

/-- The value of a hexadecimal digit. -/
def hexValue? (c : Char) : Option Nat :=
  if '0' ≤ c ∧ c ≤ '9' then some (c.toNat - '0'.toNat)
  else if 'a' ≤ c ∧ c ≤ 'f' then some (c.toNat - 'a'.toNat + 10)
  else if 'A' ≤ c ∧ c ≤ 'F' then some (c.toNat - 'A'.toNat + 10)
  else none

/-- The number that digits of a base denote, the most significant first. -/
def numberOf (base : Nat) (values : List Nat) : Nat :=
  values.foldl (fun n d => base * n + d) 0

/-- Reads a character given by just so many hexadecimal digits. -/
def readHex (count : Nat) (text : List Char) : Except PatternError (Char × List Char) :=
  let values := (text.take count).filterMap hexValue?
  let code := numberOf 16 values
  if values.length = count ∧ Nat.isValidChar code then .ok (Char.ofNat code, text.drop count)
  else if values.length = count ∧ code ≤ 0xFFFF then .error .unsupported
  else .error .badEscape

/-- Whether a character is an octal digit. -/
def isOctal (c : Char) : Bool := '0' ≤ c && c ≤ '7'

/-- Reads a character given by an octal digit and at most two more. -/
def readOctal (first : Char) (text : List Char) : Except PatternError (Char × List Char) :=
  let more := (text.take 2).takeWhile isOctal
  let code := numberOf 8 ((first :: more).map fun c => c.toNat - '0'.toNat)
  if code < 256 then .ok (Char.ofNat code, text.drop more.length) else .error .badEscape

/-- Reads the character that an escape stands for, behind the backslash and its next character. -/
def readEscapedChar (c : Char) (text : List Char) : Except PatternError (Char × List Char) :=
  match c with
  | 'a' => .ok ('\x07', text)
  | 'f' => .ok ('\x0c', text)
  | 'n' => .ok ('\n', text)
  | 'r' => .ok ('\r', text)
  | 't' => .ok ('\t', text)
  | 'v' => .ok ('\x0b', text)
  | 'x' => readHex 2 text
  | 'u' => readHex 4 text
  | 'U' => readHex 8 text
  | 'N' => .error (if text.head? = some '\x7b' then .unsupported else .badEscape)
  | _ =>
    if Text.isBasicLetter c || Text.isBasicDigit c then .error .badEscape else .ok (c, text)

/-- The class that an escape stands for. -/
def classEscape? : Char → Option SetItem
  | 'd' => some (.ofClass .digit false)
  | 'D' => some (.ofClass .digit true)
  | 's' => some (.ofClass .space false)
  | 'S' => some (.ofClass .space true)
  | 'w' => some (.ofClass .word false)
  | 'W' => some (.ofClass .word true)
  | _ => none

/-- The condition that an escape stands for. -/
def assertionEscape? : Char → Option Assertion
  | 'A' => some .textStart
  | 'Z' => some .textEnd
  | 'b' => some .wordBoundary
  | 'B' => some .insideWord
  | _ => none

/-- Whether an escape outside a set is the number of a group: two more octal digits would make it a
character. -/
def isGroupNumber (c : Char) (text : List Char) : Bool :=
  let digits := (c :: text).take 3
  Text.isBasicDigit c && c ≠ '0' && !(digits.length = 3 && digits.all isOctal)

/-- Reads an escape outside a set. -/
def readEscape (c : Char) (text : List Char) : Except PatternError (Piece × List Char) :=
  match assertionEscape? c, classEscape? c with
  | some a, _ => .ok (.assertion a, text)
  | none, some item => .ok (.plain (.set ⟨false, [item]⟩), text)
  | none, none =>
    if isGroupNumber c text then .error .unsupported
    else
      (if isOctal c then readOctal c text else readEscapedChar c text).map fun (c, text) =>
        (.plain (.set (.single c)), text)

/-- Reads one end of a range, or a whole item, in a set. -/
def readSetAtom : List Char → Except PatternError (SetItem × List Char)
  | '\\' :: c :: text =>
    match classEscape? c with
    | some item => .ok (item, text)
    | none =>
      (if c = 'b' then .ok ('\x08', text)
        else if isOctal c then readOctal c text
        else readEscapedChar c text).map fun (c, text) => (.range c c, text)
  | '\\' :: [] => .error .badEscape
  | c :: text => .ok (.range c c, text)
  | [] => .error .badSet

/-- Joins the ends of a range. -/
def rangeOf : SetItem → SetItem → Except PatternError SetItem
  | .range first _, .range last _ =>
    if last < first then .error .badSet else .ok (.range first last)
  | _, _ => .error .badSet

/-- Reads the items of a set behind its opening, up to and with the closing bracket. A bracket that
comes first is an item, and so is a hyphen that comes last. -/
def readSetItems : Nat → List SetItem → List Char → Except PatternError (List SetItem × List Char)
  | 0, _, _ => .error .badSet
  | fuel + 1, items, text =>
    match text, items with
    | ']' :: text, _ :: _ => .ok (items.reverse, text)
    | _, _ => do
      let (item, text) ← readSetAtom text
      match text with
      | '-' :: ']' :: text => return ((.range '-' '-' :: item :: items).reverse, text)
      | '-' :: text =>
        let (other, text) ← readSetAtom text
        readSetItems fuel ((← rangeOf item other) :: items) text
      | _ => readSetItems fuel (item :: items) text

/-- Reads a set behind its opening bracket. -/
def readSet (text : List Char) : Except PatternError (Pattern × List Char) :=
  let (negated, text) := match text with | '^' :: text => (true, text) | _ => (false, text)
  (readSetItems (text.length + 1) [] text).map fun (items, text) => (.set ⟨negated, items⟩, text)

/-- Numbers of rounds are below this bound. -/
def repeatBound : Nat := 4294967295

/-- The number of rounds that digits denote; none if there are no digits. -/
def roundsOf (digits : List Char) : Option Nat :=
  if digits = [] then none else some (numberOf 10 (digits.map fun c => c.toNat - '0'.toNat))

/-- Reads the numbers of rounds behind an opening brace. Nothing is read if the brace opens no
repetition and so stands for itself. -/
def readCounts (text : List Char) :
    Except PatternError (Option (Nat × Option Nat × List Char)) :=
  let low := text.takeWhile Text.isBasicDigit
  let rest := text.dropWhile Text.isBasicDigit
  let (high, rest) :=
    match rest with
    | ',' :: rest => (rest.takeWhile Text.isBasicDigit, rest.dropWhile Text.isBasicDigit)
    | _ => (low, rest)
  match text, rest with
  | '}' :: _, _ => .ok none
  | _, '}' :: rest =>
    let min := (roundsOf low).getD 0
    let max := roundsOf high
    if repeatBound ≤ min ∨ max.any (repeatBound ≤ ·) then .error .repeatTooLarge
    else if max.any (· < min) then .error .badRepeat
    else .ok (some (min, max, rest))
  | _, _ => .ok none

/-- Reads a repetition mark at the start of a text, without the mark of preference. -/
def readRepeat : List Char → Except PatternError (Option (Nat × Option Nat × List Char))
  | '?' :: text => .ok (some (0, some 1, text))
  | '*' :: text => .ok (some (0, none, text))
  | '+' :: text => .ok (some (1, none, text))
  | '\x7b' :: text => readCounts text
  | _ => .ok none

/-- Repeats the piece before a repetition mark, by the mark of preference behind it: as few rounds
as possible, or as many as possible once and for all. -/
def repeatPiece (last : Option Piece) (min : Nat) (max : Option Nat) (text : List Char) :
    Except PatternError (Piece × List Char) :=
  match last, text with
  | none, _ => .error .nothingToRepeat
  | some (.assertion _), _ => .error .nothingToRepeat
  | some (.repetition _), _ => .error .badRepeat
  | some (.plain p), '?' :: text => .ok (.repetition (.repeated false min max p), text)
  | some (.plain p), '+' :: text =>
    .ok (.repetition (.atomic (.repeated true min max (.atomic p))), text)
  | some (.plain p), _ => .ok (.repetition (.repeated true min max p), text)

/-- Skips characters up to and with the given one; a backslash and its next character are skipped
together. None is returned if the character does not occur. -/
def skipPast (stop : Char) : List Char → Option (List Char)
  | '\\' :: _ :: text => skipPast stop text
  | c :: text => if c = stop then some text else skipPast stop text
  | [] => none

/-- Skips the rest of a line, or of the text. The text does not end in the middle of an escape. -/
def skipLine : List Char → Except PatternError (List Char)
  | '\\' :: _ :: text => skipLine text
  | '\\' :: [] => .error .badEscape
  | '\n' :: text => .ok text
  | _ :: text => skipLine text
  | [] => .ok []

/-- What the opening of a group says about it. -/
inductive GroupHead where
  | plain
  | capture (name : Option String)
  | ahead (positive : Bool)
  | behind (positive : Bool)
  | atomic
  /-- Flags that are turned on and off in the group. -/
  | under (on off : List Char)
  | comment

/-- Reads the name of a group up to the closing angle bracket. -/
def readGroupName (names : GroupNames) (text : List Char) :
    Except PatternError (String × List Char) :=
  let name := text.takeWhile (· ≠ '>')
  match text.dropWhile (· ≠ '>') with
  | [] => .error .badGroup
  | _ :: text =>
    let named := String.ofList name
    if Text.isIdentifier name = false ∨ named ∈ names then .error .badGroup else .ok (named, text)

/-- Whether a letter is that of a flag. -/
def isFlagLetter (c : Char) : Bool := c ∈ ['a', 'i', 'm', 's', 'u', 'x']

/-- Flags that a group may turn on and off: no letter is both, one of the letters for the classes is
enough, and these are never off. -/
def readScope (on off text : List Char) : Except PatternError (GroupHead × List Char) :=
  if ('a' ∈ on ∧ 'u' ∈ on) ∨ 'a' ∈ off ∨ 'u' ∈ off ∨ (on.any (· ∈ off)) = true then
    .error .badGroup
  else .ok (.under on off, text)

/-- Reads the flags of a group up to the colon behind them. -/
def readFlagLetters (text : List Char) : Except PatternError (GroupHead × List Char) :=
  match text.dropWhile isFlagLetter with
  | ':' :: rest => readScope (text.takeWhile isFlagLetter) [] rest
  | '-' :: rest =>
    match rest.takeWhile isFlagLetter, rest.dropWhile isFlagLetter with
    | c :: off, ':' :: rest' => readScope (text.takeWhile isFlagLetter) (c :: off) rest'
    | _, _ => .error .badGroup
  | _ => .error .badGroup

/-- Why a name refers to no group: there is none of the name, or references are not in the
language. -/
def referenceError (names : GroupNames) (text : List Char) : PatternError :=
  if String.ofList (text.takeWhile (· ≠ ')')) ∈ names then .unsupported else .badGroup

/-- Reads the opening of a group behind its parenthesis. -/
def readGroupHead (names : GroupNames) : List Char → Except PatternError (GroupHead × List Char)
  | '?' :: ':' :: text => .ok (.plain, text)
  | '?' :: '=' :: text => .ok (.ahead true, text)
  | '?' :: '!' :: text => .ok (.ahead false, text)
  | '?' :: '<' :: '=' :: text => .ok (.behind true, text)
  | '?' :: '<' :: '!' :: text => .ok (.behind false, text)
  | '?' :: '>' :: text => .ok (.atomic, text)
  | '?' :: '#' :: text => .ok (.comment, text)
  | '?' :: '(' :: _ => .error .unsupported
  | '?' :: 'P' :: '=' :: text => .error (referenceError names text)
  | '?' :: 'P' :: '<' :: text =>
    (readGroupName names text).map fun (name, text) => (.capture (some name), text)
  | '?' :: text => readFlagLetters text
  | text => .ok (.capture none, text)

/-- The names that have opened once a group has opened. -/
def GroupHead.addTo (names : GroupNames) : GroupHead → GroupNames
  | .capture (some name) => names ++ [name]
  | _ => names

/-- The flags in a group. -/
def GroupHead.inner (flags : Flags) : GroupHead → Flags
  | .under on off => flags.changed on off
  | _ => flags

/-- A group with its inner pattern. -/
def GroupHead.around (flags : Flags) (inner : Pattern) : GroupHead → Pattern
  | .capture name => .group name inner
  | .ahead positive => .ahead positive inner
  | .behind positive => .behind positive inner
  | .atomic => .atomic inner
  | .under on off => .under (flags.changed on off) inner
  | _ => inner

/-- A blank in the text of a verbose pattern. -/
def isPatternBlank (flags : Flags) (c : Char) : Bool :=
  flags.verbose && Text.isBasicSpace c

/-- The meaning of a character that stands for itself or has a meaning of its own. -/
def pieceOf (flags : Flags) : Char → Piece
  | '.' => .plain (.set (.allBut (if flags.dotAll then [] else ['\n'])))
  | '^' => .assertion (if flags.multiline then .lineStart else .textStart)
  | '$' => .assertion (if flags.multiline then .lineEnd else .lastLineEnd)
  | c => .plain (.set (.single c))

/-- The patterns of pieces, of which the last one was read last. -/
def sequenceOf (done : List Pattern) (last : Option Piece) : Pattern :=
  sequence ((last.map Piece.pattern).toList ++ done).reverse

/-- Reads alternatives up to the end of the text or a closing parenthesis. `done` holds what was
read of the first alternative, in reverse, without its last piece. -/
def readAlternatives (flags : Flags) :
    Nat → GroupNames → List Pattern → Option Piece → List Char →
      Except PatternError (Pattern × GroupNames × List Char)
  | 0, _, _, _, _ => .error .unbalanced
  | fuel + 1, names, done, last, text =>
    let push := fun (names : GroupNames) (piece : Piece) (text : List Char) =>
      readAlternatives flags fuel names ((last.map Piece.pattern).toList ++ done) (some piece) text
    match text with
    | [] => .ok (sequenceOf done last, names, [])
    | ')' :: _ => .ok (sequenceOf done last, names, text)
    | '|' :: text => do
      let (other, names, text) ← readAlternatives flags fuel names [] none text
      return (.alt (sequenceOf done last) other, names, text)
    | '\\' :: c :: text => do
      let (piece, text) ← readEscape c text
      push names piece text
    | '\\' :: [] => .error .badEscape
    | '[' :: text => do
      let (p, text) ← readSet text
      push names (.plain p) text
    | '(' :: text => do
      let (head, text) ← readGroupHead names text
      match head with
      | .comment =>
        match skipPast ')' text with
        | some text => readAlternatives flags fuel names done last text
        | none => .error .unbalanced
      | _ =>
        let (inner, names, text) ←
          readAlternatives (head.inner flags) fuel (head.addTo names) [] none text
        match text with
        | ')' :: text => push names (.plain (head.around flags inner)) text
        | _ => .error .unbalanced
    | c :: rest =>
      if isPatternBlank flags c then readAlternatives flags fuel names done last rest
      else if flags.verbose ∧ c = '#' then do
        readAlternatives flags fuel names done last (← skipLine rest)
      else do
        match ← readRepeat text with
        | some (min, max, text) =>
          let (piece, text) ← repeatPiece last min max text
          readAlternatives flags fuel names done (some piece) text
        | none => push names (pieceOf flags c) rest

/-- Whether a pattern is in the language under flags. -/
def isSupported (flags : Flags) : Pattern → Bool
  | .empty | .check _ => true
  | .set s => s.items.all (·.isSupported flags)
  | .seq p q | .alt p q => isSupported flags p && isSupported flags q
  | .group _ p | .repeated _ _ _ p | .ahead _ p | .behind _ p | .atomic p => isSupported flags p
  | .under own p => (own.ascii == flags.ascii) && isSupported own p

/-- Reads a pattern from characters, and the names of its groups in the order in which they open. -/
def readChars (flags : Flags) (text : List Char) : Except PatternError (Pattern × GroupNames) := do
  let (p, names, rest) ← readAlternatives flags (text.length + 1) [] [] none text
  if rest ≠ [] then throw .unbalanced
  if p.looksFixed = false then throw .badLook
  if p.isSupported flags = false then throw .unsupported
  return (p, names)

/-- Reads a pattern, and the names of its groups in the order in which the groups open. -/
def read (flags : Flags) (text : String) : Except PatternError (Pattern × GroupNames) :=
  readChars flags text.toList

/-- A brace that opens no count stands for itself, and so does a hyphen that comes last in a set. -/
example : (read {} "\x7b[a-]").toOption =
    some (.seq (.set (.single '\x7b')) (.set ⟨false, [.range 'a' 'a', .range '-' '-']⟩), []) := by
  decide +kernel

/-- A number of a group goes beyond the language, and three octal digits are a character. -/
example : (read {} "(a)\\1" matches .error .unsupported) = true ∧
    (read {} "\\101").toOption = some (.set (.single 'A'), []) := by
  decide +kernel

/-- A repetition mark needs something before it. -/
example : (read {} "(*)").toOption = none := by decide +kernel

end Pattern

end Grammatic
