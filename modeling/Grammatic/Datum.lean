import Grammatic.Scalar

/-!
# Plain data

Definitions of lexers, rules and operator tables are built from data that nobody has checked yet.
A `Datum` is such a piece of data. Messages about a piece that does not fit show its text.
-/

namespace Grammatic

/-- A piece of unchecked data. -/
inductive Datum where
  | scalar (value : Scalar)
  | list (items : List Datum)
  /-- Values under keys; the two lists are of one length. -/
  | record (keys : List String) (values : List Datum)
  deriving Inhabited

namespace Datum

instance : Coe String Datum := ⟨fun s => .scalar (.text s)⟩

/-- The text in a piece of data, if it is a text. -/
def text? : Datum → Option String
  | .scalar (.text s) => some s
  | _ => none

/-- The whole number in a piece of data, if it is one; a truth value is none. -/
def int? : Datum → Option Int
  | .scalar (.int i) => some i
  | _ => none

/-- A keyed value as a record shows it. -/
def keyed (key value : String) : String :=
  Text.quoted key ++ ": " ++ value

mutual
/-- The text of a piece of data that shows its structure. -/
def shown : Datum → String
  | .scalar s => s.shown
  | .list items => "[" ++ ", ".intercalate (shownItems items) ++ "]"
  | .record keys values =>
    "\x7b" ++ ", ".intercalate (List.zipWith keyed keys (shownItems values)) ++ "\x7d"

/-- The texts of a list of data. -/
def shownItems : List Datum → List String
  | [] => []
  | d :: rest => shown d :: shownItems rest
end

/-- The text of a piece of data, in which a text by itself is left as it is. -/
def plain : Datum → String
  | .scalar s => s.spelled
  | other => other.shown

end Datum

end Grammatic
