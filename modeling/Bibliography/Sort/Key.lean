import Bibliography.Month
import Bibliography.Resolve

/-!
# Bibliography.Sort.Key

The criteria by which entries are sorted.  A key names a field, or one of the
pseudo-fields `key`, `type` and `month`; a minus sign before it turns the order
round.  Whole numbers are compared as numbers, other values in lower case by
code point, and entries without a value come last either way.
-/

namespace Bibliography

/-- A criterion of a sort. -/
structure SortKey where
  /-- The name of the field, in lower case. -/
  field : Text
  descending : Bool
deriving DecidableEq, Inhabited

namespace SortKey

/-- Read a criterion; a name that is empty or has white space is refused. -/
def parse? (spec : Text) : Option SortKey :=
  let (descending, field) := match spec with
    | '-' :: t => (true, t)
    | t => (false, t)
  if field = [] ∨ field.any Unicode.isWhiteSpace = true then none
  else some ⟨Text.toLower field, descending⟩

/-- The names that do not stand for a field. -/
def pseudoFields : List Text := ["key", "type", "month"].map String.toList

end SortKey

/-- What an entry is compared by; none comes last. -/
abbrev SortValue := Option Text

namespace SortValue

/-- The width to which numbers are filled up with zeros, so that they compare
as texts. -/
def numberWidth : Nat := 20

/-- The digits of a number, filled up with zeros. -/
def number (digits : Text) : SortValue :=
  some (List.replicate (numberWidth - digits.length) '0' ++ digits)

/-- The sort value of a text. -/
def ofText (s : Text) : SortValue :=
  let t := s.strip
  if t = [] then none
  else if Text.isDigits t then number (t.dropWhile (· = '0'))
  else some (Text.toLower t)

/-- Compare two sort values. -/
def compare (descending : Bool) : SortValue → SortValue → Ordering
  | none, none => .eq
  | none, some _ => .gt
  | some _, none => .lt
  | some a, some b => if descending then Text.compare b a else Text.compare a b

/-- The value of an entry under a key. -/
def ofEntry (d : Document) (index : FieldIndex) (id : NodeId) (key : SortKey) : SortValue :=
  if key.field = "key".toList then (d.key? id).bind ofText
  else if key.field = "type".toList then (d.block? id).map fun b => b.command.toLower
  else if key.field = "month".toList then
    ((index.value? id "month".toList).bind Month.number?).bind fun n => number (Text.ofNat n)
  else (index.value? id key.field).bind ofText

end SortValue

end Bibliography
