import Bibliography.Unicode.Case.Lower
import Bibliography.Unicode.WhiteSpace

/-!
# Bibliography.Month

The number of a month that is written as a number, as a name, or as the
beginning of a name.
-/

namespace Bibliography.Month

/-- The names of the months. -/
def names : List Text :=
  ["january", "february", "march", "april", "may", "june", "july", "august", "september",
    "october", "november", "december"].map String.toList

/-- The number of a month, from 1 to 12.  Points at the end do not count, and
the beginning of a name has at least three octets. -/
def number? (s : Text) : Option Nat :=
  let t := (Text.trimEnd (· = '.') s.strip).toLower
  match Text.toNatBelow? Text.bound32 t with
  | some n => if 1 ≤ n ∧ n ≤ 12 then some n else none
  | none =>
    if Text.utf8Size t < 3 then none
    else (names.findIdx? (t.isPrefixOf ·)).map (· + 1)

end Bibliography.Month
