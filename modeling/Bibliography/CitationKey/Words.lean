import Bibliography.Latex.Fold
import Bibliography.Names
import Bibliography.Resolve
import Bibliography.CitationKey.Template
import Bibliography.Unicode.Number
import Bibliography.Unicode.Case.Upper

/-!
# Bibliography.CitationKey.Words

The words of titles and names that go into citation keys, and the value of a
marker for an entry.  Words are runs of ASCII letters and digits in the text
without accents and LaTeX commands.
-/

namespace Bibliography

namespace CitationKey

/-- The words of a LaTeX text. -/
def words (s : Text) : List Text := Text.runs (!Text.isAlnum ·) (Latex.fold s)

/-- The words that say nothing about a title. -/
def functionWords : List Text :=
  ["a", "an", "the", "and", "but", "or", "nor", "for", "so", "yet", "as", "at", "by", "in", "of",
    "on", "to", "up", "via", "per", "from", "into", "onto", "upon", "with", "over"].map
    String.toList

/-- The words of a title without the function words, unless there are no
others. -/
def titleWords (s : Text) : List Text :=
  match (words s).filter fun w => Text.toLower w ∉ functionWords with
  | [] => words s
  | ws => ws

/-- The first four digits in a row. -/
def yearDigits : Text → Text
  | [] => []
  | c :: s =>
    let run := (c :: s).take 4
    if run.length = 4 ∧ run.all Unicode.isDecimal = true then run else yearDigits s

/-- The surnames of the authors of an entry, and whether the list says that
there are more. -/
structure Authors where
  surnames : List Text := []
  truncated : Bool := false

/-- Read an author list. -/
def Authors.ofList (s : Text) : Authors :=
  let names := Names.split s
  { surnames := ((names.filter (!Names.isOthers ·)).map fun name =>
      (words (Names.surname name)).flatten).filter (· ≠ [])
    truncated := names.any Names.isOthers }

/-- What stands for the names that are left out. -/
def etAl : Text := "EtAl".toList

/-- The first surname, and the second if there are no more than two. -/
def Authors.firstTwo (a : Authors) : Text :=
  match a.surnames, a.truncated with
  | [], _ => []
  | [only], false => only
  | [one, two], false => one ++ two
  | one :: _, _ => one ++ etAl

/-- The first few surnames. -/
def Authors.first (a : Authors) (limit : Option Nat) : Text :=
  let n := limit.getD a.surnames.length
  let kept := (a.surnames.take n).flatten
  if kept ≠ [] ∧ (a.truncated = true ∨ n < a.surnames.length) then kept ++ etAl else kept

end CitationKey

open CitationKey in
/-- The value of a marker for an entry. -/
def Marker.value (index : FieldIndex) (id : NodeId) (m : Marker) : Text :=
  let authors : Authors := ((index.value? id "author".toList).map Authors.ofList).getD {}
  let title := ((index.value? id "title".toList).map titleWords).getD []
  let capitals (ws : List Text) : Text := ws.flatMap Text.capitalize
  match m with
  | .auth => authors.surnames.headD []
  | .authEtAl => authors.firstTwo
  | .authors limit => authors.first limit
  | .title none => capitals title
  | .title (some n) => capitals (title.take n)
  | .shortTitle => capitals (title.take 3)
  | .veryShortTitle => capitals (title.take 1)
  | .year =>
    ((index.value? id "year".toList <|> index.value? id "date".toList).map yearDigits).getD []
  | .duplicateLetter | .duplicateNumber => []
  | .field name => ((index.value? id name).map fun v => (words v).flatten).getD []

end Bibliography
