import Bibliography.Names
import Bibliography.Resolve
import Bibliography.Duplicates.Rule
import Bibliography.Unicode.Alphabetic

/-!
# Bibliography.Duplicates.Signature

What two entries must have in common to be the same under a rule.  A signature
is a normal form of a value, and an entry whose value is empty has none.
-/

namespace Bibliography

/-- What is compared: a rule, and the text that equal entries share under it. -/
abbrev Signature := DuplicateRule × Text

namespace Duplicates

/-- The letters and digits of a text, each in lower case. -/
def alphanumerics (s : Text) : Text :=
  (s.filter Unicode.isAlphanumeric).flatMap Unicode.lowerChar

/-- A text without white space, each character in lower case. -/
def compact (s : Text) : Text :=
  (s.filter (!Unicode.isWhiteSpace ·)).flatMap Unicode.lowerChar

/-- A text in lower case, with one space between words. -/
def normalSpaced (s : Text) : Text := (Text.joinWith [' '] s.words).toLower

/-- Drop the texts that are equal to the one before. -/
def dropRepeats : List Text → List Text
  | [] => []
  | [w] => [w]
  | w :: v :: ws => if w = v then dropRepeats (v :: ws) else w :: dropRepeats (v :: ws)

/-- The set of surnames in an author list: normalised, in order, each once. -/
def surnames (authors : Text) : List Text :=
  let names := (Names.split authors).map fun name => alphanumerics (Names.surname name)
  dropRepeats ((names.filter (· ≠ [])).mergeSort Text.le)

/-- Surnames and title as one text. -/
def citation (authors title : Text) : Text :=
  Text.joinWith [','] (surnames authors) ++ ':' :: alphanumerics title

/-- The text that a rule compares; it may be empty. -/
def compared? (d : Document) (index : FieldIndex) (id : NodeId) : DuplicateRule → Option Text
  | .key => (d.key? id).map Text.toLower
  | .doi => (index.value? id "doi".toList).map compact
  | .abstractText => (index.value? id "abstract".toList).map normalSpaced
  | .citation =>
    (index.value? id "title".toList).bind fun title =>
      if alphanumerics title = [] then none
      else some (citation ((index.value? id "author".toList).getD []) title)

/-- The signature of an entry under a rule. -/
def signature? (d : Document) (index : FieldIndex) (id : NodeId) (rule : DuplicateRule) :
    Option Signature :=
  ((compared? d index id rule).filter (· ≠ [])).map (rule, ·)

/-- The signatures of an entry, in the order in which rules are tried. -/
def signatures (d : Document) (index : FieldIndex) (rules : List DuplicateRule) (id : NodeId) :
    List Signature :=
  (DuplicateRule.all.filter (· ∈ rules)).filterMap (signature? d index id)

end Duplicates

end Bibliography
