import Bibliography.Text

/-!
# Bibliography.Duplicates.Rule

The ways in which two entries may be the same, and what becomes of a cluster
of entries that are.
-/

namespace Bibliography

/-- How two entries are recognised as the same. -/
inductive DuplicateRule where
  /-- The same citation key, up to case. -/
  | key
  /-- The same DOI, up to case and white space. -/
  | doi
  /-- The same abstract, up to case and the amount of white space. -/
  | abstractText
  /-- The same set of author surnames and the same title. -/
  | citation
deriving DecidableEq, Inhabited

namespace DuplicateRule

/-- The rules in the order in which they are tried. -/
def all : List DuplicateRule := [key, doi, abstractText, citation]

/-- The name of a rule in options and messages. -/
def name : DuplicateRule → String
  | key => "key"
  | doi => "doi"
  | abstractText => "abstract"
  | citation => "citation"

theorem mem_all (r : DuplicateRule) : r ∈ all := by
  cases r <;> decide

end DuplicateRule

/-- What becomes of a cluster of duplicate entries. -/
inductive MergeStrategy where
  /-- The first entry is kept as it is. -/
  | first
  /-- The last entry is kept as it is. -/
  | last
  /-- The first entry is kept and gains the fields that it lacks. -/
  | combine
  /-- The first entry is kept, gains the fields that it lacks, and takes the
  values of the others for those that it has. -/
  | overwrite
deriving DecidableEq, Inhabited

namespace MergeStrategy

/-- All strategies. -/
def all : List MergeStrategy := [first, last, combine, overwrite]

/-- The name of a strategy in options. -/
def name : MergeStrategy → String
  | first => "first"
  | last => "last"
  | combine => "combine"
  | overwrite => "overwrite"

end MergeStrategy

end Bibliography
