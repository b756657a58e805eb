import Bibliography.Comments
import Bibliography.Fields
import Bibliography.Options
import Bibliography.CitationKey.Generate
import Bibliography.Duplicates.Merge
import Bibliography.Parse.Document
import Bibliography.Sort.Entries

/-!
# Bibliography.Tidy

Tidying a bibliography.  The options choose passes, which run in a fixed order:
commentary, removal of fields, common forms of values, duplicates, sorting, and
citation keys.  A pass that changes entries brings the index of resolved values
up to date when a later pass may read it.
-/

namespace Bibliography

/-- A step of a run. -/
inductive Pass where
  | stripComments
  | tidyComments
  /-- Remove the fields of some names. -/
  | removeNamed (names : List Text)
  | removeEmptyFields
  | removeDuplicateFields
  | normalize (steps : List Normalization)
  /-- Report citation keys that are used again. -/
  | checkKeys
  /-- Find duplicates, and merge them by a strategy if there is one. -/
  | duplicates (rules : List DuplicateRule) (merge : Option MergeStrategy)
  | sortEntries (specs : List Text)
  | sortFields (order : List Text)
  | generateKeys (template : Text)
deriving DecidableEq, Inhabited

namespace Options

/-- A list with one item, if a condition holds. -/
def chosen {α : Type} (condition : Bool) (a : α) : List α := if condition then [a] else []

/-- The steps on values that the options ask for. -/
def normalizations (o : Options) : List Normalization :=
  chosen o.curly .curly
    ++ chosen o.stripEnclosingBraces .stripEnclosingBraces
    ++ chosen o.numeric .numeric
    ++ chosen o.dropAllCaps .dropAllCaps
    ++ chosen o.escape .escape
    ++ chosen o.encodeUrls .encodeUrls
    ++ ((o.maxAuthors.filter (0 < ·)).map .maxAuthors).toList
    ++ (o.enclosedFields.map .enclosingBraces).toList

/-- The passes that the options ask for, in the order in which they run. -/
def passes (o : Options) : List Pass :=
  chosen o.stripComments .stripComments
    ++ chosen o.tidyComments .tidyComments
    ++ chosen (o.omitted ≠ []) (.removeNamed o.omitted)
    ++ chosen o.removeEmptyFields .removeEmptyFields
    ++ chosen o.removeDuplicateFields .removeDuplicateFields
    ++ chosen (o.normalizations ≠ []) (.normalize o.normalizations)
    ++ [.checkKeys]
    ++ ((o.duplicateRules.filter (· ≠ [])).map (.duplicates · o.mergeStrategy)).toList
    ++ (o.sortKeys.map .sortEntries).toList
    ++ (o.fieldOrder.map .sortFields).toList
    ++ (o.keyTemplate.map .generateKeys).toList

end Options

/-- The state of a run between two passes. -/
structure Run where
  document : Document
  /-- The resolved values of the entries. -/
  index : FieldIndex
  warnings : List Warning := []

namespace Run

/-- The start of a run on a text. -/
def start (input : Text) : Run :=
  let (document, warnings) := Document.parse input
  { document, index := .build document, warnings }

/-- Add warnings. -/
def warn (r : Run) (ws : List Warning) : Run := { r with warnings := r.warnings ++ ws }

/-- Edit the fields of every entry, and resolve those that changed again. -/
def editFields (r : Run) (f : Edit (List Field)) : Run :=
  let (document, changed) := r.document.editFields f
  { r with document, index := FieldIndex.refreshAll document r.index changed }

/-- Merge clusters, and resolve the entries that took up fields again. -/
def merge (r : Run) (clusters : List Cluster) (strategy : MergeStrategy) : Run :=
  let merged := r.document.merge clusters strategy
  { r with
    document := merged.document
    index := FieldIndex.refreshAll merged.document r.index merged.changed }

end Run

/-- Run a pass. -/
def Pass.run (r : Run) : Pass → Run
  | stripComments => { r with document := r.document.stripComments.1 }
  | tidyComments => { r with document := r.document.tidyComments.1 }
  | removeNamed names => r.editFields (Fields.removeNamed names)
  | removeEmptyFields => r.editFields Fields.removeEmpty
  | removeDuplicateFields => r.editFields Fields.removeRepeated
  | normalize steps => r.editFields (Fields.normalize steps)
  | checkKeys => r.warn (Duplicates.checkKeys r.document)
  | duplicates rules merge =>
    let found := r.document.detect r.index rules
    let r := { r with document := found.document }.warn found.warnings
    match merge with
    | none => r
    | some strategy => r.merge found.clusters strategy
  | sortEntries specs =>
    let (keys, bad) := SortKey.parseAll specs
    let (document, unused) := r.document.sortEntries r.index keys
    { r with document }.warn (bad ++ unused)
  | sortFields order => { r with document := (r.document.editFields (Fields.sort order)).1 }
  | generateKeys template =>
    let (document, _, bad) := r.document.generateKeysFrom r.index template
    { r with document }.warn bad

/-- What a run gives. -/
structure Tidied where
  /-- The bibliography as it is written. -/
  text : Text
  warnings : List Warning
  /-- The number of entries in the input. -/
  count : Nat

/-- Tidy a bibliography. -/
def tidy (o : Options) (input : Text) : Tidied :=
  let start := Run.start input
  let done := o.passes.foldl Pass.run start
  { text := done.document.render o.rendering
    warnings := done.warnings
    count := start.document.entryCount }

end Bibliography
