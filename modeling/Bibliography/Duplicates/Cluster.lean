import Bibliography.Duplicates.Keys
import Bibliography.Duplicates.Signature

/-!
# Bibliography.Duplicates.Cluster

Finding entries that are the same.  Entries are taken in the order of the
document.  One that has a signature of an earlier entry is a duplicate of that
entry's root, which is the entry itself unless it is a duplicate too, and the
first signature that was seen before decides.
-/

namespace Bibliography

/-- An entry and its later duplicates, in the order of the document. -/
structure Cluster where
  root : NodeId
  members : List NodeId
deriving DecidableEq, Inhabited

/-- An entry that duplicates an earlier one, by a rule. -/
structure Duplicate where
  entry : NodeId
  root : NodeId
  rule : DuplicateRule
deriving DecidableEq, Inhabited

namespace Duplicates

/-- The root that the first carrier of each signature belongs to; of several
records of one signature the first counts. -/
abbrev Registry := List (Signature × NodeId)

/-- The rule and root of the first signature that is registered. -/
def Registry.match? (registry : Registry) (sigs : List Signature) :
    Option (DuplicateRule × NodeId) :=
  sigs.findSome? fun sig => (registry.lookup sig).map (sig.1, ·)

/-- Register the signatures of an entry under a root. -/
def Registry.add (registry : Registry) (sigs : List Signature) (root : NodeId) : Registry :=
  registry ++ sigs.map (·, root)

/-- The duplicates in a list of entries with their signatures. -/
def find (registry : Registry) : List (NodeId × List Signature) → List Duplicate
  | [] => []
  | (id, sigs) :: entries =>
    match registry.match? sigs with
    | some (rule, root) => ⟨id, root, rule⟩ :: find (registry.add sigs root) entries
    | none => find (registry.add sigs id) entries

/-- The duplicates of each root together, in the order of their first members. -/
def clusters (ds : List Duplicate) : List Cluster :=
  (ds.map Duplicate.root).eraseDups.map fun root =>
    ⟨root, (ds.filter (·.root = root)).map Duplicate.entry⟩

/-- The key of an entry, or its handle if it has none. -/
def displayKey (d : Document) (id : NodeId) : Text := (d.key? id).getD ('#' :: Text.ofNat id)

/-- The report of a duplicate. -/
def warning (d : Document) (dup : Duplicate) : Warning :=
  ⟨.duplicateEntry (displayKey d dup.entry) (displayKey d dup.root) dup.rule,
    some (d.entryRef dup.entry), some (d.entryRef dup.root)⟩

/-- The duplicates of a document under some rules. -/
def ofDocument (d : Document) (index : FieldIndex) (rules : List DuplicateRule) :
    List Duplicate :=
  find [] (d.entryIds.map fun id => (id, signatures d index rules id))

end Duplicates

/-- What a search for duplicates gives. -/
structure Detection where
  /-- The document, in which every duplicate names its root. -/
  document : Document
  clusters : List Cluster
  warnings : List Warning

/-- Find the duplicates of a document under some rules. -/
def Document.detect (d : Document) (index : FieldIndex) (rules : List DuplicateRule) : Detection :=
  let ds := Duplicates.ofDocument d index rules
  { document := ds.foldl (fun d dup => d.markDuplicate dup.entry dup.root) d
    clusters := Duplicates.clusters ds
    warnings := ds.map (Duplicates.warning d) }

end Bibliography
