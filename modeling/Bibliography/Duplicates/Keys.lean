import Bibliography.Document
import Bibliography.Warning

/-!
# Bibliography.Duplicates.Keys

Entries that share a citation key, up to case folding.  Every entry but the
first of a key is reported, together with the first.
-/

namespace Bibliography

namespace Document

/-- The present entries that have a citation key, in order. -/
def keyed (d : Document) : List (NodeId × Text) :=
  d.entries.filterMap fun (id, e) => e.key.map (id, ·)

/-- A reference to an entry, with its key. -/
def entryRef (d : Document) (id : NodeId) : EntryRef := ⟨id, d.key? id⟩

end Document

namespace Duplicates

/-- Report the keys that occur before or earlier in the list; `seen` has the
first entry of each key before. -/
def repeatedKeys (seen : List (NodeId × Text)) : List (NodeId × Text) → List Warning
  | [] => []
  | (id, key) :: entries =>
    match seen.find? fun p => p.2.eqIgnoreCase key with
    | some (first, key') =>
      ⟨.duplicateKey key, some ⟨id, some key⟩, some ⟨first, some key'⟩⟩
        :: repeatedKeys seen entries
    | none => repeatedKeys (seen ++ [(id, key)]) entries

/-- Report every entry that has the citation key of an earlier one. -/
def checkKeys (d : Document) : List Warning := repeatedKeys [] d.keyed

end Duplicates

end Bibliography
