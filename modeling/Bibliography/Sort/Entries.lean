import Bibliography.Sort.Key
import Bibliography.Warning

/-!
# Bibliography.Sort.Entries

Sorting the entries of a document.  What stands before an entry moves with it,
and what stands after the last entry stays at the end.  Entries that are equal
under all keys keep their order.
-/

namespace Bibliography

/-- Nodes that move together: an entry with what stands before it, or what
stands after the last entry. -/
structure Group where
  entry : Option NodeId
  nodes : List NodeId
deriving DecidableEq, Inhabited

namespace SortKey

/-- The keys that can be read, and reports of the others. -/
def parseAll (specs : List Text) : List SortKey × List Warning :=
  (specs.filterMap parse?,
   (specs.filter fun spec => (parse? spec).isNone).map fun spec => ⟨.badSortKey spec, none, none⟩)

/-- Whether some entry of a document has the field of a key. -/
def isUsed (key : SortKey) (d : Document) (index : FieldIndex) : Bool :=
  d.entryIds.any fun id => (index.get? id key.field).isSome

/-- Reports of the keys that no entry has the field of. -/
def unused (keys : List SortKey) (d : Document) (index : FieldIndex) : List Warning :=
  (keys.filter fun key =>
      key.field ∉ pseudoFields && !key.isUsed d index && 0 < d.entryCount).map
    fun key => ⟨.unusedSortKey key.field, none, none⟩

end SortKey

/-- The value of a group under a key: that of its entry. -/
def Group.value (d : Document) (index : FieldIndex) (key : SortKey) (g : Group) : SortValue :=
  g.entry.bind fun id => SortValue.ofEntry d index id key

namespace Document

/-- The groups of nodes in a list; `waiting` are the nodes before it that wait
for their entry. -/
def groupsFrom (d : Document) (waiting : List NodeId) : List NodeId → List Group
  | [] => if waiting = [] then [] else [⟨none, waiting⟩]
  | id :: ids =>
    if (d.entry? id).isSome then ⟨some id, waiting ++ [id]⟩ :: groupsFrom d [] ids
    else groupsFrom d (waiting ++ [id]) ids

/-- The groups of a document. -/
def groups (d : Document) : List Group := groupsFrom d [] d.order

/-- Groups in the order of one key; those that are equal under it keep their order. -/
def sortPass (d : Document) (index : FieldIndex) (key : SortKey) (gs : List Group) : List Group :=
  let valued := gs.map fun g => (g.value d index key, g)
  (valued.mergeSort fun a b => SortValue.compare key.descending a.1 b.1 ≠ .gt).map (·.2)

/-- Groups in the order of all keys: they are sorted by each key in turn, by the first one last, so
that it counts most. -/
def sortGroups (d : Document) (index : FieldIndex) (keys : List SortKey) (gs : List Group) :
    List Group :=
  keys.foldr (d.sortPass index) gs

/-- Sort the entries of a document by keys, the first of which counts most. -/
def sortEntries (d : Document) (index : FieldIndex) (keys : List SortKey) :
    Document × List Warning :=
  if keys = [] then (d, [])
  else
    ({ d with order := (d.sortGroups index keys d.groups).flatMap Group.nodes },
     SortKey.unused keys d index)

/-! ## laws -/

/-- The groups of a document are its nodes in order. -/
theorem flatMap_groupsFrom (d : Document) (waiting ids : List NodeId) :
    (groupsFrom d waiting ids).flatMap Group.nodes = waiting ++ ids := by
  induction ids generalizing waiting with
  | nil =>
    rw [groupsFrom]
    split
    · next h => simp [h]
    · simp
  | cons id ids ih =>
    rw [groupsFrom]
    split <;> simp [ih]

end Document

end Bibliography
