import Bibliography.Duplicates.Cluster

/-!
# Bibliography.Duplicates.Merge

Merging clusters of duplicates.  One entry of each cluster stays, and under two
of the strategies it takes up the fields of the others.
-/

namespace Bibliography

namespace Entry

/-- Take up a field.  It goes to the end, unless there is a field of that name;
the first such field may take the value. -/
def absorb (overwrite : Bool) (f : Field) : Edit (List Field)
  | [] => ([f], true)
  | g :: gs =>
    if g.isNamed f.name then
      if overwrite then ({ g with value := f.value } :: gs, g.value ≠ f.value) else (g :: gs, false)
    else
      let (gs', changed) := absorb overwrite f gs
      (g :: gs', changed)

/-- Take up fields one after the other. -/
def absorbAll (overwrite : Bool) (incoming : List Field) : Edit (List Field) := fun fs =>
  incoming.foldl
    (fun (fs, changed) f =>
      let (fs, more) := absorb overwrite f fs
      (fs, changed || more))
    (fs, false)

end Entry

/-- Whether a strategy takes up fields, and if so whether it overwrites. -/
def MergeStrategy.absorbs? : MergeStrategy → Option Bool
  | first | last => none
  | combine => some false
  | overwrite => some true

namespace Cluster

/-- The entries of a cluster that a strategy removes. -/
def removed (c : Cluster) : MergeStrategy → List NodeId
  | .last => if c.members = [] then [] else c.root :: c.members.dropLast
  | _ => c.members

/-- The fields of the members of a cluster. -/
def incoming (c : Cluster) (d : Document) : List Field :=
  (c.members.filterMap d.entry?).flatMap Entry.fields

/-- Let the root of a cluster take up the fields of the members. -/
def absorb (c : Cluster) (overwrite : Bool) (d : Document) : Document × Bool :=
  d.editEntry
    (fun e =>
      let (fields, changed) := Entry.absorbAll overwrite (c.incoming d) e.fields
      ({ e with fields }, changed))
    c.root

/-- Let the root of every cluster take up fields, and list the roots that
changed. -/
def absorbEach (overwrite : Bool) : List Cluster → Document → Document × List NodeId
  | [], d => (d, [])
  | c :: cs, d =>
    let (d, changed) := c.absorb overwrite d
    let (d, roots) := absorbEach overwrite cs d
    (d, if changed then c.root :: roots else roots)

end Cluster

/-- What merging did. -/
structure Merged where
  document : Document
  removed : List NodeId
  /-- The entries that took up fields. -/
  changed : List NodeId

/-- Merge clusters to one entry each. -/
def Document.merge (d : Document) (clusters : List Cluster) (strategy : MergeStrategy) : Merged :=
  let removed := clusters.flatMap (·.removed strategy)
  let (d, changed) := match strategy.absorbs? with
    | none => (d, [])
    | some overwrite => Cluster.absorbEach overwrite clusters d
  { document := d.removeAll removed, removed, changed }

end Bibliography
