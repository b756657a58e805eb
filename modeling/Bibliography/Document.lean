import Bibliography.Block

/-!
# Bibliography.Document

A document keeps every node it ever had in an arena, and lists the handles of
the present ones in the order in which they are written.  Removing and sorting
touch the order only, so a handle that a warning or an index holds stays good.
-/

namespace Bibliography

/-- A bibliography: an arena of nodes and the order of the present ones. -/
structure Document where
  nodes : List Node := []
  order : List NodeId := []
deriving DecidableEq, Inhabited

namespace Document

/-! ## construction -/

/-- The document of a list of nodes, in the order of the list. -/
def ofNodes (ns : List Node) : Document := ⟨ns, List.range ns.length⟩

/-- The handle that the next added node gets. -/
def nextId (d : Document) : NodeId := d.nodes.length

/-- Add a node at the end. -/
def push (d : Document) (n : Node) : Document := ⟨d.nodes ++ [n], d.order ++ [d.nextId]⟩

/-! ## looking -/

/-- The node of a handle, also after its removal. -/
def node? (d : Document) (id : NodeId) : Option Node := d.nodes[id]?

/-- The block of a handle. -/
def block? (d : Document) (id : NodeId) : Option Block := (d.node? id).bind Node.block?

/-- The entry of a handle. -/
def entry? (d : Document) (id : NodeId) : Option Entry := (d.node? id).bind Node.entry?

/-- The citation key of an entry. -/
def key? (d : Document) (id : NodeId) : Option Text := (d.entry? id).bind Entry.key

/-- The present nodes with their handles, in order. -/
def items (d : Document) : List (NodeId × Node) :=
  d.order.filterMap fun id => (d.node? id).map (id, ·)

/-- The present entries with their handles, in order. -/
def entries (d : Document) : List (NodeId × Entry) :=
  d.order.filterMap fun id => (d.entry? id).map (id, ·)

/-- The handles of the present entries, in order. -/
def entryIds (d : Document) : List NodeId := d.entries.map (·.1)

/-- The number of present entries. -/
def entryCount (d : Document) : Nat := d.entries.length

/-! ## editing -/

/-- Put another node in the place of one. -/
def setNode (d : Document) (id : NodeId) (n : Node) : Document :=
  { d with nodes := d.nodes.set id n }

/-- Edit one node, and tell whether that changed it. -/
def editNode (f : Edit Node) (id : NodeId) (d : Document) : Document × Bool :=
  match d.node? id with
  | some n => (d.setNode id (f n).1, (f n).2)
  | none => (d, false)

/-- Edit the block of a handle, which forgets its source if that changes it. -/
def editBlock (f : Edit Block) (id : NodeId) (d : Document) : Document × Bool :=
  d.editNode (Node.editBlock f) id

/-- Edit the entry of a handle, which forgets its source if that changes it. -/
def editEntry (f : Edit Entry) (id : NodeId) (d : Document) : Document × Bool :=
  d.editNode (Node.editEntry f) id

/-- Put another text in the place of one; a block is kept. -/
def setText (d : Document) (id : NodeId) (t : Text) : Document × Bool :=
  d.editNode (fun
    | .text s => (.text t, s ≠ t)
    | .block b => (.block b, false)) id

/-- Edit every present entry, and list those that changed. -/
def editEntries (f : Edit Entry) (d : Document) : Document × List NodeId :=
  ({ d with nodes := d.nodes.mapIdx fun id n => if id ∈ d.order then (n.editEntry f).1 else n },
   d.entries.filterMap fun (id, e) => if (f e).2 then some id else none)

/-- Edit the field list of every present entry, and list the entries that
changed. -/
def editFields (f : Edit (List Field)) : Document → Document × List NodeId :=
  editEntries fun e => ({ e with fields := (f e.fields).1 }, (f e.fields).2)

/-- Note that an entry duplicates another.  The note is not written, so the
source is kept. -/
def markDuplicate (d : Document) (id earlier : NodeId) : Document :=
  match d.node? id with
  | some (.block b) =>
    match b.body with
    | .entry e =>
      d.setNode id (.block { b with body := .entry { e with duplicateOf := some earlier } })
    | _ => d
  | _ => d

/-! ## the order -/

/-- Keep the present nodes of a class. -/
def retain (p : NodeId → Bool) (d : Document) : Document := { d with order := d.order.filter p }

/-- Remove a node; its place in the arena stays. -/
def remove (d : Document) (id : NodeId) : Document := d.retain (· ≠ id)

/-- Remove several nodes. -/
def removeAll (d : Document) (ids : List NodeId) : Document := d.retain (· ∉ ids)

/-! ## laws -/

@[simp] theorem nodes_push (d : Document) (n : Node) : (d.push n).nodes = d.nodes ++ [n] := rfl

@[simp] theorem order_push (d : Document) (n : Node) :
    (d.push n).order = d.order ++ [d.nodes.length] := rfl

@[simp] theorem nodes_retain (p : NodeId → Bool) (d : Document) :
    (d.retain p).nodes = d.nodes := rfl

@[simp] theorem order_editNode (f : Edit Node) (id : NodeId) (d : Document) :
    (d.editNode f id).1.order = d.order := by
  unfold editNode
  split <;> rfl

@[simp] theorem length_nodes_editNode (f : Edit Node) (id : NodeId) (d : Document) :
    (d.editNode f id).1.nodes.length = d.nodes.length := by
  unfold editNode setNode
  split <;> simp

@[simp] theorem order_editEntries (f : Edit Entry) (d : Document) :
    (d.editEntries f).1.order = d.order := rfl

@[simp] theorem length_nodes_editEntries (f : Edit Entry) (d : Document) :
    (d.editEntries f).1.nodes.length = d.nodes.length := by
  simp [editEntries]

end Document

end Bibliography
