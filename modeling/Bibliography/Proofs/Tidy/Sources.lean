import Bibliography.Proofs.Tidy.Changes

/-!
# Bibliography.Proofs.Tidy.Sources

Source text is never stale.  A document that is read is changed by operations,
in any number and order.  A block that still has its source after them is
written as the slice of the input that it was read from, and it is still what
was read there; so no change is lost where sources are written instead of
blocks.

* `Operation.revises_run` — what one operation does, by cases over the operations;
* `Operation.revises_runAll` — what a sequence of them does, by induction;
* `Operation.source_runAll` — sources, and what is written for every block.
-/

namespace Bibliography

/-! ## slices -/

/-- A block that was read at its place. -/
theorem Piece.Cut.read_at {s : Text} {ps qs : List Piece} {b : Block} {causes : List Cause}
    (h : Piece.Cut s (ps ++ .block b causes :: qs)) :
    ∃ r, Block.read? r = some ⟨b, causes, qs.flatMap Piece.written⟩ := by
  generalize hps : ps ++ .block b causes :: qs = all at h
  induction h generalizing ps with
  | nil => simp at hps
  | block hread hcut ih =>
      cases ps with
      | nil =>
          obtain ⟨h1, rfl⟩ := List.cons.inj hps
          cases h1
          rw [hcut.written]
          exact ⟨_, hread⟩
      | cons p ps => exact ih (List.cons.inj hps).2
  | text _ _ _ _ ih =>
      cases ps with
      | nil => cases (List.cons.inj hps).1
      | cons p ps => exact ih (List.cons.inj hps).2

namespace Document

/-- The slice of a text that a block of it was read from: it stands between the nodes before and
after, and what is read there is that block. -/
structure IsSlice (s : Text) (id : NodeId) (b : Block) (t : Text) : Prop where
  block : (parse s).1.block? id = some b
  place : s = ((parse s).1.nodes.take id).flatMap Node.original ++ t ++
    ((parse s).1.nodes.drop (id + 1)).flatMap Node.original
  read : ∃ u causes, t = '@' :: u ∧
    Block.read? (u ++ ((parse s).1.nodes.drop (id + 1)).flatMap Node.original) =
      some ⟨b, causes, ((parse s).1.nodes.drop (id + 1)).flatMap Node.original⟩

/-- A block of a document that was just read stands at its place among the pieces. -/
theorem exists_pieces {s : Text} {id : NodeId} {b : Block} (h : (parse s).1.block? id = some b) :
    ∃ causes, id < (Piece.ofText s).length ∧ Piece.ofText s =
      (Piece.ofText s).take id ++ .block b causes :: (Piece.ofText s).drop (id + 1) := by
  have hlength : id < (Piece.ofText s).length := by
    obtain ⟨n, hn, -⟩ := Option.bind_eq_some_iff.1 h
    simpa using (List.getElem?_eq_some_iff.1 hn).1
  obtain ⟨causes, hpiece⟩ : ∃ causes, (Piece.ofText s)[id] = .block b causes := by
    unfold block? node? at h
    rw [nodes_parse, List.getElem?_map, List.getElem?_eq_getElem hlength] at h
    cases hp : (Piece.ofText s)[id] with
    | text t => simp [hp, Piece.node, Node.block?] at h
    | block b' causes =>
        obtain rfl : b' = b := by simpa [hp, Piece.node, Node.block?] using h
        exact ⟨causes, rfl⟩
  refine ⟨causes, hlength, ?_⟩
  rw [← hpiece, ← List.drop_eq_getElem_cons hlength, List.take_append_drop]

/-- **The source of a block that was just read** is its slice. -/
theorem exists_slice {s : Text} {id : NodeId} {b : Block} (h : (parse s).1.block? id = some b) :
    ∃ t, IsSlice s id b t ∧ b.source = some t := by
  have hcut := Piece.cut_ofText s
  obtain ⟨causes, -, hsplit⟩ := exists_pieces h
  have hwritten := hcut.written
  rw [hsplit] at hcut
  obtain ⟨r, hr⟩ := hcut.read_at
  obtain ⟨u, hsource, hu⟩ := Block.source_append_rest hr
  refine ⟨'@' :: u, ⟨h, ?_, u, causes, rfl, ?_⟩, hsource⟩
  · rw [nodes_parse, ← List.map_take, ← List.map_drop, Piece.flatMap_original,
      Piece.flatMap_original]
    rw [hsplit, List.flatMap_append, List.flatMap_cons, Piece.written, hsource] at hwritten
    rw [List.append_assoc]
    exact hwritten.symm
  · rw [nodes_parse, ← List.map_drop, Piece.flatMap_original]
    dsimp only at hu
    rw [hu, hr]

end Document

/-! ## operations -/

/-- An operation on a document.  An edit of one entry counts as changed exactly what it changes. -/
inductive Operation where
  | stripComments
  | tidyComments
  | removeNamed (names : List Text)
  | removeEmptyFields
  | removeDuplicateFields
  | normalize (steps : List Normalization)
  | checkKeys
  | detect (index : FieldIndex) (rules : List DuplicateRule)
  | merge (clusters : List Cluster) (strategy : MergeStrategy)
  | sortEntries (index : FieldIndex) (keys : List SortKey)
  | sortFields (order : List Text)
  | generateKeys (index : FieldIndex) (template : Text)
  | editEntry (f : Edit Entry) (exact : Edit.IsExact f) (id : NodeId)

namespace Operation

open Document

/-- What an operation makes of a document, and the handles of the blocks that it changed.  A check
of keys and a search for duplicates only report; removing and sorting touch the order only. -/
def run (d : Document) : Operation → Document × List NodeId
  | stripComments => (d.stripComments.1, [])
  | tidyComments => (d.tidyComments.1, d.order.filter d.isUntidy)
  | removeNamed names => d.editFields (Fields.removeNamed names)
  | removeEmptyFields => d.editFields Fields.removeEmpty
  | removeDuplicateFields => d.editFields Fields.removeRepeated
  | normalize steps => d.editFields (Fields.normalize steps)
  | checkKeys => (d, [])
  | detect index rules => ((d.detect index rules).document, [])
  | merge clusters strategy =>
    ((d.merge clusters strategy).document, (d.merge clusters strategy).changed)
  | sortEntries index keys => ((d.sortEntries index keys).1, [])
  | sortFields order => d.editFields (Fields.sort order)
  | generateKeys index template =>
    ((d.generateKeysFrom index template).1, (d.generateKeysFrom index template).2.1)
  | editEntry f _ id => ((d.editEntry f id).1, changedHandle id (d.editEntry f id).2)

/-- What a sequence of operations makes of a document, and the handles of the blocks that any of
them changed. -/
def runAll (d : Document) : List Operation → Document × List NodeId
  | [] => (d, [])
  | op :: ops =>
    let (d, changed) := op.run d
    let (d, more) := runAll d ops
    (d, changed ++ more)

/-- **An operation** changes the blocks that it tells. -/
theorem revises_run (op : Operation) (d : Document) : Revises (op.run d).2 d (op.run d).1 := by
  cases op with
  | stripComments => exact .of_node?_eq fun _ => rfl
  | tidyComments => exact revises_tidyCommentsFrom true d.order d
  | removeNamed names => exact revises_editFields (Fields.isHonest_removing _) d
  | removeEmptyFields => exact revises_editFields (Fields.isHonest_removing _) d
  | removeDuplicateFields => exact revises_editFields Fields.isHonest_removeRepeated d
  | normalize steps => exact revises_editFields (Fields.isHonest_normalize steps) d
  | checkKeys => exact .refl d
  | detect index rules => exact revises_detect d index rules
  | merge clusters strategy => exact revises_merge d clusters strategy
  | sortEntries index keys => exact revises_sortEntries d index keys
  | sortFields order => exact revises_editFields (Fields.isHonest_sort order) d
  | generateKeys index template => exact revises_generateKeysFrom d index template
  | editEntry f exact_ id => exact revises_editEntry exact_.isHonest id d

/-- **A sequence of operations** changes the blocks that any of them tells. -/
theorem revises_runAll (ops : List Operation) (d : Document) :
    Revises (runAll d ops).2 d (runAll d ops).1 := by
  induction ops generalizing d with
  | nil => exact .refl d
  | cons op ops ih => exact (op.revises_run d).trans (ih (op.run d).1)

/-- **Sources are never stale.**  Let a text be read and changed by operations.  Where sources are
preserved, the document is written node by node.  Every block was read from a slice of the text.
If it still has a source, that is its slice, and the block is what was read there, but for the note
of a duplicate.  If its content is another, it is written anew from that content; if no operation
changed it, it is written as its slice. -/
theorem source_runAll (s : Text) (ops : List Operation) :
    let d := (runAll (parse s).1 ops).1
    let changed := (runAll (parse s).1 ops).2
    (∀ tidyComments, d.render { tidyComments } = d.items.flatMap fun p => p.2.preserved) ∧
    ∀ id b, d.block? id = some b → ∃ b₀ t, IsSlice s id b₀ t ∧
      (∀ u, b.source = some u → u = t ∧ b.command = b₀.command ∧ b.delimiter = b₀.delimiter ∧
        b.body.unmarked = b₀.body.unmarked) ∧
      (b.content ≠ b₀.content → (Node.block b).preserved = ({} : Layout).block b) ∧
      (id ∉ changed → (Node.block b).preserved = t) := by
  intro d changed
  refine ⟨fun _ => rfl, fun id b hb => ?_⟩
  obtain ⟨b₀, hb₀, hrevises⟩ := (revises_runAll ops (parse s).1).exists_block hb
  obtain ⟨t, hslice, hsource⟩ := exists_slice hb₀
  refine ⟨b₀, t, hslice, ?_, ?_, ?_⟩
  · intro u hu
    have hkept : id ∉ changed := fun hid => by simp [hrevises.forgets hid] at hu
    obtain ⟨hsame, hbody⟩ := hrevises.keeps hkept
    rw [hu, hsource] at hsame
    exact ⟨Option.some.inj hsame, hrevises.command, hrevises.delimiter, hbody⟩
  · intro hcontent
    have hchanged : id ∈ changed := by
      by_contra hkept
      exact hcontent (hrevises.content_eq hkept)
    rw [Node.preserved, hrevises.forgets hchanged, Option.getD_none]
  · intro hkept
    rw [Node.preserved, (hrevises.keeps hkept).1, hsource, Option.getD_some]

end Operation

end Bibliography
