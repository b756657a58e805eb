import Bibliography.Proofs.Tidy.Comments
import Bibliography.Sort.Entries

/-!
# Bibliography.Proofs.Tidy.Changes

What an operation may do to the nodes of a document.  An operation tells which
handles it changed.  A block of another handle stays what it was, its source
included, but for the note of a duplicate; a block of a changed handle has
forgotten its source.  Nothing else happens: texts stay texts, and commands and
delimiters are never touched.

`Document.Revises` says this of two documents.  It holds of a document and
itself and can be composed, so each operation needs one lemma, put together
from the edits of single nodes that it makes.
-/

namespace Bibliography

/-! ## blocks and nodes -/

/-- A block after an operation that may have changed it. -/
structure Block.Revises (changed : Prop) (b b' : Block) : Prop where
  command : b'.command = b.command
  delimiter : b'.delimiter = b.delimiter
  forgets : changed → b'.source = none
  keeps : ¬ changed → b'.source = b.source ∧ b'.body.unmarked = b.body.unmarked

namespace Block.Revises

variable {p q : Prop} {b b' b'' : Block}

theorem refl (hp : ¬ p) (b : Block) : Revises p b b := ⟨rfl, rfl, fun h => absurd h hp, fun _ => ⟨rfl, rfl⟩⟩

theorem trans (h : Revises p b b') (h' : Revises q b' b'') : Revises (p ∨ q) b b'' where
  command := h'.command.trans h.command
  delimiter := h'.delimiter.trans h.delimiter
  forgets hpq := by
    by_cases hq : q
    · exact h'.forgets hq
    · rw [(h'.keeps hq).1, h.forgets (hpq.resolve_right hq)]
  keeps hpq := by
    obtain ⟨hp, hq⟩ := not_or.1 hpq
    obtain ⟨hsource, hbody⟩ := h.keeps hp
    obtain ⟨hsource', hbody'⟩ := h'.keeps hq
    exact ⟨hsource'.trans hsource, hbody'.trans hbody⟩

/-- What was not changed can be written as before. -/
theorem content_eq (h : Revises p b b') (hp : ¬ p) : b'.content = b.content := by
  unfold content
  rw [h.command, h.delimiter, (h.keeps hp).2]

end Block.Revises

namespace Block

variable {f : Edit Block} {b : Block}

theorem snd_edit (f : Edit Block) (b : Block) : (b.edit f).2 = (f b).2 := by
  unfold edit
  split <;> next h => rw [h]

theorem body_edit (f : Edit Block) (b : Block) : (b.edit f).1.body = (f b).1.body := by
  unfold edit
  split <;> next h => rw [h]

theorem edit_eq_self (hf : Edit.IsHonest f) (h : (f b).2 = false) : (b.edit f).1 = b := by
  have hsame := hf b h
  unfold edit
  split
  · next b' hb => simp [hb] at h
  · next b' hb => simpa [hb] using hsame

/-- An honest edit that leaves command and delimiter alone. -/
theorem revises_edit (hf : Edit.IsHonest f) (hcommand : (f b).1.command = b.command)
    (hdelimiter : (f b).1.delimiter = b.delimiter) :
    Revises ((b.edit f).2 = true) b (b.edit f).1 := by
  rw [snd_edit]
  cases hchanged : (f b).2 with
  | false =>
      rw [edit_eq_self hf hchanged]
      exact .refl Bool.false_ne_true b
  | true =>
      unfold edit
      split
      · next b' hb =>
        rw [hb] at hcommand hdelimiter
        exact ⟨hcommand, hdelimiter, fun _ => rfl, fun h => absurd rfl h⟩
      · next b' hb => simp [hb] at hchanged

/-- An honest edit of entries is one of blocks. -/
theorem isHonest_editBody {f : Edit Entry} (hf : Edit.IsHonest f) :
    Edit.IsHonest fun b : Block => match b.body with
      | .entry e => ({ b with body := .entry (f e).1 }, (f e).2)
      | _ => (b, false) := by
  intro b h
  obtain ⟨command, d, body, source⟩ := b
  cases body with
  | entry e =>
      have he : (f e).1 = e := hf e h
      dsimp only
      rw [he]
  | _ => rfl

theorem editEntry_eq_self {f : Edit Entry} (hf : Edit.IsHonest f) (h : (b.editEntry f).2 = false) :
    (b.editEntry f).1 = b := by
  unfold editEntry at h ⊢
  rw [snd_edit] at h
  exact edit_eq_self (isHonest_editBody hf) h

/-- An edit of entries as one of blocks. -/
theorem revises_editEntry {f : Edit Entry} (hf : Edit.IsHonest f) (b : Block) :
    Revises ((b.editEntry f).2 = true) b (b.editEntry f).1 := by
  refine revises_edit (isHonest_editBody hf) ?_ ?_
  · split <;> rfl
  · split <;> rfl

end Block

/-- A node after an operation that may have changed it. -/
inductive Node.Revises (changed : Prop) : Node → Node → Prop where
  | text (t t' : Text) : Revises changed (.text t) (.text t')
  | block {b b' : Block} (h : Block.Revises changed b b') : Revises changed (.block b) (.block b')

namespace Node

variable {p q : Prop} {m n k : Node}

theorem Revises.refl (hp : ¬ p) (n : Node) : Revises p n n := by
  cases n with
  | text t => exact .text t t
  | block b => exact .block (.refl hp b)

theorem Revises.trans (h : Revises p m n) (h' : Revises q n k) : Revises (p ∨ q) m k := by
  cases h with
  | text t u =>
      cases h' with
      | text _ v => exact .text t v
  | block h =>
      cases h' with
      | block h' => exact .block (h.trans h')

/-- The entry of an edited node is the edited entry. -/
theorem entry?_editEntry (f : Edit Entry) (n : Node) :
    Node.entry? (n.editEntry f).1 = n.entry?.map fun e => (f e).1 := by
  cases n with
  | text t => rfl
  | block b =>
      obtain ⟨command, d, body, source⟩ := b
      change Body.entry? (Block.editEntry f ⟨command, d, body, source⟩).1.body = body.entry?.map _
      unfold Block.editEntry
      rw [Block.body_edit]
      cases body <;> rfl

/-- An edit of a node tells what the edit of its entry does. -/
theorem snd_editEntry (f : Edit Entry) (n : Node) :
    (n.editEntry f).2 = n.entry?.any fun e => (f e).2 := by
  cases n with
  | text t => rfl
  | block b =>
      obtain ⟨command, d, body, source⟩ := b
      change (Block.editEntry f ⟨command, d, body, source⟩).2 = body.entry?.any _
      unfold Block.editEntry
      rw [Block.snd_edit]
      cases body <;> rfl

theorem editEntry_eq_self {f : Edit Entry} (hf : Edit.IsHonest f) {n : Node}
    (h : (n.editEntry f).2 = false) : (n.editEntry f).1 = n := by
  cases n with
  | text t => rfl
  | block b => exact congrArg block (Block.editEntry_eq_self hf h)

theorem revises_editEntry {f : Edit Entry} (hf : Edit.IsHonest f) (n : Node) :
    Revises ((n.editEntry f).2 = true) n (n.editEntry f).1 := by
  cases n with
  | text t => exact .text t t
  | block b => exact .block (b.revises_editEntry hf)

theorem revises_tidy (onNewLine : Bool) (n : Node) :
    Revises ((n.tidy onNewLine).2 = true) n (n.tidy onNewLine).1 := by
  cases n with
  | text t =>
      rw [tidy]
      split <;> exact .text _ _
  | block b =>
      refine .block (Block.revises_edit keeps_tidyComment.isHonest ?_ ?_)
      · unfold tidyComment
        split <;> rfl
      · unfold tidyComment
        split <;> rfl

end Node

/-! ## documents -/

namespace Document

variable {d d' d'' : Document} {changed more : List NodeId}

/-- A document after an operation that tells the handles it changed. -/
def Revises (changed : List NodeId) (d d' : Document) : Prop :=
  ∀ id, Option.Rel (Node.Revises (id ∈ changed)) (d.node? id) (d'.node? id)

namespace Revises

/-- It does not matter which handles of texts are told. -/
theorem congr (h : Revises changed d d')
    (hmem : ∀ id b, d.block? id = some b → (id ∈ changed ↔ id ∈ more)) : Revises more d d' := by
  intro id
  have hid := h id
  have hmem := hmem id
  unfold block? at hmem
  generalize d.node? id = n at hid hmem ⊢
  generalize d'.node? id = n' at hid ⊢
  cases hid with
  | none => exact .none
  | some h =>
      cases h with
      | text t t' => exact .some (.text t t')
      | @block b b' h =>
          rw [hmem b rfl] at h
          exact .some (.block h)

theorem of_node?_eq (h : ∀ id, d'.node? id = d.node? id) : Revises [] d d' := by
  intro id
  rw [h id]
  cases d.node? id with
  | none => exact .none
  | some n => exact .some (.refl List.not_mem_nil n)

theorem refl (d : Document) : Revises [] d d := of_node?_eq fun _ => rfl

theorem trans (h : Revises changed d d') (h' : Revises more d' d'') :
    Revises (changed ++ more) d d'' := by
  intro id
  rw [List.mem_append]
  have hid := h id
  have hid' := h' id
  generalize d.node? id = n at hid ⊢
  generalize d'.node? id = n' at hid hid'
  generalize d''.node? id = n'' at hid' ⊢
  cases hid with
  | none =>
      cases hid' with
      | none => exact .none
  | some h =>
      cases hid' with
      | some h' => exact .some (h.trans h')

/-- A block comes from the block that the handle had. -/
theorem exists_block (h : Revises changed d d') {id : NodeId} {b' : Block}
    (hb : d'.block? id = some b') :
    ∃ b, d.block? id = some b ∧ Block.Revises (id ∈ changed) b b' := by
  have hid := h id
  unfold block? at hb ⊢
  generalize d.node? id = n at hid ⊢
  generalize d'.node? id = n' at hid hb
  cases hid with
  | none => cases hb
  | some h =>
      cases h with
      | text t t' => cases hb
      | block h =>
          cases hb
          exact ⟨_, rfl, h⟩

/-- The entry of a handle that was not changed has the fields that it had. -/
theorem fields_eq (h : Revises changed d d') {id : NodeId} (hid : id ∉ changed) :
    (d'.entry? id).map Entry.fields = (d.entry? id).map Entry.fields := by
  have hrel := h id
  unfold entry?
  generalize d.node? id = n at hrel ⊢
  generalize d'.node? id = n' at hrel ⊢
  cases hrel with
  | none => rfl
  | some h =>
      cases h with
      | text t t' => rfl
      | @block b b' h =>
          have hbody : b'.body.unmarked = b.body.unmarked := (h.keeps hid).2
          have hfields (body : Body) :
              body.unmarked.entry?.map Entry.fields = body.entry?.map Entry.fields := by
            cases body <;> rfl
          calc
            b'.body.entry?.map Entry.fields = b'.body.unmarked.entry?.map Entry.fields :=
              (hfields b'.body).symm
            _ = b.body.unmarked.entry?.map Entry.fields := by rw [hbody]
            _ = b.body.entry?.map Entry.fields := hfields b.body

end Revises

/-! ## edits -/

/-- The handle of a node that may have changed. -/
def changedHandle (id : NodeId) (changed : Bool) : List NodeId := if changed then [id] else []

theorem mem_changedHandle {id j : NodeId} {changed : Bool} :
    j ∈ changedHandle id changed ↔ j = id ∧ changed = true := by
  cases changed <;> simp [changedHandle]

theorem node?_setNode {id : NodeId} {m : Node} (hm : d.node? id = some m) (n : Node)
    (j : NodeId) : (d.setNode id n).node? j = if j = id then some n else d.node? j := by
  have hlength : id < d.nodes.length := (List.getElem?_eq_some_iff.1 hm).1
  unfold node? setNode
  rw [List.getElem?_set]
  by_cases hj : j = id
  · simp [hj, hlength]
  · simp [hj, Ne.symm hj]

/-- Another node in the place of one. -/
theorem revises_setNode {id : NodeId} {m n : Node} (hm : d.node? id = some m) {c : Bool}
    (h : Node.Revises (c = true) m n) : Revises (changedHandle id c) d (d.setNode id n) := by
  intro j
  rw [node?_setNode hm, mem_changedHandle]
  by_cases hj : j = id
  · subst hj
    rw [hm, if_pos rfl]
    simpa using Option.Rel.some h
  · rw [if_neg hj]
    cases d.node? j with
    | none => exact .none
    | some k => exact .some (.refl (by simp [hj]) k)

theorem node?_editNode_of_ne {id j : NodeId} (f : Edit Node) (d : Document) (hj : j ≠ id) :
    (d.editNode f id).1.node? j = d.node? j := by
  unfold editNode
  split
  · next n hn => rw [node?_setNode hn, if_neg hj]
  · rfl

theorem node?_editNode {id : NodeId} (f : Edit Node) (d : Document) :
    (d.editNode f id).1.node? id = (d.node? id).map fun n => (f n).1 := by
  unfold editNode
  split
  · next n hn => rw [node?_setNode hn, if_pos rfl, hn, Option.map_some]
  · next hn => rw [hn, Option.map_none]

/-- An edit of a node that does not count as a change leaves the document as it is. -/
theorem editNode_eq_self {id : NodeId} {f : Edit Node} {d : Document}
    (h : ∀ n ∈ d.node? id, f n = (n, false)) : d.editNode f id = (d, false) := by
  unfold editNode
  split
  · next n hn =>
    rw [h n hn]
    obtain ⟨hlength, rfl⟩ := List.getElem?_eq_some_iff.1 hn
    refine Prod.ext ?_ rfl
    exact congrArg (Document.mk · d.order) (List.set_getElem_self hlength)
  · rfl

/-- **An edit of one node.** -/
theorem revises_editNode {f : Edit Node} (hf : ∀ n, Node.Revises ((f n).2 = true) n (f n).1)
    (id : NodeId) (d : Document) :
    Revises (changedHandle id (d.editNode f id).2) d (d.editNode f id).1 := by
  unfold editNode
  split
  · next n hn => exact revises_setNode hn (hf n)
  · exact .refl d

/-- **An edit of one entry.** -/
theorem revises_editEntry {f : Edit Entry} (hf : Edit.IsHonest f) (id : NodeId) (d : Document) :
    Revises (changedHandle id (d.editEntry f id).2) d (d.editEntry f id).1 :=
  revises_editNode (Node.revises_editEntry hf) id d

theorem mem_editEntries {f : Edit Entry} {id : NodeId} :
    id ∈ (d.editEntries f).2 ↔
      id ∈ d.order ∧ ∃ n, d.node? id = some n ∧ (n.editEntry f).2 = true := by
  have hnode (n : Node) : (n.editEntry f).2 = true ↔ ∃ e, n.entry? = some e ∧ (f e).2 = true := by
    rw [Node.snd_editEntry]
    exact Option.any_eq_true _ _
  simp only [hnode, editEntries, entries, entry?, List.mem_filterMap, Option.map_eq_some_iff,
    Option.bind_eq_some_iff, Option.ite_none_right_eq_some, Option.some.injEq, Prod.exists,
    Prod.mk.injEq]
  constructor
  · rintro ⟨i, e, ⟨j, hj, e', ⟨n, hn, he⟩, rfl, rfl⟩, hf, rfl⟩
    exact ⟨hj, n, hn, e', he, hf⟩
  · rintro ⟨hid, n, hn, e, he, hf⟩
    exact ⟨id, e, ⟨id, hid, e, ⟨n, hn, he⟩, rfl, rfl⟩, hf, rfl⟩

theorem node?_editEntries (f : Edit Entry) (d : Document) (id : NodeId) :
    (d.editEntries f).1.node? id =
      (d.node? id).map fun n => if id ∈ d.order then (n.editEntry f).1 else n := by
  unfold node? editEntries
  exact List.getElem?_mapIdx

/-- **An edit of every entry.** -/
theorem revises_editEntries {f : Edit Entry} (hf : Edit.IsHonest f) (d : Document) :
    Revises (d.editEntries f).2 d (d.editEntries f).1 := by
  intro id
  rw [node?_editEntries]
  cases hn : d.node? id with
  | none => exact .none
  | some n =>
      refine .some ?_
      rw [mem_editEntries, hn]
      by_cases hid : id ∈ d.order
      · simpa [hid] using n.revises_editEntry hf
      · simpa [hid] using Node.Revises.refl not_false n

/-- An honest edit of fields is one of entries. -/
theorem isHonest_fields {f : Edit (List Field)} (hf : Edit.IsHonest f) :
    Edit.IsHonest fun e : Entry => ({ e with fields := (f e.fields).1 }, (f e.fields).2) := by
  intro e h
  have hfields : (f e.fields).1 = e.fields := hf e.fields h
  dsimp only
  rw [hfields]

/-- **An edit of the fields of every entry.** -/
theorem revises_editFields {f : Edit (List Field)} (hf : Edit.IsHonest f) (d : Document) :
    Revises (d.editFields f).2 d (d.editFields f).1 :=
  revises_editEntries (isHonest_fields hf) d

/-- Sorting touches the order only. -/
theorem revises_sortEntries (d : Document) (index : FieldIndex) (keys : List SortKey) :
    Revises [] d (d.sortEntries index keys).1 := by
  refine .of_node?_eq fun id => ?_
  unfold sortEntries
  split <;> rfl

/-! ## commentary -/

/-- Whether a handle has a comment with white space at the ends of its payload. -/
def isUntidy (d : Document) (id : NodeId) : Bool :=
  (d.block? id).any fun b => (Node.tidyComment b).2

/-- Bringing one node into shape changes it if it is an untidy comment, and then it is one no
more. -/
theorem mem_untidy_step (onNewLine : Bool) {id j : NodeId} {b : Block} (ids : List NodeId)
    (hb : d.block? j = some b) :
    (j ∈ changedHandle id (d.editNode (Node.tidy onNewLine) id).2 ∨
        j ∈ ids ∧ (d.editNode (Node.tidy onNewLine) id).1.isUntidy j = true) ↔
      (j = id ∨ j ∈ ids) ∧ d.isUntidy j = true := by
  have hnode : d.node? j = some (.block b) := by
    obtain ⟨n, hn, hnb⟩ := Option.bind_eq_some_iff.1 hb
    cases n with
    | text t => cases hnb
    | block b' =>
        cases hnb
        exact hn
  unfold isUntidy block?
  rw [mem_changedHandle, hnode]
  by_cases hj : j = id
  · subst hj
    have hsnd : ((Node.block b).tidy onNewLine).2 = (Node.tidyComment b).2 := Block.snd_edit _ b
    unfold editNode
    rw [hnode]
    dsimp only
    rw [node?_setNode hnode, if_pos rfl, hsnd]
    cases hchanged : (Node.tidyComment b).2 with
    | false =>
        have hsame : ((Node.block b).tidy onNewLine).1 = .block b :=
          congrArg Node.block (Block.edit_eq_self Node.keeps_tidyComment.isHonest hchanged)
        simp [hsame, hchanged, Node.block?]
    | true => simp [Node.block?, hchanged]
  · simp [hj, node?_editNode_of_ne _ d hj, hnode]

/-- Bringing commentary into shape changes the untidy comments. -/
theorem revises_tidyCommentsFrom (onNewLine : Bool) (ids : List NodeId) (d : Document) :
    Revises (ids.filter d.isUntidy) d (tidyCommentsFrom onNewLine ids d).1 := by
  induction ids generalizing onNewLine d with
  | nil => exact .refl d
  | cons id ids ih =>
      have hnode := revises_editNode (Node.revises_tidy onNewLine) id d
      refine (hnode.trans (ih _ _)).congr fun j b hb => ?_
      rw [List.mem_append, List.mem_filter, List.mem_filter, List.mem_cons]
      exact mem_untidy_step onNewLine ids hb

/-! ## duplicates -/

/-- The note of a duplicate is not told: it is not written. -/
theorem revises_markDuplicate (d : Document) (id earlier : NodeId) :
    Revises [] d (d.markDuplicate id earlier) := by
  unfold markDuplicate
  split
  · next b hb =>
    split
    · next e he =>
      refine revises_setNode (c := false) hb
        (.block ⟨rfl, rfl, fun h => absurd h Bool.false_ne_true, fun _ => ⟨rfl, ?_⟩⟩)
      rw [he]
      rfl
    · exact .refl d
  · exact .refl d

theorem revises_detect (d : Document) (index : FieldIndex) (rules : List DuplicateRule) :
    Revises [] d (d.detect index rules).document := by
  have hmarks (ds : List Duplicate) (d : Document) :
      Revises [] d (ds.foldl (fun d dup => d.markDuplicate dup.entry dup.root) d) := by
    induction ds generalizing d with
    | nil => exact .refl d
    | cons dup ds ih => exact (revises_markDuplicate d dup.entry dup.root).trans (ih _)
  exact hmarks _ d

/-! ## citation keys -/

theorem isExact_setKey (key : Option Text) : Edit.IsExact (Entry.setKey key) := by
  intro e
  obtain ⟨key', fields, duplicateOf⟩ := e
  simpa [Entry.setKey] using not_congr eq_comm

theorem revises_setKeys (keys : List (NodeId × Text)) (d : Document) :
    Revises (setKeys keys d).2 d (setKeys keys d).1 := by
  induction keys generalizing d with
  | nil => exact .refl d
  | cons p keys ih =>
      have hkey := revises_editEntry (isExact_setKey (some p.2)).isHonest p.1 d
      have hkeys := hkey.trans (ih (d.editEntry (Entry.setKey (some p.2)) p.1).1)
      rw [setKeys]
      dsimp only
      cases hchanged : (d.editEntry (Entry.setKey (some p.2)) p.1).2 <;>
        simpa [hchanged, changedHandle] using hkeys

/-- **Generating keys** tells the entries whose keys changed. -/
theorem revises_generateKeysFrom (d : Document) (index : FieldIndex) (template : Text) :
    Revises (d.generateKeysFrom index template).2.1 d (d.generateKeysFrom index template).1 := by
  unfold generateKeysFrom
  split
  · exact revises_setKeys _ d
  · exact .refl d

end Document

/-! ## merging -/

namespace Entry

variable {overwrite : Bool}

theorem isHonest_absorb (overwrite : Bool) (f : Field) : Edit.IsHonest (absorb overwrite f) := by
  intro fs h
  induction fs with
  | nil => cases h
  | cons g gs ih =>
      unfold absorb at h ⊢
      split at h
      · next hname =>
        rw [if_pos hname]
        split at h
        · next hoverwrite =>
          have hvalue : g.value = f.value := by simpa using h
          rw [if_pos hoverwrite, ← hvalue]
        · next hoverwrite => rw [if_neg hoverwrite]
      · next hname =>
        rw [if_neg hname]
        dsimp only at h ⊢
        rw [ih h]

/-- The first field is taken up before the others. -/
theorem absorbAll_cons (overwrite : Bool) (f : Field) (incoming fs : List Field) :
    absorbAll overwrite (f :: incoming) fs =
      ((absorbAll overwrite incoming (absorb overwrite f fs).1).1,
        (absorb overwrite f fs).2 || (absorbAll overwrite incoming (absorb overwrite f fs).1).2) := by
  let step (st : List Field × Bool) (g : Field) : List Field × Bool :=
    ((absorb overwrite g st.1).1, st.2 || (absorb overwrite g st.1).2)
  have hstep (incoming fs : List Field) :
      absorbAll overwrite incoming fs = incoming.foldl step (fs, false) := rfl
  -- A change that was found before is not forgotten.
  have hfound (incoming fs : List Field) (changed : Bool) : incoming.foldl step (fs, changed) =
      ((incoming.foldl step (fs, false)).1, changed || (incoming.foldl step (fs, false)).2) := by
    induction incoming generalizing fs changed with
    | nil => simp
    | cons g incoming ih =>
        rw [List.foldl_cons, List.foldl_cons, ih, ih _ (false || _)]
        simp [Bool.or_assoc, step]
  rw [hstep, List.foldl_cons, hfound, hstep]
  simp [step]

theorem isHonest_absorbAll (overwrite : Bool) (incoming : List Field) :
    Edit.IsHonest (absorbAll overwrite incoming) := by
  induction incoming with
  | nil => exact fun _ _ => rfl
  | cons f incoming ih =>
      intro fs h
      rw [absorbAll_cons] at h ⊢
      obtain ⟨hfirst, hrest⟩ := Bool.or_eq_false_iff.1 h
      rw [ih _ hrest, isHonest_absorb overwrite f fs hfirst]

end Entry

namespace Document

theorem revises_absorb (c : Cluster) (overwrite : Bool) (d : Document) :
    Revises (changedHandle c.root (c.absorb overwrite d).2) d (c.absorb overwrite d).1 := by
  refine revises_editEntry ?_ c.root d
  intro e h
  have hfields := Entry.isHonest_absorbAll overwrite (c.incoming d) e.fields h
  dsimp only
  rw [hfields]

theorem revises_absorbEach (overwrite : Bool) (cs : List Cluster) (d : Document) :
    Revises (Cluster.absorbEach overwrite cs d).2 d (Cluster.absorbEach overwrite cs d).1 := by
  induction cs generalizing d with
  | nil => exact .refl d
  | cons c cs ih =>
      have hroots := (revises_absorb c overwrite d).trans (ih (c.absorb overwrite d).1)
      rw [Cluster.absorbEach]
      dsimp only
      cases hchanged : (c.absorb overwrite d).2 <;> simpa [hchanged, changedHandle] using hroots

/-- **Merging** tells the roots that took up fields. -/
theorem revises_merge (d : Document) (clusters : List Cluster) (strategy : MergeStrategy) :
    Revises (d.merge clusters strategy).changed d (d.merge clusters strategy).document := by
  unfold merge
  cases strategy.absorbs? with
  | none => exact .refl d
  | some overwrite => exact revises_absorbEach overwrite clusters d

end Document

end Bibliography
