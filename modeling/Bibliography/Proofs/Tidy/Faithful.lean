import Bibliography.Proofs.Fields
import Bibliography.Proofs.Parse.Sound
import Bibliography.Proofs.Render.RoundTrip

/-!
# Bibliography.Proofs.Tidy.Faithful

Documents that are written as what they are.  A document is *faithful* if every
block of it is well-formed and, while it has its source, read from that source
whatever follows; if its free text is inert; and if no two texts stand side by
side.  That is enough to cut the written document into its nodes again.

* `Document.isFaithful_parse` — what is read without recovery is faithful;
* `Document.parse_preserved` — reading what is written for a faithful document
  gives its blocks.
-/

namespace Bibliography

/-! ## blocks -/

namespace Block

/-- What of a block can be written: neither its source nor a note. -/
def content (b : Block) : Block := { b with body := b.body.unmarked, source := none }

@[simp] theorem content_unmarked (b : Block) (source : Option Text) :
    content { b with body := b.body.unmarked, source } = b.content := by
  unfold content
  cases b.body <;> rfl

/-- A text is read as a block up to its closing bracket, whatever follows. -/
def IsReadFrom (b : Block) (t : Text) : Prop :=
  ∃ s, t = '@' :: s ∧ ∀ rest, ∃ r, read? (s ++ rest) = some r ∧ r.IsClean ∧
    r.block.content = b.content ∧ r.rest = rest

/-- A block that is well-formed, and read from its source while it has one. -/
structure IsFaithful (b : Block) : Prop where
  wellFormed : b.IsWellFormed
  source : ∀ t ∈ b.source, b.IsReadFrom t

variable {b : Block}

/-- A well-formed block is read from what is written for it. -/
theorem IsWellFormed.isReadFrom (h : b.IsWellFormed) : b.IsReadFrom (({} : Layout).block b) := by
  obtain ⟨s, hs, -⟩ := read?_default h []
  refine ⟨s, hs, fun rest => ?_⟩
  obtain ⟨s', hs', hread⟩ := read?_default h rest
  obtain rfl := (List.cons.inj (hs.symm.trans hs')).2
  refine ⟨_, hread, ?_, content_unmarked b _, rfl⟩
  intro cause hcause
  split at hcause
  · obtain rfl := List.mem_singleton.1 hcause
    rfl
  · cases hcause

/-- A faithful block is read from the text that stands for it. -/
theorem IsFaithful.isReadFrom (h : b.IsFaithful) : b.IsReadFrom (Node.block b).preserved := by
  rw [Node.preserved]
  cases hs : b.source with
  | none => exact h.wellFormed.isReadFrom
  | some t => exact h.source t hs

/-- A block without a source is faithful if it is well-formed. -/
theorem IsWellFormed.isFaithful (h : b.IsWellFormed) : { b with source := none }.IsFaithful :=
  ⟨⟨h.command, h.kind, h.body⟩, by simp⟩

/-- **A block that was read** up to its closing bracket is faithful. -/
theorem isFaithful_of_read? {s : Text} {r : BlockRead} (h : read? s = some r)
    (hclean : r.IsClean) : r.block.IsFaithful := by
  refine ⟨isWellFormed_of_read? h hclean, fun t ht => ?_⟩
  obtain ⟨t', hsource, rfl⟩ := source_append_rest h
  obtain rfl : '@' :: t' = t := Option.some.inj (hsource.symm.trans ht)
  refine ⟨t', rfl, fun rest => ?_⟩
  obtain ⟨r', hr', hagrees, hrest⟩ := read?_extend (z := rest) (r := []) h rfl (.inr hclean)
  refine ⟨r', hr', ?_, by rw [hagrees.block], hrest⟩
  intro cause hcause
  have hcode : cause.code ∈ r.causes.map Cause.code := by
    rw [← hagrees.codes]
    exact List.mem_map_of_mem hcause
  obtain ⟨c, hc, hcode⟩ := List.mem_map.1 hcode
  have hrecovery := hclean c hc
  unfold Cause.isRecovery at hrecovery ⊢
  rwa [← hcode]

/-- **An edit keeps a block faithful** if it keeps it well-formed. -/
theorem IsFaithful.edit {f : Edit Block} (hf : Edit.Keeps IsWellFormed f) (h : b.IsFaithful) :
    (b.edit f).1.IsFaithful := by
  have hkeeps := hf.keeps h.wellFormed
  unfold Block.edit
  split
  · next b' hb =>
    rw [hb] at hkeeps
    exact hkeeps.isFaithful
  · next b' hb =>
    have hsame := hf.honest (by rw [hb] : (f b).2 = false)
    rw [hb] at hsame
    dsimp only at hsame ⊢
    rw [hsame]
    exact h

/-- An edit of entries is one of blocks. -/
theorem keeps_editEntry {f : Edit Entry} (hf : Edit.Keeps Entry.IsWellFormed f) :
    Edit.Keeps IsWellFormed fun b => match b.body with
      | .entry e => ({ b with body := .entry (f e).1 }, (f e).2)
      | _ => (b, false) where
  keeps {b} h := by
    obtain ⟨command, d, body, source⟩ := b
    cases body with
    | entry e => exact ⟨h.command, h.kind, hf.keeps h.body⟩
    | _ => exact h
  honest {b} h := by
    obtain ⟨command, d, body, source⟩ := b
    cases body with
    | entry e =>
        have he : (f e).1 = e := hf.honest h
        dsimp only
        rw [he]
    | _ => rfl

/-- The note of a duplicate is not written. -/
theorem IsFaithful.mark {e : Entry} (h : b.IsFaithful) (hb : b.body = .entry e)
    (earlier : NodeId) :
    { b with body := .entry { e with duplicateOf := some earlier } }.IsFaithful := by
  obtain ⟨command, d, body, source⟩ := b
  obtain rfl : body = .entry e := hb
  have he : e.IsWellFormed := h.wellFormed.body
  exact ⟨⟨h.wellFormed.command, h.wellFormed.kind, ⟨he.key, he.fields⟩⟩, h.source⟩

end Block

/-! ## nodes -/

namespace Node

/-- A node that is written as what it is. -/
def IsFaithful : Node → Prop
  | text t => t ≠ [] ∧ Inert t
  | block b => b.IsFaithful

theorem IsFaithful.editEntry {f : Edit Entry} (hf : Edit.Keeps Entry.IsWellFormed f) {n : Node}
    (h : n.IsFaithful) : (n.editEntry f).1.IsFaithful := by
  cases n with
  | text t => exact h
  | block b => exact Block.IsFaithful.edit (Block.keeps_editEntry hf) h

@[simp] theorem isText_editEntry (f : Edit Entry) (n : Node) :
    (n.editEntry f).1.isText = n.isText := by
  cases n <;> rfl

end Node

/-! ## documents -/

namespace Document

variable {d d' : Document}

/-- Not both of two nodes are free text. -/
def Apart (m n : Node) : Prop := ¬ (m.isText ∧ n.isText)

/-- A document that is written as what it is. -/
structure IsFaithful (d : Document) : Prop where
  nodes : ∀ n ∈ d.nodes, n.IsFaithful
  apart : d.present.IsChain Apart

/-- The blocks of a document, in order. -/
def blocks (d : Document) : List Block := d.present.filterMap Node.block?

theorem mem_nodes_of_mem_present {n : Node} (h : n ∈ d.present) : n ∈ d.nodes := by
  obtain ⟨id, -, hid⟩ := List.mem_filterMap.1 h
  exact List.mem_of_getElem? hid

/-- **What is read without recovery is faithful.** -/
theorem isFaithful_parse {s : Text} (h : ∀ w ∈ (parse s).2, w.cause.isRecovery = false) :
    (parse s).1.IsFaithful := by
  have hcut := Piece.cut_ofText s
  refine ⟨fun n hn => ?_, ?_⟩
  · obtain ⟨p, hp, rfl⟩ := List.mem_map.1 hn
    cases p with
    | text t => exact ⟨hcut.text_ne_nil hp, hcut.inert hp⟩
    | block b causes =>
        obtain ⟨r, rest, hread⟩ := hcut.read hp
        refine Block.isFaithful_of_read? hread fun cause hcause => ?_
        obtain ⟨i, hi⟩ := List.mem_iff_getElem?.1 hp
        refine h ⟨cause, some ⟨i, b.entry?.bind Entry.key⟩, none⟩ ?_
        refine List.mem_flatMap.2 ⟨_, List.mk_mem_zipIdx_iff_getElem?.2 hi, ?_⟩
        exact List.mem_map.2 ⟨cause, hcause, rfl⟩
  · rw [present_parse, List.isChain_map]
    simpa only [Apart, Piece.isText_node] using hcut.noAdjacentText

/-! ## reading what is written -/

/-- **Faithful nodes are the pieces of what is written for them.** -/
theorem exists_cut {ns : List Node} (hns : ∀ n ∈ ns, n.IsFaithful) (hapart : ns.IsChain Apart) :
    ∃ ps, Piece.Cut (ns.flatMap Node.preserved) ps ∧
      ps.map (fun p => p.node.isText) = ns.map Node.isText ∧
      (ps.filterMap fun p => p.node.block?.map Block.content) =
        (ns.filterMap fun n => n.block?.map Block.content) ∧
      ∀ b causes, .block b causes ∈ ps → ∀ cause ∈ causes, cause.isRecovery = false := by
  induction ns with
  | nil => exact ⟨[], .nil, rfl, rfl, by simp⟩
  | cons n ns ih =>
      obtain ⟨hn, hns⟩ := List.forall_mem_cons.1 hns
      obtain ⟨hhead, hapart⟩ := List.isChain_cons.1 hapart
      obtain ⟨ps, hcut, htexts, hblocks, hclean⟩ := ih hns hapart
      cases n with
      | block b =>
          obtain ⟨s, hs, hread⟩ := hn.isReadFrom
          obtain ⟨r, hr, hrclean, hcontent, hrest⟩ := hread (ns.flatMap Node.preserved)
          refine ⟨.block r.block r.causes :: ps, ?_, ?_, ?_, ?_⟩
          · rw [List.flatMap_cons, hs, List.cons_append]
            exact .block hr (hrest ▸ hcut)
          · rw [List.map_cons, List.map_cons, htexts]
            rfl
          · simpa [Piece.node, Node.block?, hcontent] using hblocks
          · intro b' causes hb'
            obtain hb' | hb' := List.mem_cons.1 hb'
            · cases hb'
              exact hrclean
            · exact hclean b' causes hb'
      | text t =>
          have hhead' : ∀ p ∈ ps.head?, p.isText = false := by
            intro p hp
            have hm : p.node.isText ∈ (ns.map Node.isText).head? := by
              rw [← htexts, List.head?_map]
              exact Option.mem_map_of_mem _ hp
            rw [List.head?_map] at hm
            obtain ⟨m, hm, hmp⟩ := Option.map_eq_some_iff.1 hm
            have hblock := hhead m hm
            rw [← Piece.isText_node, ← hmp]
            simpa [Apart, Node.isText] using hblock
          refine ⟨.text t :: ps, ?_, ?_, ?_, ?_⟩
          · have hfree : IsFree t (ns.flatMap Node.preserved) :=
              (isFree_iff_inert (hcut.follows hhead') t).2 hn.2
            exact .text hn.1 hfree hhead' hcut
          · rw [List.map_cons, List.map_cons, htexts]
            rfl
          · simpa [Piece.node, Node.block?] using hblocks
          · intro b' causes hb'
            obtain hb' | hb' := List.mem_cons.1 hb'
            · cases hb'
            · exact hclean b' causes hb'

/-- What is found about the blocks of a text is all that is found. -/
theorem isRecovery_of_mem_parse {s : Text} (h : ∀ b causes, .block b causes ∈ Piece.ofText s →
    ∀ cause ∈ causes, cause.isRecovery = false) :
    ∀ w ∈ (parse s).2, w.cause.isRecovery = false := by
  intro w hw
  obtain ⟨⟨p, i⟩, hp, hw⟩ := List.mem_flatMap.1 hw
  cases p with
  | text t => cases hw
  | block b causes =>
      obtain ⟨cause, hcause, rfl⟩ := List.mem_map.1 hw
      exact h b causes (List.fst_mem_of_mem_zipIdx hp) cause hcause

/-- **Reading what is written for a faithful document** gives its blocks, without
recovery. -/
theorem parse_preserved (h : d.IsFaithful) :
    (parse d.preserved).1.blocks.map Block.content = d.blocks.map Block.content ∧
      ∀ w ∈ (parse d.preserved).2, w.cause.isRecovery = false := by
  obtain ⟨ps, hcut, -, hblocks, hclean⟩ :=
    exists_cut (fun n hn => h.nodes n (mem_nodes_of_mem_present hn)) h.apart
  rw [← preserved_eq] at hcut
  have hps := Piece.ofText_eq_of_cut hcut
  constructor
  · unfold blocks
    rw [present_parse, hps, List.map_filterMap, List.map_filterMap, List.filterMap_map]
    exact hblocks
  · refine isRecovery_of_mem_parse ?_
    rw [hps]
    exact hclean

end Document

end Bibliography
