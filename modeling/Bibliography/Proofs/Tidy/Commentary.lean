import Bibliography.Proofs.Tidy.Sessions
import Bibliography.Proofs.Tidy.Shape

/-!
# Bibliography.Proofs.Tidy.Commentary

Commentary is removed or brought into shape on any input, also where blocks had
to be recovered.  A block without its closing bracket ended because an `@` at the
start of a line comes next, be it of a block or of free text.  If free text is
removed, what stays after it is a block or nothing; if it is brought into shape,
it keeps its `@`, and its place at the start of the line, because it is known of
the node before whether that ends a line.

`Document.AreReread` says that nodes are read from what is written for them, and
`AreReread.unchanged` what has to be seen to after a block.  Both passes are
followed by induction over the pieces of the input.

* `Document.areReread_keptNodes` — what is left without commentary;
* `Document.areReread_tidyNodes` — nodes with their commentary in shape;
* `tidy_commentary` — runs on commentary.
-/

namespace Bibliography

namespace Document

variable {d : Document} {s t : Text} {b : Block} {ns : List Node} {ps : List Piece}

/-! ## nodes that are read again -/

/-- Nodes that are read from what is written for them. -/
def AreReread (ns : List Node) : Prop :=
  ∃ ps, Piece.Cut (ns.flatMap Node.preserved) ps ∧ ps.map Piece.node = ns

namespace AreReread

theorem present_parse (h : AreReread ns) : (parse (ns.flatMap Node.preserved)).1.present = ns := by
  obtain ⟨ps, hcut, hps⟩ := h
  rw [Document.present_parse, Piece.ofText_eq_of_cut hcut, hps]

/-- Nodes that were read have their sources. -/
theorem sourced_eq (h : AreReread ns) : ∀ n ∈ ns, n.sourced = n := by
  obtain ⟨ps, hcut, rfl⟩ := h
  intro n hn
  obtain ⟨p, hp, rfl⟩ := List.mem_map.1 hn
  cases p with
  | text t => rfl
  | block b causes =>
      obtain ⟨r, rest, hread⟩ := hcut.read hp
      obtain ⟨t, hsource, -⟩ := Block.source_append_rest hread
      exact Node.sourced_of_source hsource

theorem nil : AreReread [] := ⟨[], .nil, rfl⟩

theorem text (h : AreReread ns) (hne : t ≠ []) (ht : Inert t)
    (hhead : ∀ n ∈ ns.head?, n.isText = false) : AreReread (.text t :: ns) := by
  obtain ⟨ps, hcut, rfl⟩ := h
  have hhead' : ∀ p ∈ ps.head?, p.isText = false := by
    intro p hp
    rw [← Piece.isText_node]
    exact hhead _ (by rw [List.head?_map]; exact Option.mem_map_of_mem _ hp)
  have hfree := (isFree_iff_inert (hcut.follows hhead') t).2 ht
  exact ⟨.text t :: ps, .text hne hfree hhead' hcut, rfl⟩

theorem block (h : AreReread ns) (hb : b.ReadsAs s (ns.flatMap Node.preserved)) :
    AreReread (.block b :: ns) := by
  obtain ⟨ps, hcut, rfl⟩ := h
  have hsource := hb.source
  obtain ⟨causes, hread⟩ := hb
  refine ⟨.block b causes :: ps, ?_, rfl⟩
  rw [List.flatMap_cons, Node.preserved, hsource]
  exact .block hread hcut

/-- The end or an `@` comes first, if a text that comes first begins with one. -/
theorem follows (h : AreReread ns) (hhead : ∀ t, .text t ∈ ns.head? → t.head? = some '@') :
    Follows (ns.flatMap Node.preserved) := by
  obtain ⟨ps, hcut, rfl⟩ := h
  generalize (ps.map Piece.node).flatMap Node.preserved = s at hcut ⊢
  cases hcut with
  | nil => exact .inl rfl
  | block _ _ => exact .inr rfl
  | @text t rest _ hne _ _ _ =>
      refine .inr ?_
      rw [List.head?_append_of_ne_nil _ hne]
      exact hhead t rfl

/-- **A block that an edit leaves alone is read again**, if a text that comes to stand after it
begins with the `@` that was its end. -/
theorem unchanged {r : BlockRead} (h : AreReread ns) (hread : Block.read? s = some r)
    (hnil : r.rest = [] → ns = [])
    (hat : r.rest.head? = some '@' → (Node.block r.block).endsLine = true →
      ∀ t, .text t ∈ ns.head? → t.head? = some '@') : AreReread (.block r.block :: ns) := by
  obtain ⟨t, hsource, rfl⟩ := Block.source_append_rest hread
  have hb : r.block.ReadsAs t r.rest := ⟨r.causes, hread⟩
  refine h.block (s := t) ?_
  cases hb.lookahead with
  | closed hclosed => exact hclosed _
  | atEnd hrest =>
      obtain rfl := hnil hrest
      exact hb.nil
  | atLine hrest hline hfollows =>
      have hends : (Node.block r.block).endsLine = true := by
        rw [Node.endsLine_iff, Node.preserved, hsource]
        exact hline
      exact hfollows _ (h.follows (hat hrest hends))

end AreReread

/-- A text that stands first in a cut is the start of what was cut. -/
theorem head?_of_cut {c : Char} (h : Piece.Cut s ps) (hs : s.head? = some c)
    (ht : .text t ∈ (ps.map Piece.node).head?) : t.head? = some c := by
  cases h with
  | nil => cases hs
  | block _ _ => cases ht
  | text hne _ _ _ =>
      cases ht
      rwa [List.head?_append_of_ne_nil _ hne] at hs

/-- Where no piece of text comes first, no text does. -/
theorem isText_head?_node (h : ∀ p ∈ ps.head?, p.isText = false) :
    ∀ n ∈ (ps.map Piece.node).head?, n.isText = false := by
  intro n hn
  rw [List.head?_map] at hn
  obtain ⟨p, hp, rfl⟩ := Option.map_eq_some_iff.1 hn
  rw [Piece.isText_node]
  exact h p hp

/-! ## removing commentary -/

/-- **What is left of a text without its commentary** is read again: a text that stays after a block
stood there before. -/
theorem areReread_keptNodes (h : Piece.Cut s ps) (afterDropped : Bool) :
    AreReread (keptNodes afterDropped (ps.map Piece.node)) := by
  induction h generalizing afterDropped with
  | nil => exact .nil
  | @text t rest ps hne hfree hhead hcut ih =>
      rw [List.map_cons, keptNodes]
      split
      · exact ih true
      refine (ih false).text hne ((isFree_iff_inert (hcut.follows hhead) t).1 hfree) fun n hn => ?_
      by_contra htext
      have hn' := (head?_keptNodes hn (by simpa using htext)).1
      exact htext (isText_head?_node hhead n hn')
  | @block s r ps hread hcut ih =>
      rw [List.map_cons, keptNodes]
      split
      · exact ih true
      refine (ih false).unchanged hread (fun hnil => ?_) fun hat _ t ht => ?_
      · rw [hnil] at hcut
        rw [hcut.eq_nil]
        rfl
      · exact head?_of_cut hcut hat (head?_keptNodes ht rfl).1

/-- What stays was there, and is no commentary. -/
theorem of_mem_keptNodes {afterDropped : Bool} {n : Node} (h : n ∈ keptNodes afterDropped ns) :
    n ∈ ns ∧ n.isDropped false = false := by
  induction ns generalizing afterDropped with
  | nil => cases h
  | cons m ns ih =>
      rw [keptNodes] at h
      split at h
      · exact (ih h).imp_left (List.mem_cons_of_mem m)
      · next hkept =>
        obtain rfl | h := List.mem_cons.1 h
        · refine ⟨List.mem_cons_self, ?_⟩
          cases n with
          | text t => exact (Bool.or_eq_false_iff.1 (Bool.eq_false_iff.2 hkept)).2
          | block b => exact Bool.eq_false_iff.2 hkept
        · exact (ih h).imp_left (List.mem_cons_of_mem m)

/-- Without commentary, there is none to remove. -/
theorem keptNodes_eq_self (h : ∀ n ∈ ns, n.isDropped false = false) : keptNodes false ns = ns := by
  induction ns with
  | nil => rfl
  | cons n ns ih =>
      obtain ⟨hn, hns⟩ := List.forall_mem_cons.1 h
      rw [keptNodes, if_neg (by simp [hn]), ih hns]

/-! ## commentary in shape -/

/-- Nodes with their commentary in shape; `onNewLine` says whether the first begins a line. -/
def tidyNodes (onNewLine : Bool) : List Node → List Node
  | [] => []
  | n :: ns => (n.tidy onNewLine).1 :: tidyNodes (n.tidy onNewLine).1.endsLine ns

theorem node?_tidyCommentsFrom (onNewLine : Bool) {ids : List NodeId} {id : NodeId}
    (h : id ∉ ids) (d : Document) :
    (tidyCommentsFrom onNewLine ids d).1.node? id = d.node? id := by
  induction ids generalizing onNewLine d with
  | nil => rfl
  | cons j ids ih =>
      obtain ⟨hj, hids⟩ := not_or.1 (mt List.mem_cons.2 h)
      rw [tidyCommentsFrom]
      dsimp only
      rw [ih _ hids, node?_editNode_of_ne _ d hj]

/-- The nodes of handles that are all different, brought into shape. -/
theorem filterMap_tidyCommentsFrom (onNewLine : Bool) {ids : List NodeId} (hids : ids.Nodup)
    (hlt : ∀ id ∈ ids, id < d.nodes.length) :
    ids.filterMap (tidyCommentsFrom onNewLine ids d).1.node? =
      tidyNodes onNewLine (ids.filterMap d.node?) := by
  induction ids generalizing onNewLine d with
  | nil => rfl
  | cons id ids ih =>
      obtain ⟨hid, hids⟩ := List.nodup_cons.1 hids
      obtain ⟨hlength, hlt⟩ := List.forall_mem_cons.1 hlt
      obtain ⟨n, hn⟩ : ∃ n, d.node? id = some n := ⟨_, List.getElem?_eq_getElem hlength⟩
      have hedit : (d.editNode (Node.tidy onNewLine) id).1 = d.setNode id (n.tidy onNewLine).1 := by
        rw [editNode, hn]
      have hnode : (d.setNode id (n.tidy onNewLine).1).node? id = some (n.tidy onNewLine).1 := by
        rw [node?_setNode hn, if_pos rfl]
      have hrest : ids.filterMap (d.setNode id (n.tidy onNewLine).1).node? =
          ids.filterMap d.node? := by
        refine List.filterMap_congr fun j hj => ?_
        rw [node?_setNode hn, if_neg]
        rintro rfl
        exact hid hj
      rw [tidyCommentsFrom]
      dsimp only
      rw [hedit, hnode, Option.any_some, List.filterMap_cons_some hn, tidyNodes, ← hrest,
        ← ih _ hids (by simpa [setNode] using hlt), List.filterMap_cons_some]
      rw [node?_tidyCommentsFrom _ hid, hnode]

/-- **The present nodes are brought into shape** from left to right. -/
theorem present_tidyComments (h : d.IsArena) :
    d.tidyComments.1.present = tidyNodes true d.present := by
  rw [present, order_tidyComments]
  exact filterMap_tidyCommentsFrom true h.nodup h.lt_length

/-- Without commentary, there is none to bring into shape. -/
theorem tidyNodes_eq_self (h : ∀ n ∈ ns, n.isDropped false = false) (onNewLine : Bool) :
    tidyNodes onNewLine ns = ns := by
  induction ns generalizing onNewLine with
  | nil => rfl
  | cons n ns ih =>
      obtain ⟨hn, hns⟩ := List.forall_mem_cons.1 h
      rw [tidyNodes, ih hns, Node.tidy_of_not_isDropped hn]

/-- No text comes to stand first. -/
theorem isText_head?_tidyNodes (h : ∀ n ∈ ns.head?, n.isText = false) (onNewLine : Bool) :
    ∀ n ∈ ((tidyNodes onNewLine ns).map Node.sourced).head?, n.isText = false := by
  cases ns with
  | nil => exact h
  | cons m ns =>
      intro n hn
      cases hn
      simp [h m rfl]

/-- At the start of a line, a text keeps the `@` that it begins with. -/
theorem head?_text_tidyNodes (h : ∀ t, .text t ∈ ns.head? → t.head? = some '@')
    (ht : .text t ∈ ((tidyNodes true ns).map Node.sourced).head?) : t.head? = some '@' := by
  cases ns with
  | nil => cases ht
  | cons m ns =>
      cases m with
      | block b => cases ht
      | text u =>
          have hu := h u rfl
          rw [tidyNodes, Node.tidy, List.map_cons] at ht
          split at ht
          · cases ht
            exact hu
          · cases ht
            exact Node.head?_tidyText hu

/-- **A text with its commentary in shape** is read again. -/
theorem areReread_tidyNodes (h : Piece.Cut s ps) (onNewLine : Bool) :
    AreReread ((tidyNodes onNewLine (ps.map Piece.node)).map Node.sourced) := by
  induction h generalizing onNewLine with
  | nil => exact .nil
  | @text t rest ps hne hfree hhead hcut ih =>
      have hinert := (isFree_iff_inert (hcut.follows hhead) t).1 hfree
      have hhead' := isText_head?_tidyNodes (isText_head?_node hhead)
      rw [List.map_cons, tidyNodes, List.map_cons, Piece.node, Node.tidy]
      split
      · exact (ih _).text hne hinert (hhead' _)
      · exact (ih _).text (by simp [Node.tidyText]) (inert_tidyText onNewLine hinert) (hhead' _)
  | @block s r ps hread hcut ih =>
      have hnil (flag : Bool) (hrest : r.rest = []) :
          (tidyNodes flag (ps.map Piece.node)).map Node.sourced = [] := by
        rw [hrest] at hcut
        rw [hcut.eq_nil]
        rfl
      rw [List.map_cons, tidyNodes, List.map_cons, Piece.node]
      obtain hsame | ⟨p, hp, htidied⟩ := Node.tidy_block onNewLine r.block
      · obtain ⟨u, hsource, -⟩ := Block.source_append_rest hread
        rw [Node.tidy_of_snd_eq_false hsame, Node.sourced_of_source hsource]
        refine (ih _).unchanged hread (hnil _) fun hat hends t ht => ?_
        -- The block ends a line, so that the text after it is not moved to another.
        rw [hends] at ht
        exact head?_text_tidyNodes (fun u hu => head?_of_cut hcut hat hu) ht
      · rw [htidied]
        obtain ⟨u, hu, hreads⟩ := Block.exists_reads_tidied hread hp fun hrest =>
          congrArg (List.flatMap Node.preserved) (hnil (Node.block (r.block.tidied p)).endsLine hrest)
        rw [Node.sourced, hu]
        exact (ih _).block hreads

/-- **Commentary in shape stays in shape.** -/
theorem tidyNodes_tidyNodes (onNewLine : Bool) (ns : List Node) :
    tidyNodes onNewLine ((tidyNodes onNewLine ns).map Node.sourced) =
      (tidyNodes onNewLine ns).map Node.sourced := by
  induction ns generalizing onNewLine with
  | nil => rfl
  | cons n ns ih =>
      rw [tidyNodes, List.map_cons, tidyNodes, Node.tidy_tidy, Node.endsLine_sourced, ih]

/-! ## blocks that are no comments -/

theorem filterMap_keptNodes (afterDropped : Bool) (ns : List Node) :
    (keptNodes afterDropped ns).filterMap Node.solid? = ns.filterMap Node.solid? := by
  induction ns generalizing afterDropped with
  | nil => rfl
  | cons n ns ih =>
      rw [keptNodes]
      split
      · next hdropped =>
        have hn : n.solid? = none := by
          cases n with
          | text t => rfl
          | block b => exact Node.solid?_of_isComment hdropped
        rw [ih, List.filterMap_cons_none hn]
      · rw [List.filterMap_cons, List.filterMap_cons, ih]

theorem filterMap_tidyNodes (h : ∀ n ∈ ns, n.sourced = n) (onNewLine : Bool) :
    ((tidyNodes onNewLine ns).map Node.sourced).filterMap Node.solid? =
      ns.filterMap Node.solid? := by
  induction ns generalizing onNewLine with
  | nil => rfl
  | cons n ns ih =>
      obtain ⟨hn, hns⟩ := List.forall_mem_cons.1 h
      rw [tidyNodes, List.map_cons, List.filterMap_cons, List.filterMap_cons, ih hns,
        Node.solid?_tidy hn]

/-! ## runs -/

/-- Nodes with their commentary removed, brought into shape, or both. -/
def commentary (strip trim : Bool) (ns : List Node) : List Node :=
  let kept := if strip then keptNodes false ns else ns
  if trim then tidyNodes true kept else kept

/-- What is left without commentary is in shape. -/
theorem commentary_true (trim : Bool) (ns : List Node) :
    commentary true trim ns = keptNodes false ns := by
  cases trim with
  | false => rfl
  | true => exact tidyNodes_eq_self (fun n hn => (of_mem_keptNodes hn).2) true

/-- **A run on commentary** writes the nodes that are left, in shape. -/
theorem text_tidy_commentary (s : Text) (strip trim : Bool) :
    (tidy { stripComments := strip, tidyComments := trim } s).text =
      (commentary strip trim (parse s).1.present).flatMap Node.preserved := by
  have harena : (parse s).1.stripComments.1.IsArena :=
    (isArena_parse s).of_subperm (stripComments_sublist _).subperm (Nat.le_refl _)
  cases strip <;> cases trim
  · exact preserved_eq _
  · refine (preserved_eq (parse s).1.tidyComments.1).trans ?_
    rw [present_tidyComments (isArena_parse s)]
    rfl
  · refine (preserved_eq (parse s).1.stripComments.1).trans ?_
    rw [present_stripComments]
    rfl
  · refine (preserved_eq (parse s).1.stripComments.1.tidyComments.1).trans ?_
    rw [present_tidyComments harena, present_stripComments]
    rfl

theorem areReread_parse (s : Text) : AreReread (parse s).1.present := by
  refine ⟨Piece.ofText s, ?_, (Document.present_parse s).symm⟩
  rw [← preserved_eq, preserved_parse]
  exact Piece.cut_ofText s

/-- **What a run on commentary writes** is read as the nodes that are left. -/
theorem areReread_commentary (s : Text) (strip trim : Bool) :
    AreReread ((commentary strip trim (parse s).1.present).map Node.sourced) := by
  have hsourced {ns : List Node} (h : AreReread ns) : AreReread (ns.map Node.sourced) := by
    rw [List.map_congr_left h.sourced_eq, List.map_id']
    exact h
  have hcut := Piece.cut_ofText s
  cases strip with
  | true =>
      rw [commentary_true, present_parse]
      exact hsourced (areReread_keptNodes hcut false)
  | false =>
      cases trim with
      | true =>
          rw [present_parse]
          exact areReread_tidyNodes hcut true
      | false => exact hsourced (areReread_parse s)

/-- **Another run on commentary** finds nothing to do. -/
theorem commentary_commentary (strip trim : Bool) (ns : List Node) :
    commentary strip trim ((commentary strip trim ns).map Node.sourced) =
      (commentary strip trim ns).map Node.sourced := by
  cases strip with
  | true =>
      rw [commentary_true, commentary_true]
      refine keptNodes_eq_self fun n hn => ?_
      obtain ⟨m, hm, rfl⟩ := List.mem_map.1 hn
      rw [Node.isDropped_sourced, (of_mem_keptNodes hm).2]
  | false =>
      cases trim with
      | true => exact tidyNodes_tidyNodes true ns
      | false => rfl

/-- The blocks that are no comments stay, sources and all. -/
theorem filterMap_commentary (h : ∀ n ∈ ns, n.sourced = n) (strip trim : Bool) :
    ((commentary strip trim ns).map Node.sourced).filterMap Node.solid? =
      ns.filterMap Node.solid? := by
  cases strip with
  | true =>
      have hkept : (keptNodes false ns).map Node.sourced = keptNodes false ns := by
        rw [List.map_congr_left fun n hn => h n (of_mem_keptNodes hn).1, List.map_id']
      rw [commentary_true, hkept, filterMap_keptNodes]
  | false =>
      cases trim with
      | true => exact filterMap_tidyNodes h true
      | false =>
          have hsame : ns.map Node.sourced = ns := by rw [List.map_congr_left h, List.map_id']
          exact congrArg (List.filterMap Node.solid?) hsame

theorem filter_blocks (d : Document) :
    d.blocks.filter (fun b => !b.isComment) = d.present.filterMap Node.solid? :=
  List.filter_filterMap

end Document

/-- **Commentary can be removed or brought into shape on any input**, also where blocks had to be
recovered.  A second run changes nothing, and the output has the blocks of the input that are no
comments, in order, with the text that each was read from. -/
theorem tidy_commentary (s : Text) (strip trim : Bool) :
    let o : Options := { stripComments := strip, tidyComments := trim }
    let out := (tidy o s).text
    (tidy o out).text = out ∧
      (Document.parse out).1.blocks.filter (fun b => !b.isComment) =
        (Document.parse s).1.blocks.filter (fun b => !b.isComment) := by
  intro o out
  let left := Document.commentary strip trim (Document.parse s).1.present
  have hout : out = left.flatMap Node.preserved := Document.text_tidy_commentary s strip trim
  have hsources : (left.map Node.sourced).flatMap Node.preserved = left.flatMap Node.preserved := by
    rw [List.flatMap_map]
    exact List.flatMap_congr fun n _ => Node.preserved_sourced n
  have hread : (Document.parse out).1.present = left.map Node.sourced := by
    rw [hout, ← hsources]
    exact (Document.areReread_commentary s strip trim).present_parse
  constructor
  · calc
      (tidy o out).text =
          (Document.commentary strip trim (Document.parse out).1.present).flatMap Node.preserved :=
        Document.text_tidy_commentary out strip trim
      _ = (left.map Node.sourced).flatMap Node.preserved := by
        rw [hread, Document.commentary_commentary]
      _ = out := hsources.trans hout.symm
  · rw [Document.filter_blocks, Document.filter_blocks, hread]
    exact Document.filterMap_commentary (Document.areReread_parse s).sourced_eq strip trim

-- The `@` that ended a block stays at the start of its line.
example :
    (tidy { tidyComments := true } "@article(\n@%".toList).text = "@article(\n@%\n".toList := by
  decide +kernel

end Bibliography
