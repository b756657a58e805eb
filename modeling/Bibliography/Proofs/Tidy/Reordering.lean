import Bibliography.Proofs.Tidy.Sorting
import Bibliography.Proofs.Tidy.Commentary
import Bibliography.Proofs.Parse.Findings

/-!
# Bibliography.Proofs.Tidy.Reordering

Sorting any document, also one where blocks had to be recovered.  A group that
moves takes along what stands before its entry, so a block that was kept verbatim
has the same node after it as before; and what goes on to the end of the text
stays there.  Only the entry at the end of a group gets another text after it.
With its closing bracket it is read in front of any text.  Without one it goes on
into what it gets, unless it ends there again.

* `Document.recordsOf_group` — what is read of a group in front of another text;
* `Document.recordsOf_groups` — what is read of groups in any order, by induction;
* `Document.Regroups.endsAgain` — the entries that end again in the sorted text;
* `Document.records_tidy_sort` — the entries of a sorted document;
* `Document.records_tidy_sort_swallowed` — an entry that is lost.
-/

namespace Bibliography

/-- What sorting has to keep of an entry: its command, its brackets, its citation key and its
fields. -/
abbrev EntryRecord := Text × Delimiter × Option Text × List Field

@[simp] theorem Body.entry?_ofPayload (kind : BlockKind) (p : Payload) :
    Body.entry? (Body.ofPayload kind p) = none := by
  cases kind <;> rfl

namespace Block

/-- The record of an entry. -/
def record? (b : Block) : Option EntryRecord :=
  b.entry?.map fun e => (b.command, b.delimiter, e.key, e.fields)

/-- In front of a text, a block is read as the same entry as before, and takes no `@` of that
text. -/
def EndsAgain (b : Block) (f : Text) : Prop :=
  ∃ r w, read? ((b.source.getD []).drop 1 ++ f) = some r ∧ r.block.record? = b.record? ∧
    f = w ++ r.rest ∧ '@' ∉ w

variable {b : Block} {u f w : Text}

theorem ReadsAs.endsAgain (h : b.ReadsAs u f) : b.EndsAgain f := by
  have hsource := h.source
  obtain ⟨causes, hread⟩ := h
  exact ⟨_, [], by rw [hsource]; exact hread, rfl, rfl, List.not_mem_nil⟩

/-- An entry that ended at an `@` ends again at the end or at another `@`. -/
theorem endsAgain_of_follows (h : b.ReadsAs u w) (hw : w.head? = some '@') (hf : Follows f) :
    b.EndsAgain f := by
  cases h.lookahead with
  | closed hclosed => exact (hclosed f).endsAgain
  | atEnd hnil => simp [hnil] at hw
  | atLine _ _ hline => exact (hline f hf).endsAgain

/-- An entry that was read has its closing bracket, or a warning says that it has none. -/
theorem isClean_or_unclosed {s : Text} {r : BlockRead} (h : read? s = some r)
    (hentry : r.block.entry? ≠ none) :
    r.IsClean ∨ "UNTERMINATED_BLOCK" ∈ r.causes.map Cause.code := by
  obtain ⟨-, d, p, -, rfl⟩ := read?_eq_some_iff.1 h
  by_cases hkind : BlockKind.ofCommand (s.takeWhile Scan.isCommandChar) = .entry
  · rw [Cursor.blockBody_of_entry hkind] at hentry ⊢
    cases he : p.entry d.closing with
    | closed e stop =>
        rw [Cursor.entryBlock, he]
        exact .inl (Cursor.isRecovery_keyCauses _ e)
    | unclosed e place =>
        rw [Cursor.entryBlock, he]
        exact .inr (by simp [Cursor.blockRead, Cause.code])
    | malformed reason place =>
        rw [Cursor.entryBlock_malformed he] at hentry
        exact absurd rfl hentry
  · rw [Cursor.blockBody_of_ne_entry rfl hkind, Cursor.payloadBlock] at hentry
    split at hentry <;> exact absurd (Body.entry?_ofPayload _ _) hentry

end Block

namespace Document

/-- The records of the entries of a document, in order. -/
def records (d : Document) : List EntryRecord := d.blocks.filterMap Block.record?

/-- A document with its entries sorted by keys as they are written. -/
def sortedBy (d : Document) (specs : List Text) : Document :=
  (d.sortEntries (.build d) (SortKey.parseAll specs).1).1

/-- What stands after a node, where nodes are written as they were read. -/
def textAfter (d : Document) (id : NodeId) : Text :=
  (((d.order.dropWhile (· ≠ id)).drop 1).filterMap d.node?).flatMap Node.original

/-! ## records of a text -/

/-- The records of the entries that are read in a text. -/
def recordsOf (s : Text) : List EntryRecord := (parse s).1.records

theorem recordsOf_eq (s : Text) :
    recordsOf s = (Piece.ofText s).filterMap fun p => p.node.block?.bind Block.record? := by
  rw [recordsOf, records, blocks, present_parse, List.filterMap_map, List.filterMap_filterMap]
  rfl

theorem recordsOf_block {s : Text} {r : BlockRead} (h : Block.read? s = some r) :
    recordsOf ('@' :: s) = r.block.record?.toList ++ recordsOf r.rest := by
  rw [recordsOf_eq, recordsOf_eq, Piece.ofText_at h, List.filterMap_cons]
  cases hr : r.block.record? <;> simp [Piece.node, Node.block?, hr]

/-- Free text has no entries. -/
theorem recordsOf_free {t rest : Text} (h : IsFree t rest) :
    recordsOf (t ++ rest) = recordsOf rest := by
  induction t with
  | nil => rfl
  | cons c t ih =>
      have hc : c = '@' → Block.read? (t ++ rest) = none := by
        rintro rfl
        exact h [] t rfl
      have hcons (ps : List Piece) : (Piece.consText c ps).filterMap
            (fun p => p.node.block?.bind Block.record?) =
          ps.filterMap fun p => p.node.block?.bind Block.record? := by
        unfold Piece.consText
        split <;> simp [Piece.node, Node.block?]
      rw [← ih fun a b hab => h (c :: a) b (by rw [hab]; rfl), recordsOf_eq, recordsOf_eq,
        List.cons_append, Piece.ofText_cons hc, hcons]

/-- A block in front of a text in which it ends again. -/
theorem recordsOf_endsAgain {b : Block} {u f : Text} (hsource : b.source = some ('@' :: u))
    (h : b.EndsAgain f) : recordsOf ('@' :: u ++ f) = b.record?.toList ++ recordsOf f := by
  obtain ⟨r, w, hread, hrecord, hf, hw⟩ := h
  have hread : Block.read? (u ++ f) = some r := by simpa [hsource] using hread
  have hfree : IsFree w r.rest := fun a b hab => absurd (by simp [hab]) hw
  rw [List.cons_append, recordsOf_block hread, hrecord, ← recordsOf_free hfree, ← hf]

/-! ## groups in front of another text -/

/-- The end of a cut is a cut. -/
theorem cut_of_append {s : Text} {ps qs : List Piece} (h : Piece.Cut s (ps ++ qs)) :
    Piece.Cut (qs.flatMap Piece.written) qs := by
  induction ps generalizing s with
  | nil =>
      have h : Piece.Cut s qs := h
      rw [h.written]
      exact h
  | cons p ps ih =>
      cases h with
      | block _ hcut => exact ih hcut
      | text _ _ _ hcut => exact ih hcut

/-- **What stands before the entry of a group** is read as it was, whatever text it is that begins
with the `@` of the entry. -/
theorem recordsOf_written {s r : Text} {ps qs : List Piece} (h : Piece.Cut s (ps ++ qs))
    (hps : ∀ p ∈ ps, p.node.entry? = none) (hqs : (qs.flatMap Piece.written).head? = some '@')
    (hr : r.head? = some '@') : recordsOf (ps.flatMap Piece.written ++ r) = recordsOf r := by
  -- What follows a piece begins with an `@` in both texts, or with the next piece.
  have hhead {ps : List Piece} (h : ((ps ++ qs).flatMap Piece.written).head? = some '@') :
      (ps.flatMap Piece.written ++ r).head? = some '@' := by
    rw [List.flatMap_append] at h
    cases hw : ps.flatMap Piece.written with
    | nil => exact hr
    | cons c t =>
        rw [hw] at h
        exact h
  have hne {ps : List Piece} : (ps ++ qs).flatMap Piece.written ≠ [] := by
    intro hnil
    rw [List.flatMap_append, List.append_eq_nil_iff] at hnil
    simp [hnil.2] at hqs
  induction ps generalizing s with
  | nil => rfl
  | cons p ps ih =>
      obtain ⟨hp, htail⟩ := List.forall_mem_cons.1 hps
      rw [List.flatMap_cons, List.append_assoc]
      cases h with
      | @text t rest _ _ hfree hnot hcut =>
          have hcut : Piece.Cut rest (ps ++ qs) := hcut
          have hfollows : Follows rest := hcut.follows hnot
          rw [← hcut.written] at hfollows hfree
          have hinert := (isFree_iff_inert hfollows t).1 hfree
          have hat := hhead (hfollows.resolve_left hne)
          have hfree := (isFree_iff_inert (.inr hat) t).2 hinert
          rw [Piece.written, recordsOf_free hfree, ih hcut htail]
      | @block u b _ hread hcut =>
          have hcut : Piece.Cut b.rest (ps ++ qs) := hcut
          obtain ⟨v, hsource, hrest⟩ := Block.source_append_rest hread
          rw [← hcut.written] at hrest
          have hb : b.block.ReadsAs v ((ps ++ qs).flatMap Piece.written) :=
            ⟨b.causes, by rw [hrest, hread, hcut.written]⟩
          have hagain : b.block.ReadsAs v (ps.flatMap Piece.written ++ r) := by
            cases hb.lookahead with
            | closed hclosed => exact hclosed _
            | atEnd hnil => exact absurd hnil hne
            | atLine hat _ hline => exact hline _ (.inr (hhead hat))
          obtain ⟨causes, hagain⟩ := hagain
          have hrecord : b.block.record? = none := by
            have hentry : b.block.entry? = none := hp
            rw [Block.record?, hentry]
            rfl
          rw [Piece.written, hsource, Option.getD_some, List.cons_append, recordsOf_block hagain,
            hrecord]
          exact ih hcut htail

/-- **A group in front of another text**: its entry is read, and then that text. -/
theorem recordsOf_group {s f : Text} {b : Block} {ms inner ns : List Node}
    (hnodes : (parse s).1.nodes = ms ++ (inner ++ .block b :: ns))
    (hinner : ∀ n ∈ inner, n.entry? = none) (hb : b.EndsAgain f) :
    recordsOf ((inner ++ [Node.block b]).flatMap Node.original ++ f) =
      b.record?.toList ++ recordsOf f := by
  obtain ⟨as, rs, hps, rfl, hrs⟩ := List.map_eq_append_iff.1 hnodes
  obtain ⟨ps, qs, rfl, rfl, hqs⟩ := List.map_eq_append_iff.1 hrs
  obtain ⟨p, bs, rfl, hp, rfl⟩ := List.map_eq_cons_iff.1 hqs
  have hcut := Piece.cut_ofText s
  rw [hps] at hcut
  obtain ⟨u, hsource⟩ := source_of_mem_parse (s := s) (b := b) (by rw [hnodes]; simp)
  have hwritten : p.written = '@' :: u := by
    rw [← Piece.original_node, hp, Node.original, hsource, Option.getD_some]
  have horiginal : (Node.block b).original = '@' :: u := by
    rw [Node.original, hsource, Option.getD_some]
  have h := recordsOf_written (r := '@' :: u ++ f) (cut_of_append hcut)
    (fun q hq => hinner _ (List.mem_map_of_mem hq)) (by rw [List.flatMap_cons, hwritten]; rfl) rfl
  rw [List.flatMap_append, List.flatMap_singleton, horiginal, Piece.flatMap_original,
    List.append_assoc, h, recordsOf_endsAgain hsource hb]

/-- What stands after the last entry has none. -/
theorem recordsOf_left {s : Text} {ms left : List Node} (hnodes : (parse s).1.nodes = ms ++ left)
    (hleft : ∀ n ∈ left, n.entry? = none) : recordsOf (left.flatMap Node.original) = [] := by
  obtain ⟨as, ps, hps, rfl, rfl⟩ := List.map_eq_append_iff.1 hnodes
  have hcut := Piece.cut_ofText s
  rw [hps] at hcut
  rw [Piece.flatMap_original, recordsOf_eq, Piece.ofText_eq_of_cut (cut_of_append hcut),
    List.filterMap_eq_nil_iff]
  intro p hp
  have hentry := hleft _ (List.mem_map_of_mem hp)
  cases p with
  | text t => rfl
  | block b causes =>
      have hentry : b.entry? = none := hentry
      simp [Piece.node, Node.block?, Block.record?, hentry]

/-! ## sorted groups -/

/-- The record of the entry of a group. -/
def groupRecord? (d : Document) (g : Group) : Option EntryRecord :=
  (g.entry.bind d.block?).bind Block.record?

theorem groupRecord?_eq {d : Document} {id : NodeId} {b : Block} (ids : List NodeId)
    (h : d.block? id = some b) : d.groupRecord? ⟨some id, ids⟩ = b.record? := by
  rw [groupRecord?, Option.bind_some, h, Option.bind_some]

/-- The nodes of groups as they were read. -/
def groupsText (d : Document) (gs : List Group) : Text :=
  (gs.flatMap d.chunk).flatMap Node.original

/-- **Groups in any order** are read as their entries, if each entry ends again. -/
theorem recordsOf_groups {s : Text} {gs left : List Group}
    (hgs : ∀ g ∈ gs, (parse s).1.IsGroup g ∧
      ∃ ms ns, (parse s).1.nodes = ms ++ ((parse s).1.chunk g ++ ns))
    (hends : ∀ as g bs, gs = as ++ g :: bs → ∀ b ∈ g.entry.bind (parse s).1.block?,
      b.EndsAgain ((parse s).1.groupsText (bs ++ left))) :
    recordsOf ((parse s).1.groupsText (gs ++ left)) =
      gs.filterMap (parse s).1.groupRecord? ++ recordsOf ((parse s).1.groupsText left) := by
  induction gs with
  | nil => rfl
  | cons g gs ih =>
      obtain ⟨⟨hg, ms, ns, hnodes⟩, hrest⟩ := List.forall_mem_cons.1 hgs
      obtain ⟨waiting, id, inner, b, rfl, hb, hchunk, hinner⟩ := hg.exists_chunk
      have hagain := hends [] _ gs rfl b hb
      rw [hchunk, List.append_assoc] at hnodes
      have h := recordsOf_group hnodes hinner hagain
      have htail := ih hrest fun as g bs hsplit => hends (_ :: as) g bs (by rw [hsplit]; rfl)
      rw [List.cons_append, groupsText, List.flatMap_cons, List.flatMap_append, hchunk]
      rw [groupsText] at h
      rw [h, ← groupsText, htail, List.filterMap_cons, groupRecord?_eq _ hb]
      cases b.record? <;> rfl

/-- The records of a document are those of its groups. -/
theorem records_eq {d : Document} {gs left : List Group}
    (horder : d.order = (gs ++ left).flatMap Group.nodes) (hgs : ∀ g ∈ gs, d.IsGroup g)
    (hleft : ∀ g ∈ left, ∀ j ∈ g.nodes, d.entry? j = none) :
    d.records = gs.filterMap d.groupRecord? := by
  have hnone {n : Node} (hn : n.entry? = none) : n.block?.bind Block.record? = none := by
    cases n with
    | text t => rfl
    | block b =>
        have hn : b.entry? = none := hn
        simp [Node.block?, Block.record?, hn]
  have hgroup : ∀ g ∈ gs, ((d.chunk g).filterMap fun n => n.block?.bind Block.record?) =
      (d.groupRecord? g).toList := by
    intro g hg
    obtain ⟨waiting, id, inner, b, rfl, hb, hchunk, hinner⟩ := (hgs g hg).exists_chunk
    rw [hchunk, List.filterMap_append, groupRecord?_eq _ hb,
      List.filterMap_eq_nil_iff.2 fun n hn => hnone (hinner n hn)]
    cases hb : b.record? <;> simp [Node.block?, hb]
  have hrest : ∀ g ∈ left, ((d.chunk g).filterMap fun n => n.block?.bind Block.record?) = [] :=
    fun g hg => List.filterMap_eq_nil_iff.2 fun n hn =>
      hnone (entry?_of_mem_chunk (hleft g hg) n hn)
  have hpresent : d.present = (gs ++ left).flatMap d.chunk := by
    rw [flatMap_chunk, ← horder]
    rfl
  calc
    d.records = d.present.filterMap fun n => n.block?.bind Block.record? :=
      List.filterMap_filterMap ..
    _ = gs.flatMap fun g => (d.groupRecord? g).toList := by
      rw [hpresent, List.filterMap_flatMap, List.flatMap_append, List.flatMap_congr hgroup,
        List.flatMap_congr hrest, List.flatMap_eq_nil_iff.2 fun _ _ => rfl, List.append_nil]
    _ = gs.filterMap d.groupRecord? := (List.filterMap_eq_flatMap_toList _ _).symm

/-! ## the sorted text -/

/-- What stands after the entry of a group. -/
theorem textAfter_eq {d : Document} {as bs : List Group} {waiting : List NodeId} {id : NodeId}
    (horder : d.order = (as ++ ⟨some id, waiting ++ [id]⟩ :: bs).flatMap Group.nodes)
    (hnodup : d.order.Nodup) : d.textAfter id = d.groupsText bs := by
  have hsplit : d.order = (as.flatMap Group.nodes ++ waiting) ++ id :: bs.flatMap Group.nodes := by
    rw [horder]
    simp
  have hnot : ∀ j ∈ as.flatMap Group.nodes ++ waiting, decide (j ≠ id) = true := by
    rw [hsplit] at hnodup
    intro j hj
    refine decide_eq_true fun hid => ?_
    exact List.disjoint_of_nodup_append hnodup hj (hid ▸ List.mem_cons_self)
  rw [textAfter, groupsText, flatMap_chunk, hsplit, List.dropWhile_append_of_pos hnot]
  simp

/-- An entry that has its closing bracket ends with it in front of any text. -/
theorem endsAgain_of_isClosed {s : Text} {id : NodeId} {b : Block}
    (hb : (parse s).1.block? id = some b) (hentry : b.entry? ≠ none)
    (hclosed : "UNTERMINATED_BLOCK" ∉ (Warning.about (parse s).2 id).map Warning.code) (f : Text) :
    b.EndsAgain f := by
  obtain ⟨causes, hlength, hsplit⟩ := exists_pieces hb
  have hcut := Piece.cut_ofText s
  rw [hsplit] at hcut
  obtain ⟨r, hread⟩ := hcut.read_at
  obtain ⟨u, hsource, rfl⟩ := Block.source_append_rest hread
  have hcodes := codes_about hsplit
  rw [List.length_take_of_le (Nat.le_of_lt hlength)] at hcodes
  obtain hclean | hmem := Block.isClean_or_unclosed hread hentry
  · exact (Block.readsAs_of_isClean hread hclean f).endsAgain
  · exact absurd (hcodes ▸ hmem) hclosed

/-- A sorted document is written group by group. -/
theorem text_tidy_sort (s : Text) (specs : List Text) :
    (tidy { sort := some (.value specs) } s).text = ((parse s).1.sortedBy specs).preserved := rfl

@[simp] theorem nodes_sortedBy (d : Document) (specs : List Text) :
    (d.sortedBy specs).nodes = d.nodes :=
  nodes_sortEntries _ _ _

@[simp] theorem groupsText_sortedBy (d : Document) (specs : List Text) (gs : List Group) :
    (d.sortedBy specs).groupsText gs = d.groupsText gs := by
  unfold groupsText chunk node?
  rw [nodes_sortedBy]

/-- A document that was just read is written group by group, in any order. -/
theorem preserved_sortedBy {s : Text} {specs : List Text} {gs : List Group}
    (horder : ((parse s).1.sortedBy specs).order = gs.flatMap Group.nodes) :
    ((parse s).1.sortedBy specs).preserved = (parse s).1.groupsText gs := by
  have hpresent : ((parse s).1.sortedBy specs).present = gs.flatMap (parse s).1.chunk := by
    rw [present, horder, flatMap_chunk]
    unfold node?
    rw [nodes_sortedBy]
  rw [preserved_eq, hpresent, groupsText]
  refine List.flatMap_congr fun n hn => preserved_of_mem_parse (s := s) ?_
  obtain ⟨g, -, hn⟩ := List.mem_flatMap.1 hn
  obtain ⟨j, -, hj⟩ := List.mem_filterMap.1 hn
  exact List.mem_of_getElem? hj

namespace Regroups

variable {s : Text} {specs : List Text} {gs gs' left : List Group}

theorem nodes_eq {d' : Document} (h : (parse s).1.Regroups d' gs gs' left) :
    (parse s).1.nodes = (gs ++ left).flatMap (parse s).1.chunk := by
  rw [flatMap_chunk, ← h.order]
  exact ((present_parse s).trans (nodes_parse s).symm).symm

/-- Each group stands among the nodes. -/
theorem exists_nodes {d' : Document} (h : (parse s).1.Regroups d' gs gs' left) :
    ∀ g ∈ gs', (parse s).1.IsGroup g ∧
      ∃ ms ns, (parse s).1.nodes = ms ++ ((parse s).1.chunk g ++ ns) := by
  intro g hg
  have hmem := h.perm.subset hg
  obtain ⟨as, bs, rfl⟩ := List.append_of_mem hmem
  exact ⟨h.isGroup g hmem, as.flatMap (parse s).1.chunk, (bs ++ left).flatMap (parse s).1.chunk,
    by rw [h.nodes_eq]; simp⟩

/-- What stands after the last entry has none. -/
theorem recordsOf_left {d' : Document} (h : (parse s).1.Regroups d' gs gs' left) :
    recordsOf ((parse s).1.groupsText left) = [] := by
  have hnodes := h.nodes_eq
  rw [List.flatMap_append] at hnodes
  refine Document.recordsOf_left hnodes fun n hn => ?_
  obtain ⟨g, hg, hn⟩ := List.mem_flatMap.1 hn
  exact entry?_of_mem_chunk (h.left g hg) n hn

/-- **Every entry ends again** in front of the groups that stand after it now, if those without
their closing bracket do. -/
theorem endsAgain (h : (parse s).1.Regroups ((parse s).1.sortedBy specs) gs gs' left)
    (hends : ∀ id b, (parse s).1.block? id = some b → b.entry? ≠ none →
      "UNTERMINATED_BLOCK" ∈ (Warning.about (parse s).2 id).map Warning.code →
      b.EndsAgain (((parse s).1.sortedBy specs).textAfter id)) :
    ∀ as g bs, gs' = as ++ g :: bs → ∀ b ∈ g.entry.bind (parse s).1.block?,
      b.EndsAgain ((parse s).1.groupsText (bs ++ left)) := by
  intro as g bs hsplit b hb
  obtain ⟨waiting, id, rfl, hid, -⟩ := (h.exists_nodes g (by rw [hsplit]; simp)).1
  have hb : (parse s).1.block? id = some b := hb
  have hentry : b.entry? ≠ none := by
    rw [entry?_eq, hb] at hid
    exact Option.isSome_iff_ne_none.1 hid
  by_cases hcode : "UNTERMINATED_BLOCK" ∈ (Warning.about (parse s).2 id).map Warning.code
  · have hnodup : ((parse s).1.sortedBy specs).order.Nodup :=
      (sortEntries_perm _ _ _).nodup_iff.2 (isArena_parse s).nodup
    have hplaced : ((parse s).1.sortedBy specs).order =
        (as ++ ⟨some id, waiting ++ [id]⟩ :: (bs ++ left)).flatMap Group.nodes := by
      rw [← List.cons_append, ← List.append_assoc, ← hsplit]
      exact h.order'
    rw [← groupsText_sortedBy _ specs, ← textAfter_eq hplaced hnodup]
    exact hends id b hb hentry hcode
  · exact endsAgain_of_isClosed hb hentry hcode _

end Regroups

/-- **Sorting loses no entry** and makes none, also where blocks had to be recovered, if every entry
without its closing bracket ends again in front of the text that stands after it now. -/
theorem records_tidy_sort (s : Text) (specs : List Text)
    (hends : ∀ id b, (parse s).1.block? id = some b → b.entry? ≠ none →
      "UNTERMINATED_BLOCK" ∈ (Warning.about (parse s).2 id).map Warning.code →
      b.EndsAgain (((parse s).1.sortedBy specs).textAfter id)) :
    (parse (tidy { sort := some (.value specs) } s).text).1.records.Perm (parse s).1.records := by
  obtain ⟨gs, gs', left, h⟩ :=
    (parse s).1.exists_regroups (.build (parse s).1) (SortKey.parseAll specs).1
  have htext : (tidy { sort := some (.value specs) } s).text =
      (parse s).1.groupsText (gs' ++ left) :=
    (text_tidy_sort s specs).trans (preserved_sortedBy h.order')
  have hrecords : (parse (tidy { sort := some (.value specs) } s).text).1.records =
      gs'.filterMap (parse s).1.groupRecord? := by
    rw [htext, ← recordsOf, recordsOf_groups h.exists_nodes (h.endsAgain hends), h.recordsOf_left,
      List.append_nil]
  rw [hrecords, records_eq h.order h.isGroup h.left]
  exact h.perm.filterMap _

/-- Two groups that are not in order change places. -/
theorem sortedBy_pair {d : Document} {g g' : Group} (specs : List Text)
    (hgroups : d.groups = [g, g'])
    (hbefore : SortKey.Before (SortKey.parseAll specs).1
      (g'.values d (.build d) (SortKey.parseAll specs).1)
      (g.values d (.build d) (SortKey.parseAll specs).1)) :
    d.sortedBy specs = { d with order := g'.nodes ++ g.nodes } := by
  have hkeys : (SortKey.parseAll specs).1 ≠ [] := by
    intro hnil
    rw [hnil] at hbefore
    exact hbefore
  have hsorted : [g', g] = d.sortGroups (.build d) (SortKey.parseAll specs).1 [g, g'] :=
    d.eq_sortGroups _ (.swap hbefore)
  rw [sortedBy, sortEntries, if_neg hkeys, hgroups, ← hsorted]
  simp

/-- An entry that ended at an `@` ends at the end of the text. -/
theorem records_tidy_sort_line :
    let s : Text := "@misc\x7bb, x = 1\n@misc\x7ba\x7d".toList
    (parse s).2.map Warning.code = ["UNTERMINATED_BLOCK"] ∧
      (tidy { sort := some (.value ["key".toList]) } s).text =
        "@misc\x7ba\x7d@misc\x7bb, x = 1\n".toList ∧
      (parse (tidy { sort := some (.value ["key".toList]) } s).text).1.records.Perm
        (parse s).1.records := by
  intro s
  have hgroups : (parse s).1.groups = [⟨some 0, [0]⟩, ⟨some 1, [1]⟩] := by decide +kernel
  have hsorted := sortedBy_pair ["key".toList] hgroups (by decide +kernel)
  refine ⟨by decide +kernel, ?_, records_tidy_sort s _ ?_⟩
  · rw [text_tidy_sort, hsorted]
    decide +kernel
  intro id b hb _ hcode
  have hws : (parse s).2 = [⟨.unclosedEntry false, some ⟨0, some "b".toList⟩, none⟩] := by
    decide +kernel
  obtain rfl : id = 0 := by
    rw [hws] at hcode
    by_contra hid
    simp [Warning.about, Ne.symm hid] at hcode
  have hafter : ((parse s).1.sortedBy ["key".toList]).textAfter 0 = [] := by
    rw [hsorted]
    decide +kernel
  obtain ⟨t, hslice, -⟩ := exists_slice hb
  obtain ⟨u, causes, -, hread⟩ := hslice.read
  rw [hafter]
  exact Block.endsAgain_of_follows ⟨causes, hread⟩ (by decide +kernel) (.inl rfl)

/-- An entry at the end of the text that is not closed swallows the entry that comes to stand
after it. -/
theorem records_tidy_sort_swallowed :
    let s : Text := "@misc\x7bb\x7d\n@misc\x7ba, note = \x7bx".toList
    (tidy { sort := some (.value ["key".toList]) } s).text =
        "\n@misc\x7ba, note = \x7bx@misc\x7bb\x7d".toList ∧
      ¬ (parse (tidy { sort := some (.value ["key".toList]) } s).text).1.records.Perm
        (parse s).1.records := by
  intro s
  have hgroups : (parse s).1.groups = [⟨some 0, [0]⟩, ⟨some 2, [1, 2]⟩] := by decide +kernel
  have htext : (tidy { sort := some (.value ["key".toList]) } s).text =
      "\n@misc\x7ba, note = \x7bx@misc\x7bb\x7d".toList := by
    rw [text_tidy_sort, sortedBy_pair _ hgroups (by decide +kernel)]
    decide +kernel
  refine ⟨htext, fun h => ?_⟩
  rw [htext] at h
  have hlength := h.length_eq
  revert hlength
  decide +kernel

end Document

end Bibliography
