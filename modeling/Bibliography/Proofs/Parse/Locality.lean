import Bibliography.Proofs.Parse.BlockEnd
import Bibliography.Proofs.Parse.Lossless

/-!
# Bibliography.Proofs.Parse.Locality

Recovery is local.  A text is cut at the end of one of its blocks, however that
block ended; then the two halves are read on their own as they are read
together.  So whatever is wrong with a block changes nothing after its end, and
nothing after its end changes how it is kept.

* `Piece.Cut.split` — a cut falls apart at the end of a block, the findings
  keeping their codes;
* `Document.parse_append` — the same for nodes, their order and the warnings.

Only the wording of a warning can change: an entry that is not closed before the
next block is, read on its own, not closed before the end of the input.
-/

namespace Bibliography

namespace Piece

/-- What was found about a piece. -/
def causes : Piece → List Cause
  | text _ => []
  | block _ causes => causes

/-- What a piece is, without the wording of what was found about it. -/
structure Gist where
  node : Node
  codes : List String

def gist (p : Piece) : Gist := ⟨p.node, p.causes.map Cause.code⟩

theorem gist_block {b : BlockRead} {b' : BlockRead} (h : b.Agrees b') :
    (block b'.block b'.causes).gist = (block b.block b.causes).gist := by
  unfold gist
  rw [Piece.node, Piece.node, causes, causes, h.block, h.codes]

/-- A first piece of the same gist is no text either. -/
theorem head?_not_text {ps qs : List Piece} (h : ps.map gist = qs.map gist)
    (hqs : ∀ q ∈ qs.head?, q.isText = false) : ∀ p ∈ ps.head?, p.isText = false := by
  cases ps with
  | nil => simp
  | cons p ps =>
      cases qs with
      | nil => simp at h
      | cons q qs =>
          obtain ⟨hp, -⟩ := List.cons.inj h
          have hnode : p.node = q.node := congrArg Gist.node hp
          intro p' hp'
          obtain rfl : p = p' := by simpa using hp'
          rw [← isText_node, hnode, isText_node]
          exact hqs q rfl

/-- **A cut falls apart at the end of a block.** -/
theorem Cut.split {s u v : Text} {all ps qs : List Piece} {b : Block} {causes : List Cause}
    (h : Cut s all) (hs : s = u ++ v) (hall : all = ps ++ Piece.block b causes :: qs)
    (hend : (ps ++ [Piece.block b causes]).flatMap Piece.written = u) :
    Cut v qs ∧ ∃ ps', Cut u ps' ∧ ps'.map gist = (ps ++ [Piece.block b causes]).map gist := by
  induction h generalizing u ps with
  | nil => simp at hall
  | @block s0 r rs hread hcut ih =>
      obtain ⟨t, hsource, hrest⟩ := Block.source_append_rest hread
      have hwritten : (Piece.block r.block r.causes).written = '@' :: t := by
        rw [Piece.written, hsource, Option.getD_some]
      cases ps with
      | nil =>
          obtain ⟨hb, rfl⟩ := List.cons.inj hall
          rw [← hb] at hend ⊢
          rw [List.nil_append, List.flatMap_singleton, hwritten] at hend
          subst hend
          have htail : s0 = t ++ ([] ++ v) := (List.cons.inj hs).2
          have hv : r.rest = v := List.append_cancel_left (hrest.trans htail)
          obtain ⟨r', hread', hagrees, hrest'⟩ := Block.read?_of_append (htail ▸ hread) hv
          rw [List.append_nil] at hread'
          refine ⟨hv ▸ hcut, [.block r'.block r'.causes], ?_, ?_⟩
          · exact .block hread' (by rw [hrest']; exact .nil)
          · rw [List.nil_append, List.map_singleton, List.map_singleton, gist_block hagrees]
      | cons p ps =>
          obtain ⟨rfl, rfl⟩ := List.cons.inj hall
          rw [List.cons_append, List.flatMap_cons, hwritten] at hend
          generalize hu : (ps ++ [Piece.block b causes]).flatMap Piece.written = u' at hend
          subst hend
          have htail : s0 = t ++ (u' ++ v) := by
            rw [← List.append_assoc]
            exact (List.cons.inj hs).2
          have hv : r.rest = u' ++ v := List.append_cancel_left (hrest.trans htail)
          obtain ⟨hqs, ps', hps', hgist⟩ := ih hv rfl hu
          obtain ⟨r', hread', hagrees, hrest'⟩ := Block.read?_of_append (htail ▸ hread) hv
          refine ⟨hqs, .block r'.block r'.causes :: ps', ?_, ?_⟩
          · exact .block hread' (by rw [hrest']; exact hps')
          · rw [List.cons_append, List.map_cons, List.map_cons, hgist, gist_block hagrees]
  | @text t rest rs hne hfree hhead hcut ih =>
      cases ps with
      | nil => cases (List.cons.inj hall).1
      | cons p ps =>
          obtain ⟨rfl, rfl⟩ := List.cons.inj hall
          rw [List.cons_append, List.flatMap_cons, Piece.written] at hend
          generalize hu : (ps ++ [Piece.block b causes]).flatMap Piece.written = u' at hend
          subst hend
          have hv : rest = u' ++ v := by
            rw [List.append_assoc] at hs
            exact List.append_cancel_left hs
          obtain ⟨hqs, ps', hps', hgist⟩ := ih hv rfl hu
          have hhead' : ∀ q ∈ ps'.head?, q.isText = false := by
            apply head?_not_text hgist
            cases ps with
            | nil => simp [isText]
            | cons q ps => exact hhead
          -- A block follows in both texts, so that the text is free in both or in none.
          have hinert := (isFree_iff_inert (hcut.follows hhead) t).1 hfree
          have hfree' := (isFree_iff_inert (hps'.follows hhead') t).2 hinert
          refine ⟨hqs, .text t :: ps', .text hne hfree' hhead' hps', ?_⟩
          rw [List.cons_append, List.map_cons, List.map_cons, hgist]

/-! ## warnings -/

/-- The warnings about pieces of which the first is the node of a handle. -/
def warningsFrom (ps : List Piece) (id : NodeId) : List Warning :=
  (ps.zipIdx id).flatMap fun (p, id) => p.warnings id

theorem warningsFrom_append (ps qs : List Piece) (id : NodeId) :
    warningsFrom (ps ++ qs) id = warningsFrom ps id ++ warningsFrom qs (id + ps.length) := by
  unfold warningsFrom
  rw [List.zipIdx_append, List.flatMap_append]

end Piece

theorem Document.warnings_parse (s : Text) :
    (parse s).2 = Piece.warningsFrom (Piece.ofText s) 0 := rfl

/-- The same block, by another handle. -/
def EntryRef.shift (n : Nat) (r : EntryRef) : EntryRef := { r with node := r.node + n }

namespace Warning

/-- The same warning, about blocks by other handles. -/
def shift (n : Nat) (w : Warning) : Warning :=
  { w with entry := w.entry.map (EntryRef.shift n), earlier := w.earlier.map (EntryRef.shift n) }

/-- A warning without its wording: its code, and the blocks that it is about. -/
def finding (w : Warning) : String × Option EntryRef × Option EntryRef :=
  (w.code, w.entry, w.earlier)

end Warning

namespace Piece

/-- The warnings of pieces by other handles. -/
theorem warningsFrom_add (ps : List Piece) (id n : NodeId) :
    warningsFrom ps (id + n) = (warningsFrom ps id).map (Warning.shift n) := by
  have hpiece (p : Piece) (id : NodeId) :
      p.warnings (id + n) = (p.warnings id).map (Warning.shift n) := by
    cases p with
    | text t => rfl
    | block b causes =>
        simp only [warnings, List.map_map]
        rfl
  induction ps generalizing id with
  | nil => rfl
  | cons p ps ih =>
      have htail := ih (id + 1)
      unfold warningsFrom at htail ⊢
      rw [List.zipIdx_cons, List.zipIdx_cons, List.flatMap_cons, List.flatMap_cons, List.map_append,
        ← htail, Nat.add_right_comm, ← hpiece]

/-- What is found about a piece is settled by its gist, up to the wording. -/
theorem finding_warnings (p : Piece) (id : NodeId) :
    (p.warnings id).map Warning.finding =
      p.gist.codes.map fun code => (code, some ⟨id, p.gist.node.entry?.bind Entry.key⟩, none) := by
  cases p with
  | text t => rfl
  | block b causes =>
      simp only [warnings, gist, Piece.causes, List.map_map]
      rfl

theorem finding_warningsFrom {ps qs : List Piece} (h : ps.map gist = qs.map gist) (id : NodeId) :
    (warningsFrom ps id).map Warning.finding = (warningsFrom qs id).map Warning.finding := by
  induction ps generalizing qs id with
  | nil =>
      rw [List.map_nil, eq_comm, List.map_eq_nil_iff] at h
      rw [h]
  | cons p ps ih =>
      cases qs with
      | nil => simp at h
      | cons q qs =>
          obtain ⟨hp, hps⟩ := List.cons.inj h
          have htail := ih hps (id + 1)
          unfold warningsFrom at htail ⊢
          rw [List.zipIdx_cons, List.zipIdx_cons, List.flatMap_cons, List.flatMap_cons,
            List.map_append, List.map_append, htail, finding_warnings, finding_warnings, hp]

end Piece

/-! ## documents -/

/-- Beginnings of one text of one size in UTF-8 are the same. -/
theorem Text.eq_of_append_eq {s t u v : Text} (h : s ++ u = t ++ v)
    (hsize : s.utf8Size = t.utf8Size) : s = t := by
  induction s generalizing t with
  | nil =>
      cases t with
      | nil => rfl
      | cons c t =>
          have hpos := Char.utf8Size_pos c
          simp only [utf8Size] at hsize
          omega
  | cons c s ih =>
      cases t with
      | nil =>
          have hpos := Char.utf8Size_pos c
          simp only [utf8Size] at hsize
          omega
      | cons c' t =>
          obtain ⟨rfl, htail⟩ := List.cons.inj h
          rw [ih htail (by simpa [utf8Size] using hsize)]

/-- **Recovery is local.**  If a block of a text ends after its first part `u`,
counted in octets, however it ended, then the nodes are the nodes of `u` and
those of the rest; their handles are shifted, and the warnings with them.  Only
the wording of a warning may differ. -/
theorem Document.parse_append (u v : Text) (ms ns : List Node) (b : Block)
    (hnodes : (parse (u ++ v)).1.nodes = ms ++ .block b :: ns)
    (hend : Text.utf8Size ((ms ++ [Node.block b]).flatMap Node.original) = u.utf8Size) :
    (parse (u ++ v)).1.nodes = (parse u).1.nodes ++ (parse v).1.nodes ∧
    (parse (u ++ v)).1.order =
      (parse u).1.order ++ (parse v).1.order.map (· + (parse u).1.nodes.length) ∧
    (parse (u ++ v)).2.map Warning.finding =
      (parse u).2.map Warning.finding ++
        ((parse v).2.map (Warning.shift (parse u).1.nodes.length)).map Warning.finding := by
  obtain ⟨ps, rs, hps, rfl, hrs⟩ := List.map_eq_append_iff.1 hnodes
  obtain ⟨p, qs, rfl, hp, rfl⟩ := List.map_eq_cons_iff.1 hrs
  obtain ⟨causes, rfl⟩ : ∃ causes, p = .block b causes := by
    cases p with
    | text t => cases hp
    | block b' causes =>
        cases hp
        exact ⟨causes, rfl⟩
  have hcut := Piece.cut_ofText (u ++ v)
  rw [hps] at hcut
  -- The pieces up to the block are written as `u`, for they are a beginning of the text.
  have hwritten : (ps ++ [Piece.block b causes]).flatMap Piece.written = u := by
    have happ : (ps ++ [Piece.block b causes]).flatMap Piece.written ++
        qs.flatMap Piece.written = u ++ v := by
      rw [← hcut.written]
      simp
    apply Text.eq_of_append_eq happ
    rw [← hend, ← Piece.flatMap_original, List.map_append, List.map_singleton]
    rfl
  obtain ⟨hqs, ps', hps', hgist⟩ := hcut.split rfl rfl hwritten
  have hu := Piece.ofText_eq_of_cut hps'
  have hv := Piece.ofText_eq_of_cut hqs
  have hnode : (ps ++ [Piece.block b causes]).map Piece.node = ps'.map Piece.node := by
    have h := congrArg (List.map Piece.Gist.node) hgist
    rw [List.map_map, List.map_map] at h
    exact h.symm
  have hall : Piece.ofText (u ++ v) = (ps ++ [Piece.block b causes]) ++ qs := by
    rw [hps, List.append_assoc, List.singleton_append]
  have hnodes' : (parse (u ++ v)).1.nodes = (parse u).1.nodes ++ (parse v).1.nodes := by
    rw [nodes_parse, nodes_parse, nodes_parse, hu, hv, hall, List.map_append, hnode]
  refine ⟨hnodes', ?_, ?_⟩
  · rw [order_parse, order_parse, order_parse, hnodes', List.length_append, List.range_add]
    congr 1
    apply List.map_congr_left
    intro id _
    exact Nat.add_comm _ id
  · have hlength : (ps ++ [Piece.block b causes]).length = ps'.length := by
      rw [← List.length_map Piece.node, hnode, List.length_map]
    have hu' : (parse u).2 = Piece.warningsFrom ps' 0 := by rw [← hu, warnings_parse]
    have hv' : (parse v).2 = Piece.warningsFrom qs 0 := by rw [← hv, warnings_parse]
    have hall' : (parse (u ++ v)).2 =
        Piece.warningsFrom ((ps ++ [Piece.block b causes]) ++ qs) 0 := by rw [← hall, warnings_parse]
    rw [hu', hv', hall', nodes_parse, hu, List.length_map, Piece.warningsFrom_append, hlength,
      Piece.warningsFrom_add, List.map_append, Piece.finding_warningsFrom hgist]

/-- An entry that another one follows before it is closed. -/
theorem Document.parse_append_unclosed :
    (parse "@misc\x7bk, a = 1\n@misc\x7bb\x7d".toList).1.nodes =
      (parse "@misc\x7bk, a = 1\n".toList).1.nodes ++ (parse "@misc\x7bb\x7d".toList).1.nodes := by
  have hnodes : (parse ("@misc\x7bk, a = 1\n".toList ++ "@misc\x7bb\x7d".toList)).1.nodes =
      [] ++ .block ⟨"misc".toList, .brace,
        .entry { key := some ['k'], fields := [⟨['a'], [.literal ['1']]⟩] },
        some "@misc\x7bk, a = 1\n".toList⟩ ::
      [.block ⟨"misc".toList, .brace, .entry { key := some ['b'] }, some "@misc\x7bb\x7d".toList⟩] := by
    decide +kernel
  exact (parse_append _ _ _ _ _ hnodes rfl).1

end Bibliography
