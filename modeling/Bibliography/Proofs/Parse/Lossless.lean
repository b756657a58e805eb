import Bibliography.Proofs.Parse.Cut
import Bibliography.Tidy

/-!
# Bibliography.Proofs.Parse.Lossless

Reading a bibliography loses nothing.  The nodes of a document that was just
read, each as it was read, are the text; so a run without options, which
writes every node as it was read, gives its input back.

The facts about pieces come from `Piece.cut_ofText`; this module carries them
over to nodes, and states them together in `parse_lossless`.
-/

namespace Bibliography

/-! ## nodes as they were read -/

namespace Node

/-- Whether a node is free text. -/
def isText : Node → Bool
  | text _ => true
  | block _ => false

/-- A node as it was read; a block that an edit has changed has no such text. -/
def original : Node → Text
  | text t => t
  | block b => b.source.getD []

end Node

namespace Piece

@[simp] theorem isText_node (p : Piece) : p.node.isText = p.isText := by
  cases p <;> rfl

@[simp] theorem original_node (p : Piece) : p.node.original = p.written := by
  cases p <;> rfl

theorem flatMap_original (ps : List Piece) :
    (ps.map node).flatMap Node.original = ps.flatMap written := by
  rw [List.flatMap_map]
  simp only [original_node]

theorem eq_text_of_node {p : Piece} {t : Text} (h : p.node = .text t) : p = .text t := by
  cases p with
  | text u =>
      cases h
      rfl
  | block b causes => cases h

theorem text_mem_of_mem_map {ps : List Piece} {t : Text} (h : Node.text t ∈ ps.map node) :
    .text t ∈ ps := by
  obtain ⟨p, hp, he⟩ := List.mem_map.1 h
  rwa [eq_text_of_node he] at hp

theorem exists_block_mem_of_mem_map {ps : List Piece} {b : Block} (h : Node.block b ∈ ps.map node) :
    ∃ causes, .block b causes ∈ ps := by
  obtain ⟨p, hp, he⟩ := List.mem_map.1 h
  cases p with
  | text u => cases he
  | block b' causes =>
      cases he
      exact ⟨causes, hp⟩

end Piece

/-! ## documents that were just read -/

namespace Document

/-- The present nodes of a document, in order. -/
def present (d : Document) : List Node := d.order.filterMap d.node?

theorem map_snd_items (d : Document) : d.items.map (·.2) = d.present := by
  unfold items present
  rw [List.map_filterMap]
  congr 1
  funext id
  cases d.node? id <;> rfl

theorem filterMap_range (ns : List Node) :
    (List.range ns.length).filterMap (fun id => ns[id]?) = ns := by
  induction ns using List.reverseRecOn with
  | nil => rfl
  | append_singleton ns n ih =>
      have hinit : (List.range ns.length).filterMap (fun id => (ns ++ [n])[id]?) =
          (List.range ns.length).filterMap (fun id => ns[id]?) := by
        apply List.filterMap_congr
        intro id hid
        exact List.getElem?_append_left (List.mem_range.1 hid)
      rw [List.length_append, List.length_singleton, List.range_succ, List.filterMap_append, hinit,
        ih]
      simp

@[simp] theorem present_ofNodes (ns : List Node) : (ofNodes ns).present = ns := filterMap_range ns

/-- Every present node is written on its own. -/
theorem preserved_eq (d : Document) : d.preserved = d.present.flatMap Node.preserved := by
  rw [preserved, ← map_snd_items, List.flatMap_map]

/-- The entries among the present nodes. -/
theorem entryCount_eq (d : Document) :
    d.entryCount = (d.present.filter fun n => n.entry?.isSome).length := by
  unfold entryCount entries present entry?
  induction d.order with
  | nil => rfl
  | cons id ids ih =>
      cases hn : d.node? id with
      | none => simpa [hn] using ih
      | some n => cases he : n.entry? <;> simpa [hn, he] using ih

@[simp] theorem nodes_parse (s : Text) :
    (parse s).1.nodes = (Piece.ofText s).map Piece.node := rfl

@[simp] theorem order_parse (s : Text) :
    (parse s).1.order = List.range (parse s).1.nodes.length := rfl

@[simp] theorem present_parse (s : Text) :
    (parse s).1.present = (Piece.ofText s).map Piece.node := present_ofNodes _

/-- A block that was just read has its source, which begins with an `@`. -/
theorem source_of_mem_parse {s : Text} {b : Block} (h : .block b ∈ (parse s).1.nodes) :
    ∃ t, b.source = some ('@' :: t) := by
  obtain ⟨causes, hb⟩ := Piece.exists_block_mem_of_mem_map h
  obtain ⟨r, rest, hread⟩ := (Piece.cut_ofText s).read hb
  obtain ⟨t, hsource, -⟩ := Block.source_append_rest hread
  exact ⟨t, hsource⟩

/-- The nodes that were just read, each as it was read, are the text. -/
theorem original_parse (s : Text) : (parse s).1.nodes.flatMap Node.original = s := by
  rw [nodes_parse, Piece.flatMap_original, Piece.written_pieces]

/-- A node that was just read is preserved as it was read. -/
theorem preserved_of_mem_parse {s : Text} {n : Node} (h : n ∈ (parse s).1.nodes) :
    n.preserved = n.original := by
  cases n with
  | text t => rfl
  | block b =>
      obtain ⟨t, hsource⟩ := source_of_mem_parse h
      simp only [Node.preserved, Node.original, hsource, Option.getD_some]

/-- A document that was just read is preserved as its text. -/
theorem preserved_parse (s : Text) : (parse s).1.preserved = s :=
  calc
    (parse s).1.preserved = (parse s).1.nodes.flatMap Node.preserved := by
      rw [preserved_eq, present_parse, nodes_parse]
    _ = (parse s).1.nodes.flatMap Node.original := List.flatMap_congr fun _ => preserved_of_mem_parse
    _ = s := original_parse s

end Document

/-! ## reading loses nothing -/

/-- A run without options gives its input back. -/
theorem text_tidy_default (s : Text) : (tidy {} s).text = s := Document.preserved_parse s

/-- **Lossless reading.**  The nodes, each as it was read, are the text; they
stand in the order of their handles; free text is not empty, never stands side
by side and holds no `@` that begins a block; every block has a source, which
begins with an `@`.  So a run without options gives its input back, and counts
the entries. -/
theorem parse_lossless (s : Text) :
    let d := (Document.parse s).1
    (d.items.flatMap fun p => p.2.original) = s ∧
    d.order = List.range d.nodes.length ∧
    (∀ t, .text t ∈ d.nodes → t ≠ []) ∧
    (d.nodes.IsChain fun m n => ¬ (m.isText ∧ n.isText)) ∧
    (∀ b, .block b ∈ d.nodes → ∃ t, b.source = some ('@' :: t)) ∧
    (∀ ms t ns before after, d.nodes = ms ++ .text t :: ns → t = before ++ '@' :: after →
      Block.read? (s.drop ((ms.flatMap Node.original).length + before.length + 1)) = none) ∧
    (tidy {} s).text = s ∧
    (tidy {} s).count = (d.nodes.filter fun n => n.entry?.isSome).length := by
  have hcut := Piece.cut_ofText s
  refine ⟨?_, Document.order_parse s, ?_, ?_, fun b => Document.source_of_mem_parse, ?_,
    text_tidy_default s, ?_⟩
  · rw [← List.flatMap_map, Document.map_snd_items, Document.present_parse,
      ← Document.nodes_parse, Document.original_parse]
  · intro t ht
    exact hcut.text_ne_nil (Piece.text_mem_of_mem_map ht)
  · rw [Document.nodes_parse, List.isChain_map]
    simpa only [Piece.isText_node] using hcut.noAdjacentText
  · rintro ms t ns before after hnodes rfl
    obtain ⟨ps, qs, hps, rfl, hqs⟩ := List.map_eq_append_iff.1 hnodes
    obtain ⟨p, rs, rfl, hp, rfl⟩ := List.map_eq_cons_iff.1 hqs
    obtain rfl := Piece.eq_text_of_node hp
    rw [hps] at hcut
    have hs : s = (ps.flatMap Piece.written ++ before ++ ['@']) ++
        (after ++ rs.flatMap Piece.written) := by
      rw [← hcut.written]
      simp [Piece.written]
    have hlen : (ps.flatMap Piece.written).length + before.length + 1 =
        (ps.flatMap Piece.written ++ before ++ ['@']).length := by
      simp only [List.length_append, List.length_singleton]
    rw [Piece.flatMap_original, hlen, hs, List.drop_left]
    exact hcut.isFree before after rfl
  · rw [Document.nodes_parse, ← Document.present_parse, ← Document.entryCount_eq]
    rfl

/-- The `@` of an address begins no block, though one follows. -/
theorem parse_lossless_address :
    (Document.parse "a@b, @misc{k}".toList).1.nodes =
      [.text "a@b, ".toList,
        .block ⟨"misc".toList, .brace, .entry { key := some ['k'] }, some "@misc{k}".toList⟩] ∧
    Block.read? "b, @misc{k}".toList = none := by
  have hnodes : (Document.parse "a@b, @misc{k}".toList).1.nodes =
      [.text "a@b, ".toList,
        .block ⟨"misc".toList, .brace, .entry { key := some ['k'] },
          some "@misc{k}".toList⟩] := by
    decide +kernel
  obtain ⟨-, -, -, -, -, hfree, -, -⟩ := parse_lossless "a@b, @misc{k}".toList
  exact ⟨hnodes, hfree [] _ _ "a".toList "b, ".toList hnodes rfl⟩

end Bibliography
