import Bibliography.Proofs.CitationKey.Characters
import Bibliography.Proofs.Tidy.Faithful

/-!
# Bibliography.Proofs.Tidy.Edits

Edits of the nodes of a document.  An edit leaves the order alone, and a text a
text; so a document stays faithful under it if every node does.  Edits of the
fields of all entries, notes of duplicates and new citation keys are of that
kind.
-/

namespace Bibliography.Document

variable {d d' d'' : Document}

/-- A document whose nodes were edited at their places, so that each of them
stays faithful. -/
structure Edits (d d' : Document) : Prop where
  order : d'.order = d.order
  isText : ∀ id, (d'.node? id).map Node.isText = (d.node? id).map Node.isText
  nodes : (∀ n ∈ d.nodes, n.IsFaithful) → ∀ n ∈ d'.nodes, n.IsFaithful

namespace Edits

theorem refl (d : Document) : Edits d d := ⟨rfl, fun _ => rfl, fun h => h⟩

theorem trans (h : Edits d d') (h' : Edits d' d'') : Edits d d'' where
  order := h'.order.trans h.order
  isText id := (h'.isText id).trans (h.isText id)
  nodes hd := h'.nodes (h.nodes hd)

/-- Texts stand where they stood. -/
theorem map_isText (h : Edits d d') : d'.present.map Node.isText = d.present.map Node.isText := by
  unfold present
  rw [List.map_filterMap, List.map_filterMap, h.order]
  exact List.filterMap_congr fun id _ => h.isText id

/-- **A faithful document stays faithful** under edits. -/
theorem isFaithful (h : Edits d d') (hd : d.IsFaithful) : d'.IsFaithful where
  nodes := h.nodes hd.nodes
  apart := by
    have hapart := hd.apart
    unfold Apart at hapart ⊢
    rwa [← List.isChain_map (f := Node.isText) (R := fun a b => ¬ (a = true ∧ b = true)),
      h.map_isText, List.isChain_map]

end Edits

/-! ## one node -/

theorem edits_setNode {id : NodeId} {m n : Node} (hm : d.node? id = some m)
    (htext : n.isText = m.isText) (hn : m.IsFaithful → n.IsFaithful) :
    Edits d (d.setNode id n) where
  order := rfl
  isText j := by
    unfold node? setNode
    rw [List.getElem?_set]
    split
    · next hj =>
      subst hj
      split
      · rw [show d.nodes[id]? = some m from hm, Option.map_some, Option.map_some, htext]
      · next hlength =>
        rw [List.getElem?_eq_none (by omega)]
    · rfl
  nodes hd := by
    intro k hk
    obtain hk | rfl := List.mem_or_eq_of_mem_set hk
    · exact hd k hk
    · exact hn (hd m (List.mem_of_getElem? hm))

theorem edits_editNode {f : Edit Node} (htext : ∀ n, (f n).1.isText = n.isText)
    (hf : ∀ n, n.IsFaithful → (f n).1.IsFaithful) (id : NodeId) (d : Document) :
    Edits d (d.editNode f id).1 := by
  unfold editNode
  split
  · next m hm => exact edits_setNode hm (htext m) (hf m)
  · exact .refl d

theorem edits_editEntry {f : Edit Entry} (hf : Edit.Keeps Entry.IsWellFormed f) (id : NodeId)
    (d : Document) : Edits d (d.editEntry f id).1 :=
  edits_editNode (Node.isText_editEntry f) (fun _ => Node.IsFaithful.editEntry hf) id d

/-- The note of a duplicate keeps a document faithful, sources and all. -/
theorem edits_markDuplicate (d : Document) (id earlier : NodeId) :
    Edits d (d.markDuplicate id earlier) := by
  unfold markDuplicate
  split
  · next b hb =>
    split
    · next e he => exact edits_setNode hb rfl fun h => Block.IsFaithful.mark h he earlier
    · exact .refl d
  · exact .refl d

/-! ## every entry -/

theorem edits_editEntries {f : Edit Entry} (hf : Edit.Keeps Entry.IsWellFormed f)
    (d : Document) : Edits d (d.editEntries f).1 where
  order := rfl
  isText id := by
    unfold node? editEntries
    rw [List.getElem?_mapIdx, Option.map_map]
    congr 1
    funext n
    dsimp only [Function.comp_apply]
    split
    · exact Node.isText_editEntry f n
    · rfl
  nodes hd := by
    intro n hn
    obtain ⟨i, hi, rfl⟩ := List.mem_mapIdx.1 hn
    have hnode := hd _ (List.getElem_mem hi)
    split
    · exact hnode.editEntry hf
    · exact hnode

/-- An edit of fields is one of entries. -/
theorem keeps_fields {f : Edit (List Field)} (hf : Edit.Keeps Fields.AreWellFormed f) :
    Edit.Keeps Entry.IsWellFormed
      fun e => ({ e with fields := (f e.fields).1 }, (f e.fields).2) where
  keeps h := ⟨h.key, hf.keeps h.fields⟩
  honest {e} h := by
    have hfields : (f e.fields).1 = e.fields := hf.honest h
    rw [hfields]

/-- **Edits of the fields of all entries.** -/
theorem edits_editFields {f : Edit (List Field)} (hf : Edit.Keeps Fields.AreWellFormed f)
    (d : Document) : Edits d (d.editFields f).1 :=
  edits_editEntries (keeps_fields hf) d

/-! ## duplicates and citation keys -/

/-- **Finding duplicates** leaves notes only. -/
theorem edits_detect (d : Document) (index : FieldIndex) (rules : List DuplicateRule) :
    Edits d (d.detect index rules).document := by
  have hmarks (ds : List Duplicate) (d : Document) :
      Edits d (ds.foldl (fun d dup => d.markDuplicate dup.entry dup.root) d) := by
    induction ds generalizing d with
    | nil => exact .refl d
    | cons dup ds ih => exact (edits_markDuplicate d dup.entry dup.root).trans (ih _)
  exact hmarks _ d

theorem keeps_setKey {key : Text} (h : Text.IsRun Scan.isKeyChar key) :
    Edit.Keeps Entry.IsWellFormed (Entry.setKey (some key)) where
  keeps he := by
    refine ⟨fun k hk => ?_, he.fields⟩
    obtain rfl : key = k := Option.some.inj hk
    exact h
  honest {e} h := by
    have hkey : e.key = some key := by simpa [Entry.setKey] using h
    rw [Entry.setKey, ← hkey]

theorem edits_setKeys {keys : List (NodeId × Text)}
    (h : ∀ p ∈ keys, Text.IsRun Scan.isKeyChar p.2) (d : Document) :
    Edits d (setKeys keys d).1 := by
  induction keys generalizing d with
  | nil => exact .refl d
  | cons p keys ih =>
      obtain ⟨hkey, hkeys⟩ := List.forall_mem_cons.1 h
      exact (edits_editEntry (keeps_setKey hkey) p.1 d).trans (ih hkeys _)

/-- **Generating keys** edits the keys of entries only. -/
theorem edits_generateKeysFrom (d : Document) (index : FieldIndex) (template : Text) :
    Edits d (d.generateKeysFrom index template).1 := by
  unfold generateKeysFrom
  split
  · exact edits_setKeys (isRun_keysFor d index _) d
  · exact .refl d

end Bibliography.Document
