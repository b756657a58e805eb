import Bibliography.Parse.Document
import Bibliography.Proofs.Fields
import Bibliography.Proofs.Tidy.Changes
import Bibliography.Proofs.Value.Idempotence

/-!
# Bibliography.Proofs.Tidy.Normalizing

Normalizing the values of a document once more.  A second application of the same
steps leaves the document as it is and lists no entry, exactly if no pair of braces
is left that the removal of braces would take (`editFields_normalize_iff`).  There
often is one: the removal takes one pair of several, and LaTeX sequences come in
braces, which the next application removes (`editFields_normalize_umlaut`).
-/

namespace Bibliography

/-! ## edits that change nothing -/

namespace Document

variable {d : Document} {f : Edit Entry}

/-- The entries of an edited document are the edited entries. -/
theorem entries_editEntries (f : Edit Entry) (d : Document) :
    (d.editEntries f).1.entries = d.entries.map fun p => (p.1, (f p.2).1) := by
  unfold entries
  rw [List.map_filterMap, order_editEntries]
  refine List.filterMap_congr fun id hid => ?_
  have hentry : Document.entry? (d.editEntries f).1 id =
      (d.entry? id).map fun e => (f e).1 := by
    unfold entry?
    rw [node?_editEntries]
    cases d.node? id with
    | none => rfl
    | some n => simpa [hid] using n.entry?_editEntry f
  rw [hentry]
  cases d.entry? id <;> rfl

/-- **An honest edit** leaves the document as it is, and lists no entry, exactly if it changes
none. -/
theorem editEntries_eq_self_iff (hf : Edit.IsHonest f) :
    d.editEntries f = (d, []) ↔ ∀ p ∈ d.entries, (f p.2).2 = false := by
  have hids : (d.editEntries f).2 = [] ↔ ∀ p ∈ d.entries, (f p.2).2 = false := by
    simp [editEntries]
  rw [← hids]
  refine ⟨fun h => congrArg Prod.snd h, fun h => Prod.ext ?_ h⟩
  have hnodes : (d.editEntries f).1.nodes = d.nodes := by
    refine List.ext_getElem? fun id => ?_
    refine (node?_editEntries f d id).trans ?_
    change (d.node? id).map _ = d.node? id
    cases hn : d.node? id with
    | none => rfl
    | some n =>
        refine congrArg some ?_
        dsimp only
        split
        · next hid =>
          refine Node.editEntry_eq_self hf (Bool.eq_false_iff.2 fun hchanged => ?_)
          have hmem := mem_editEntries.2 ⟨hid, n, hn, hchanged⟩
          rw [h] at hmem
          cases hmem
        · rfl
  obtain ⟨nodes, order⟩ := d
  exact congrArg (Document.mk · order) hnodes

/-! ## normalizing again -/

/-- The fields of an entry have no pair of braces that encloses all of a text. -/
def HasNoBraces (e : Entry) : Prop :=
  ∀ f ∈ e.fields, ∀ s ∈ f.value.sole?, isEnclosed s.text = false

instance (e : Entry) : Decidable (HasNoBraces e) :=
  inferInstanceAs (Decidable (∀ f ∈ e.fields, ∀ s ∈ f.value.sole?, isEnclosed s.text = false))

/-- **Normalizing again** leaves the document as it is and lists no entry, exactly if no pair of
braces is left that encloses all of a text, or none is to be removed. -/
theorem editFields_normalize_iff (ns : List Normalization) (d : Document)
    (h : ∀ p ∈ d.entries, ∀ f ∈ p.2.fields, Normalization.IsTame ns f) :
    (d.editFields (Fields.normalize ns)).1.editFields (Fields.normalize ns) =
        ((d.editFields (Fields.normalize ns)).1, []) ↔
      (.stripEnclosingBraces ∈ ns →
        ∀ p ∈ (d.editFields (Fields.normalize ns)).1.entries, HasNoBraces p.2) := by
  have hhonest := isHonest_fields (Fields.isHonest_normalize ns)
  have hentries : (d.editFields (Fields.normalize ns)).1.entries = d.entries.map fun p =>
      (p.1, { p.2 with fields := p.2.fields.map fun f =>
        (Normalization.applyAll (Normalization.inOrder ns) f).1 }) :=
    entries_editEntries _ d
  refine (editEntries_eq_self_iff hhonest).trans ?_
  rw [hentries]
  simp only [List.forall_mem_map, Fields.normalize, HasNoBraces, List.any_eq_false,
    Bool.not_eq_true]
  constructor
  · intro hsame hstrip p hp f hf
    exact (Normalization.applyAll_applyAll_iff (h p hp f hf)).1 (hsame p hp f hf) hstrip
  · intro hnone p hp f hf
    exact (Normalization.applyAll_applyAll_iff (h p hp f hf)).2 fun hstrip => hnone hstrip p hp f hf

/-- Of two pairs of braces one is removed, and the umlaut in the other one does not come to be
alone. -/
theorem editFields_normalize_once :
    (∀ p ∈ (parse "@misc\x7bk, title = \x7b\x7bGödel\x7d\x7d\x7d".toList).1.entries,
      ∀ f ∈ p.2.fields, Normalization.IsTame [.stripEnclosingBraces, .escape] f) ∧
    (((parse "@misc\x7bk, title = \x7b\x7bGödel\x7d\x7d\x7d".toList).1.editFields
      (Fields.normalize [.stripEnclosingBraces, .escape])).1.editFields
        (Fields.normalize [.stripEnclosingBraces, .escape])).2 = [] := by
  have htame : ∀ p ∈ (parse "@misc\x7bk, title = \x7b\x7bGödel\x7d\x7d\x7d".toList).1.entries,
      ∀ f ∈ p.2.fields, Normalization.IsTame [.stripEnclosingBraces, .escape] f := by
    decide +kernel
  have htwice := (editFields_normalize_iff [.stripEnclosingBraces, .escape] _ htame).2
  refine ⟨htame, congrArg Prod.snd (htwice fun _ => ?_)⟩
  unfold Fields.normalize
  rw [Normalization.inOrder_eq_self (by decide)]
  decide +kernel

/-- The sequence of an umlaut comes in braces, and the next application removes them. -/
theorem editFields_normalize_umlaut :
    ((parse "@misc\x7bk, title = \x7bü\x7d\x7d".toList).1.editFields
      (Fields.normalize [.stripEnclosingBraces, .escape])).1.editFields
        (Fields.normalize [.stripEnclosingBraces, .escape]) ≠
      (((parse "@misc\x7bk, title = \x7bü\x7d\x7d".toList).1.editFields
        (Fields.normalize [.stripEnclosingBraces, .escape])).1, []) := by
  unfold Fields.normalize
  rw [Normalization.inOrder_eq_self (by decide)]
  decide +kernel

end Document

end Bibliography
