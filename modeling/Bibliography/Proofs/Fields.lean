import Bibliography.Fields
import Bibliography.Proofs.Value.Normalization

/-!
# Bibliography.Proofs.Fields

What the edits of a field list keep.  Removing, normalizing and ordering fields
leaves them well-formed, and each edit leaves alone what it does not count as
changed, so that the source of an entry is forgotten whenever it has to be.
-/

namespace Bibliography

/-- Every field of a list is well-formed. -/
def Fields.AreWellFormed (fs : List Field) : Prop := ∀ f ∈ fs, f.IsWellFormed

namespace Fields

variable {fs : List Field}

/-! ## removing -/

theorem isHonest_removing (p : Field → Bool) : Edit.IsHonest (removing p) := by
  intro fs h
  have hp : ∀ f ∈ fs, p f = false := by simpa [removing] using h
  exact List.filter_eq_self.2 fun f hf => by simp [hp f hf]

/-- Removing fields is honest, and keeps the others. -/
theorem keeps_removing (p : Field → Bool) : Edit.Keeps AreWellFormed (removing p) where
  keeps h f hf := h f (List.mem_filter.1 hf).1
  honest := isHonest_removing p _

theorem firsts_sublist (fs : List Field) : (firsts fs).Sublist fs := by
  induction fs with
  | nil => exact List.Sublist.refl _
  | cons f fs ih => exact (List.filter_sublist.trans ih).cons_cons f

theorem isHonest_removeRepeated : Edit.IsHonest removeRepeated := by
  intro fs h
  have hlength : (firsts fs).length = fs.length := by simpa [removeRepeated] using h
  exact (firsts_sublist fs).eq_of_length hlength

theorem keeps_removeRepeated : Edit.Keeps AreWellFormed removeRepeated where
  keeps {fs} h f hf := h f ((firsts_sublist fs).subset hf)
  honest := isHonest_removeRepeated _

/-! ## normalizing -/

/-- Steps that are not counted as a change leave a field alone. -/
theorem applyAll_eq_self {ns : List Normalization} {f : Field}
    (h : (Normalization.applyAll ns f).2 = false) : (Normalization.applyAll ns f).1 = f := by
  induction ns generalizing f with
  | nil => rfl
  | cons n ns ih =>
      simp only [Normalization.applyAll, Normalization.apply, Bool.or_eq_false_iff,
        decide_eq_false_iff_not, Classical.not_not] at h ⊢
      obtain ⟨hv, hmore⟩ := h
      have hf : { f with value := n.value f } = f := by rw [hv]
      rw [hf] at hmore ⊢
      exact ih hmore

/-- Steps keep a field well-formed, if none of them removes braces. -/
theorem isWellFormed_applyAll {ns : List Normalization}
    (hns : Normalization.stripEnclosingBraces ∉ ns) {f : Field} (h : f.IsWellFormed) :
    (Normalization.applyAll ns f).1.IsWellFormed := by
  induction ns generalizing f with
  | nil => exact h
  | cons n ns ih =>
      simp only [List.mem_cons, not_or] at hns
      exact ih hns.2 ⟨h.name, Normalization.isClosed_value (Ne.symm hns.1) h.value⟩

/-- Steps are honest together, whatever they are. -/
theorem isHonest_normalize (ns : List Normalization) : Edit.IsHonest (normalize ns) := by
  intro fs h
  have hsame : ∀ f ∈ fs, (Normalization.applyAll (Normalization.inOrder ns) f).2 = false := by
    simpa [normalize] using h
  calc
    fs.map (fun f => (Normalization.applyAll (Normalization.inOrder ns) f).1) = fs.map id :=
      List.map_congr_left fun f hf => applyAll_eq_self (hsame f hf)
    _ = fs := List.map_id fs

theorem keeps_normalize {ns : List Normalization}
    (hns : Normalization.stripEnclosingBraces ∉ ns) : Edit.Keeps AreWellFormed (normalize ns) where
  keeps {fs} h f hf := by
    obtain ⟨g, hg, rfl⟩ := List.mem_map.1 hf
    have hordered : Normalization.stripEnclosingBraces ∉ Normalization.inOrder ns :=
      fun hmem => hns (List.mem_mergeSort.1 hmem)
    exact isWellFormed_applyAll hordered (h g hg)
  honest := isHonest_normalize ns _

/-! ## ordering -/

/-- Fields that keep their names in order were in order. -/
theorem isHonest_sort (order : List Text) : Edit.IsHonest (sort order) := by
  intro fs h
  let lower := order.map Text.toLower
  let le (f g : Field) : Bool := rank lower f ≤ rank lower g
  have hnames : (fs.mergeSort le).map Field.name = fs.map Field.name := by
    simpa [sort] using h
  have hsorted : (fs.mergeSort le).Pairwise fun f g => le f g = true :=
    List.pairwise_mergeSort (fun f g h hfg hgh => by simp only [le, decide_eq_true_eq] at *; omega)
      (fun f g => by simp only [le, Bool.or_eq_true, decide_eq_true_eq]; omega) fs
  -- The order looks at the names only, so that it carries over to the list itself.
  have hle (f g : Field) : le f g =
      decide (lower.idxOf f.name.toLower ≤ lower.idxOf g.name.toLower) := rfl
  simp only [hle] at hsorted
  rw [← List.pairwise_map (f := Field.name) (R := fun a b =>
    decide (lower.idxOf a.toLower ≤ lower.idxOf b.toLower) = true), hnames,
    List.pairwise_map] at hsorted
  exact List.mergeSort_of_pairwise hsorted

theorem keeps_sort (order : List Text) : Edit.Keeps AreWellFormed (sort order) where
  keeps h f hf := h f (List.mem_mergeSort.1 hf)
  honest := isHonest_sort order _

end Fields

end Bibliography
