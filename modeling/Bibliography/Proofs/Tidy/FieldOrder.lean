import Bibliography.Proofs.Sort.Stable
import Bibliography.Proofs.Tidy.Index
import Bibliography.Proofs.Tidy.Normalizing

/-!
# Bibliography.Proofs.Tidy.FieldOrder

Putting fields into an order, and removing those that repeat a name.  Both tell
names apart by their lower case, as the index does, and both keep the first field of
every name the first.  So neither changes what an entry means.

The order is a stable sort by the places of names in a list.  It can be said without
sorting: take out the fields of the first name, then those of the second, and leave
the others at the end (`Fields.gather`).

* `Fields.sort_eq_gather` — the order;
* `Fields.firsts_eq` — what is left of repeated names;
* `Fields.keepsMeaning_sort_removeRepeated` — both edits, as passes over documents.
-/

namespace Bibliography

namespace Fields

variable {fs gs : List Field} {name : Text} {names : List Text}

/-! ## the order -/

/-- The fields of some names, name by name, and the others after them. -/
def gather : List Text → List Field → List Field
  | [], fs => fs
  | name :: names, fs =>
    fs.filter (·.lowerName = name) ++ gather names (fs.filter (·.lowerName ≠ name))

theorem gather_perm (names : List Text) (fs : List Field) : (gather names fs).Perm fs := by
  induction names generalizing fs with
  | nil => exact .refl fs
  | cons name names ih =>
      refine ((ih _).append_left _).trans ?_
      simpa using List.filter_append_perm (fun f : Field => decide (f.lowerName = name)) fs

theorem rank_cons_self {f : Field} (h : f.lowerName = name) : rank (name :: names) f = 0 := by
  rw [rank, h, List.idxOf_cons_self]

theorem rank_cons_of_ne {f : Field} (h : f.lowerName ≠ name) :
    rank (name :: names) f = rank names f + 1 :=
  List.idxOf_cons_ne _ (Ne.symm h)

/-- The fields of one rank have the first name, or one rank among the other names. -/
theorem filter_rank_cons (name : Text) (names : List Text) (f : Field) (fs : List Field) :
    (fs.filter fun g => rank (name :: names) g = rank (name :: names) f) =
      if f.lowerName = name then fs.filter (·.lowerName = name)
      else (fs.filter (·.lowerName ≠ name)).filter fun g => rank names g = rank names f := by
  split
  · next hf =>
    refine List.filter_congr fun g _ => ?_
    by_cases hg : g.lowerName = name
    · simp [hg, rank_cons_self hf, rank_cons_self hg]
    · simp [hg, rank_cons_self hf, rank_cons_of_ne hg]
  · next hf =>
    rw [List.filter_filter]
    refine List.filter_congr fun g _ => ?_
    by_cases hg : g.lowerName = name
    · simp [hg, rank_cons_of_ne hf, rank_cons_self hg]
    · simp [hg, rank_cons_of_ne hf, rank_cons_of_ne hg]

/-- The fields of the first name stand in front, and the others are gathered by themselves. -/
theorem filter_gather_cons (name : Text) (names : List Text) (fs : List Field) :
    (gather (name :: names) fs).filter (·.lowerName = name) = fs.filter (·.lowerName = name) ∧
      (gather (name :: names) fs).filter (·.lowerName ≠ name) =
        gather names (fs.filter (·.lowerName ≠ name)) := by
  have hrest : ∀ f ∈ gather names (fs.filter (·.lowerName ≠ name)), f.lowerName ≠ name :=
    fun f hf => by simpa using (List.mem_filter.1 ((gather_perm names _).subset hf)).2
  have hnamed : (gather names (fs.filter (·.lowerName ≠ name))).filter (·.lowerName = name) = [] :=
    List.filter_eq_nil_iff.2 fun f hf => by simpa using hrest f hf
  have hothers : (fs.filter (·.lowerName = name)).filter (·.lowerName ≠ name) = [] :=
    List.filter_eq_nil_iff.2 fun f hf => by simpa using (List.mem_filter.1 hf).2
  constructor
  · rw [gather, List.filter_append, hnamed, List.append_nil, List.filter_filter]
    simp only [Bool.and_self]
  · rw [gather, List.filter_append, hothers, List.nil_append]
    exact List.filter_eq_self.2 fun f hf => by simpa using hrest f hf

/-- **Taking out name by name is a stable sort** by the places of the names. -/
theorem isStableSort_gather (names : List Text) (fs : List Field) :
    Sorting.IsStableSort (rank names) (· < ·) fs (gather names fs) := by
  induction names generalizing fs with
  | nil => exact ⟨.refl fs, List.pairwise_of_forall fun f g => Nat.not_lt_zero _, fun f => rfl⟩
  | cons name names ih =>
      have hrest := ih (fs.filter (·.lowerName ≠ name))
      have hfirst : ∀ f ∈ fs.filter (·.lowerName = name), rank (name :: names) f = 0 := fun f hf =>
        rank_cons_self (by simpa using (List.mem_filter.1 hf).2)
      have hlater : ∀ f ∈ gather names (fs.filter (·.lowerName ≠ name)),
          rank (name :: names) f = rank names f + 1 := fun f hf =>
        rank_cons_of_ne (by simpa using (List.mem_filter.1 (hrest.perm.subset hf)).2)
      constructor
      case perm => exact gather_perm _ fs
      case sorted =>
        refine List.pairwise_append.2 ⟨?_, ?_, fun f hf g hg => ?_⟩
        · refine List.pairwise_of_forall_mem_list fun f hf g hg => ?_
          rw [hfirst f hf, hfirst g hg]
          exact Nat.lt_irrefl 0
        · refine hrest.sorted.imp_of_mem fun {f g} hf hg hle => ?_
          rw [hlater f hf, hlater g hg]
          omega
        · rw [hfirst f hf]
          exact Nat.not_lt_zero _
      case stable =>
        intro f
        obtain ⟨hnamed, hothers⟩ := filter_gather_cons name names fs
        rw [filter_rank_cons, filter_rank_cons, hnamed, hothers, hrest.stable f]

theorem isStableSort_sort (order : List Text) (fs : List Field) :
    Sorting.IsStableSort (rank (order.map Text.toLower)) (· < ·) fs (sort order fs).1 :=
  Sorting.isStableSort_mergeSort (by simp) fs

/-- **The order of fields** takes out name by name. -/
theorem sort_eq_gather (order : List Text) (fs : List Field) :
    (sort order fs).1 = gather (order.map Text.toLower) fs :=
  (isStableSort_sort order fs).unique (isStableSort_gather _ fs) fun f _ g _ hfg hgf => by omega

/-- A name that is mentioned again, one that is not, and fields that repeat a name. -/
example :
    (sort ["B".toList, "a".toList, "b".toList]
      (["b", "x", "A", "B", "a"].map fun name => ⟨name.toList, []⟩)).1.map Field.name =
      ["b", "B", "A", "a", "x"].map String.toList := by
  rw [sort_eq_gather]
  decide +kernel

/-- Fields that are in order stay as they are. -/
theorem sort_sort (order : List Text) (fs : List Field) :
    sort order (sort order fs).1 = ((sort order fs).1, false) := by
  have hsame : (sort order (sort order fs).1).1 = (sort order fs).1 := by
    refine List.mergeSort_of_pairwise ((isStableSort_sort order fs).sorted.imp ?_)
    simp
  exact Prod.ext hsame (decide_eq_false fun hne => hne (congrArg (List.map Field.name) hsame))

theorem isExact_sort (order : List Text) : Edit.IsExact (sort order) := by
  refine fun fs => ⟨fun hchanged hsame => ?_, fun hne => ?_⟩
  · change decide ((sort order fs).1.map Field.name ≠ fs.map Field.name) = true at hchanged
    simp [hsame] at hchanged
  · rw [← Bool.not_eq_false]
    exact fun h => hne (isHonest_sort order fs h)

/-! ## repeated names -/

theorem find?_firsts (fs : List Field) (name : Text) :
    (firsts fs).find? (fun f => f.lowerName = name) = fs.find? fun f => f.lowerName = name := by
  induction fs with
  | nil => rfl
  | cons f fs ih =>
      rw [firsts, List.find?_cons, List.find?_cons]
      split
      · rfl
      · next hf =>
        have hne : f.lowerName ≠ name := by simpa using hf
        rw [← ih, List.find?_filter]
        congr 1
        funext g
        by_cases hg : g.lowerName = name
        · simp [hg, Ne.symm hne]
        · simp [hg]

theorem pairwise_firsts (fs : List Field) :
    (firsts fs).Pairwise fun f g => f.lowerName ≠ g.lowerName := by
  induction fs with
  | nil => exact .nil
  | cons f fs ih =>
      refine List.pairwise_cons.2 ⟨fun g hg => ?_, ih.filter _⟩
      exact Ne.symm (of_decide_eq_true (List.mem_filter.1 hg).2)

theorem firsts_eq_self (h : fs.Pairwise fun f g => f.lowerName ≠ g.lowerName) : firsts fs = fs := by
  induction fs with
  | nil => rfl
  | cons f fs ih =>
      obtain ⟨hf, hrest⟩ := List.pairwise_cons.1 h
      rw [firsts, ih hrest, List.filter_eq_self.2 fun g hg => decide_eq_true (hf g hg).symm]

theorem removeRepeated_removeRepeated (fs : List Field) :
    removeRepeated (removeRepeated fs).1 = ((removeRepeated fs).1, false) := by
  simp [removeRepeated, firsts_eq_self (pairwise_firsts fs)]

theorem isExact_removeRepeated : Edit.IsExact removeRepeated := by
  refine fun fs => ⟨fun hchanged hsame => ?_, fun hne => ?_⟩
  · have hlength : (firsts fs).length ≠ fs.length := by simpa [removeRepeated] using hchanged
    exact hlength (congrArg List.length hsame)
  · rw [← Bool.not_eq_false]
    exact fun h => hne (isHonest_removeRepeated fs h)

/-- The first fields of the names that are not among those before, by their places. -/
theorem filter_firsts (before fs : List Field) :
    ((firsts fs).filter fun f => ∀ g ∈ before, g.lowerName ≠ f.lowerName) =
      ((fs.zipIdx before.length).filter fun p : Field × Nat =>
        ∀ g ∈ (before ++ fs).take p.2, g.lowerName ≠ p.1.lowerName).map Prod.fst := by
  induction fs generalizing before with
  | nil => rfl
  | cons f fs ih =>
      have hrest := ih (before ++ [f])
      rw [List.length_append, List.length_singleton, List.append_assoc, List.singleton_append]
        at hrest
      have hfilter : (((firsts fs).filter fun g => g.lowerName ≠ f.lowerName).filter
          fun g => ∀ h ∈ before, h.lowerName ≠ g.lowerName) =
          (firsts fs).filter fun g => ∀ h ∈ before ++ [f], h.lowerName ≠ g.lowerName := by
        rw [List.filter_filter]
        refine List.filter_congr fun g _ => ?_
        simp [or_imp, forall_and, eq_comm, Bool.and_comm]
      rw [firsts, List.zipIdx_cons, List.filter_cons, List.filter_cons, List.take_left, hfilter,
        hrest]
      split <;> rfl

/-- **What is left of repeated names**: a field stays just if no field before it has its name. -/
theorem firsts_eq (fs : List Field) :
    firsts fs = (fs.zipIdx.filter fun p : Field × Nat =>
      ∀ g ∈ fs.take p.2, g.lowerName ≠ p.1.lowerName).map Prod.fst := by
  simpa using filter_firsts [] fs

theorem answer_removeRepeated (fs : List Field) :
    (FieldMap.ofFields (removeRepeated fs).1).answer = (FieldMap.ofFields fs).answer := by
  funext name
  unfold FieldMap.answer
  rw [FieldMap.lookup_ofFields, FieldMap.lookup_ofFields]
  exact congrArg (Option.map Field.resolve) (find?_firsts fs name)

/-! ## passes over documents -/

/-- An edit of field lists, and the pass over a document that it makes, change no meaning and report
just what they change. -/
structure KeepsMeaning (f : Edit (List Field)) : Prop where
  /-- The fields resolve as before. -/
  answer : ∀ fs, (FieldMap.ofFields (f fs).1).answer = (FieldMap.ofFields fs).answer
  /-- A second edit changes nothing. -/
  again : ∀ fs, f (f fs).1 = ((f fs).1, false)
  exact : Edit.IsExact f
  /-- The index of a document answers as before. -/
  index : ∀ d id name, (FieldIndex.build (Document.editFields f d).1).get? id name =
    (FieldIndex.build d).get? id name
  /-- A second pass leaves the document as it is and reports nothing. -/
  idempotent : ∀ d : Document, (d.editFields f).1.editFields f = ((d.editFields f).1, [])
  /-- The entries that are reported, in order, are those with other fields than before. -/
  reported : ∀ d : Document, (d.editFields f).2 = d.entryIds.filter fun id =>
    (Document.entry? (d.editFields f).1 id).map Entry.fields ≠ (d.entry? id).map Entry.fields

variable {f : Edit (List Field)}

theorem get?_build_editFields
    (h : ∀ fs, (FieldMap.ofFields (f fs).1).answer = (FieldMap.ofFields fs).answer) (d : Document)
    (id : NodeId) (name : Text) : (FieldIndex.build (Document.editFields f d).1).get? id name =
      (FieldIndex.build d).get? id name := by
  unfold FieldIndex.get?
  rw [FieldIndex.lookup_build_eq, FieldIndex.lookup_build_eq, Document.entry?_editFields]
  change (if id ∈ d.order then _ else none).bind _ = _
  split
  · next hid =>
    cases d.entry? id with
    | none => rfl
    | some e => exact congrFun (h e.fields) name.toLower
  · rfl

/-- Picking out items by a test, which may be made of their images. -/
theorem filterMap_ite_eq {α β : Type} {g : α → β} {p : α → Bool} {q : β → Bool} {as : List α}
    (h : ∀ a ∈ as, q (g a) = p a) :
    (as.filterMap fun a => if p a then some (g a) else none) = (as.map g).filter q := by
  induction as with
  | nil => rfl
  | cons a as ih =>
      obtain ⟨ha, has⟩ := List.forall_mem_cons.1 h
      rw [List.map_cons, List.filter_cons, ha, List.filterMap_cons, ih has]
      cases p a <;> rfl

theorem reported_editFields (h : Edit.IsExact f) (d : Document) :
    (d.editFields f).2 = d.entryIds.filter fun id =>
      (Document.entry? (d.editFields f).1 id).map Entry.fields ≠ (d.entry? id).map Entry.fields := by
  refine filterMap_ite_eq (p := fun p : NodeId × Entry => (f p.2.fields).2) fun p hp => ?_
  obtain ⟨id, hid, hentry⟩ := List.mem_filterMap.1 hp
  obtain ⟨e, he, rfl⟩ := Option.map_eq_some_iff.1 hentry
  have hchanged := h e.fields
  rw [Document.entry?_editFields, he, Option.map_some, if_pos hid]
  cases hf : (f e.fields).2 <;> simp_all

/-- An edit that keeps what fields resolve to, is done at once, and counts just what it changes. -/
theorem keepsMeaning_of
    (answer : ∀ fs, (FieldMap.ofFields (f fs).1).answer = (FieldMap.ofFields fs).answer)
    (again : ∀ fs, f (f fs).1 = ((f fs).1, false)) (exact : Edit.IsExact f) : KeepsMeaning f where
  answer := answer
  again := again
  exact := exact
  index := get?_build_editFields answer
  idempotent d := by
    refine (Document.editEntries_eq_self_iff (Document.isHonest_fields exact.isHonest)).2 ?_
    intro p hp
    rw [Document.editFields, Document.entries_editEntries] at hp
    obtain ⟨q, -, rfl⟩ := List.mem_map.1 hp
    exact congrArg Prod.snd (again q.2.fields)
  reported := reported_editFields exact

end Fields

end Bibliography
