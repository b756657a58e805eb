import Bibliography.Proofs.Duplicates.Clusters

/-!
# Bibliography.Proofs.Duplicates.Absorption

What an entry has after it took up the fields of others.  Fields are taken up by
name, and names are compared up to case folding; values are looked up by name in
lower case.  Where the two agree, the value of a name is one that the entry had
or one that it took up under that name.

* `Entry.value?_absorbAll` — values after some fields were taken up;
* `Document.node?_absorbEach`, `Document.snd_absorbEach` — the roots after every
  cluster was absorbed, and which of them changed.
-/

namespace Bibliography

namespace Entry

variable {overwrite : Bool} {f g : Field} {fs incoming : List Field} {name : Text} {v : Value}

/-- The value of the first field of a name in lower case. -/
def value? (name : Text) (fs : List Field) : Option Value :=
  (fs.find? (·.lowerName = name)).map Field.value

theorem value?_cons (name : Text) (f : Field) (fs : List Field) :
    value? name (f :: fs) = if f.lowerName = name then some f.value else value? name fs := by
  unfold value?
  by_cases h : f.lowerName = name <;> simp [h]

/-- Where names are not repeated, every field is the first of its name. -/
theorem value?_of_mem (hnodup : (fs.map Field.lowerName).Nodup) (hf : f ∈ fs) :
    value? f.lowerName fs = some f.value := by
  induction fs with
  | nil => cases hf
  | cons g fs ih =>
      rw [List.map_cons, List.nodup_cons] at hnodup
      rw [value?_cons]
      rcases List.mem_cons.1 hf with rfl | hf
      · rw [if_pos rfl]
      · rw [if_neg, ih hnodup.2 hf]
        exact fun heq => hnodup.1 (heq ▸ List.mem_map_of_mem hf)

/-- Fields keep their names. -/
theorem exists_name_of_mem_absorb (h : g ∈ (absorb overwrite f fs).1) :
    ∃ g' ∈ f :: fs, g'.name = g.name := by
  induction fs with
  | nil =>
      obtain rfl := List.mem_singleton.1 h
      exact ⟨g, List.mem_cons_self, rfl⟩
  | cons k fs ih =>
      unfold absorb at h
      split at h
      · split at h
        · rcases List.mem_cons.1 h with rfl | h
          · exact ⟨k, by simp, rfl⟩
          · exact ⟨g, by simp [h], rfl⟩
        · exact ⟨g, List.mem_cons_of_mem _ h, rfl⟩
      · rcases List.mem_cons.1 h with rfl | h
        · exact ⟨g, by simp, rfl⟩
        · obtain ⟨g', hg', heq⟩ := ih h
          refine ⟨g', ?_, heq⟩
          rcases List.mem_cons.1 hg' with rfl | hg'
          · exact List.mem_cons_self
          · exact List.mem_cons_of_mem _ (List.mem_cons_of_mem _ hg')

/-- A field that is taken up gives its name its own value, or none. -/
theorem value?_absorb (hagree : ∀ g ∈ fs, g.isNamed f.name → g.lowerName = f.lowerName)
    (h : value? name (absorb overwrite f fs).1 = some v) :
    value? name fs = some v ∨ f.lowerName = name ∧ f.value = v := by
  induction fs with
  | nil =>
      rw [absorb, value?_cons] at h
      split at h
      · next hname => exact .inr ⟨hname, Option.some.inj h⟩
      · cases h
  | cons g fs ih =>
      unfold absorb at h
      rw [value?_cons]
      split at h
      · next hnamed =>
        split at h
        · rw [value?_cons] at h
          by_cases hg : g.lowerName = name
          · have hf := hagree g List.mem_cons_self hnamed
            exact .inr ⟨hf.symm.trans hg, Option.some.inj ((if_pos hg).symm.trans h)⟩
          · rw [if_neg hg]
            exact .inl ((if_neg hg).symm.trans h)
        · exact .inl (value?_cons name g fs ▸ h)
      · dsimp only at h
        rw [value?_cons] at h
        split at h
        · next hg => exact .inl ((if_pos hg).trans h)
        · next hg =>
          rw [if_neg hg]
          exact ih (fun g hg => hagree g (List.mem_cons_of_mem _ hg)) h

/-- **Fields that are taken up** bring their own values. -/
theorem value?_absorbAll
    (hagree : ∀ g ∈ fs ++ incoming, ∀ f ∈ incoming, g.isNamed f.name → g.lowerName = f.lowerName)
    (h : value? name (absorbAll overwrite incoming fs).1 = some v) :
    value? name fs = some v ∨ ∃ f ∈ incoming, f.lowerName = name ∧ f.value = v := by
  induction incoming generalizing fs with
  | nil => exact .inl h
  | cons f incoming ih =>
      rw [absorbAll_cons] at h
      have hagree' : ∀ g ∈ (absorb overwrite f fs).1 ++ incoming, ∀ f ∈ incoming,
          g.isNamed f.name → g.lowerName = f.lowerName := by
        intro g hg f' hf'
        have hname : ∃ g' ∈ fs ++ f :: incoming, g'.name = g.name := by
          rcases List.mem_append.1 hg with hg | hg
          · obtain ⟨g', hg', heq⟩ := exists_name_of_mem_absorb hg
            refine ⟨g', ?_, heq⟩
            rcases List.mem_cons.1 hg' with rfl | hg' <;> simp [*]
          · exact ⟨g, by simp [hg], rfl⟩
        obtain ⟨g', hg', heq⟩ := hname
        have hg' := hagree g' hg' f' (List.mem_cons_of_mem _ hf')
        unfold Field.isNamed Field.lowerName at hg' ⊢
        rwa [heq] at hg'
      rcases ih hagree' h with h | ⟨g, hg, hname, hvalue⟩
      · have hfs : ∀ g ∈ fs, g.isNamed f.name → g.lowerName = f.lowerName := fun g hg =>
          hagree g (List.mem_append_left _ hg) f List.mem_cons_self
        exact (value?_absorb hfs h).imp_right fun hf => ⟨f, List.mem_cons_self, hf⟩
      · exact .inr ⟨g, List.mem_cons_of_mem _ hg, hname, hvalue⟩

end Entry

/-- The edit of the root of a cluster. -/
def Cluster.absorbing (c : Cluster) (overwrite : Bool) (d : Document) : Edit Entry := fun e =>
  ({ e with fields := (Entry.absorbAll overwrite (c.incoming d) e.fields).1 },
    (Entry.absorbAll overwrite (c.incoming d) e.fields).2)

namespace Document

variable {d : Document} {overwrite : Bool} {c : Cluster} {cs : List Cluster} {j : NodeId}

/-- The fields of an entry. -/
def fields? (d : Document) (id : NodeId) : Option (List Field) := (d.entry? id).map Entry.fields

theorem mem_incoming {f : Field} :
    f ∈ c.incoming d ↔ ∃ j ∈ c.members, ∃ fs ∈ d.fields? j, f ∈ fs := by
  unfold Cluster.incoming fields?
  simp only [List.mem_flatMap, List.mem_filterMap, Option.mem_def, Option.map_eq_some_iff]
  constructor
  · rintro ⟨e, ⟨j, hj, he⟩, hf⟩
    exact ⟨j, hj, e.fields, ⟨e, he, rfl⟩, hf⟩
  · rintro ⟨j, hj, _, ⟨e, he, rfl⟩, hf⟩
    exact ⟨e, ⟨j, hj, he⟩, hf⟩

/-- The root takes up the fields of the members. -/
theorem node?_absorb (c : Cluster) (overwrite : Bool) (d : Document) (j : NodeId) :
    (c.absorb overwrite d).1.node? j =
      if j = c.root then (d.node? j).map fun n => (n.editEntry (c.absorbing overwrite d)).1
      else d.node? j := by
  split
  · next hj =>
    subst hj
    exact node?_editNode _ d
  · next hj => exact node?_editNode_of_ne _ d hj

theorem snd_absorb (c : Cluster) (overwrite : Bool) (d : Document) :
    (c.absorb overwrite d).2 = (d.entry? c.root).any fun e => (c.absorbing overwrite d e).2 := by
  unfold Cluster.absorb editEntry editNode entry?
  cases d.node? c.root with
  | none => rfl
  | some n => exact Node.snd_editEntry (c.absorbing overwrite d) n

theorem absorbing_congr {d' : Document} (h : ∀ j ∈ c.members, d'.node? j = d.node? j)
    (overwrite : Bool) : c.absorbing overwrite d' = c.absorbing overwrite d := by
  have hentries : c.members.filterMap d'.entry? = c.members.filterMap d.entry? :=
    List.filterMap_congr fun j hj => by unfold entry?; rw [h j hj]
  unfold Cluster.absorbing Cluster.incoming
  rw [hentries]

/-- Another cluster stays what it was. -/
theorem node?_absorb_of_disjoint {c' : Cluster} (h : c'.entries.Disjoint c.entries)
    (hj : j ∈ c.entries) : (c'.absorb overwrite d).1.node? j = d.node? j := by
  rw [node?_absorb, if_neg]
  rintro rfl
  exact h List.mem_cons_self hj

theorem node?_absorbEach_of_ne (hj : ∀ c ∈ cs, j ≠ c.root) :
    (Cluster.absorbEach overwrite cs d).1.node? j = d.node? j := by
  induction cs generalizing d with
  | nil => rfl
  | cons c cs ih =>
      have hroot : (c.absorb overwrite d).1.node? j = d.node? j := by
        rw [node?_absorb, if_neg (hj c List.mem_cons_self)]
      exact (ih fun c' hc' => hj c' (List.mem_cons_of_mem _ hc')).trans hroot

/-- **The root of every cluster** takes up the fields that the members had at first, since no entry
is in two clusters. -/
theorem node?_absorbEach (hcs : cs.Pairwise fun c c' => c.entries.Disjoint c'.entries)
    (hc : c ∈ cs) : (Cluster.absorbEach overwrite cs d).1.node? c.root =
      (d.node? c.root).map fun n => (n.editEntry (c.absorbing overwrite d)).1 := by
  induction cs generalizing d with
  | nil => cases hc
  | cons c' cs ih =>
      obtain ⟨hdisjoint, hcs⟩ := List.pairwise_cons.1 hcs
      rw [Cluster.absorbEach]
      dsimp only
      rcases List.mem_cons.1 hc with rfl | hc
      · rw [node?_absorbEach_of_ne, node?_absorb, if_pos rfl]
        intro c' hc' heq
        exact hdisjoint c' hc' List.mem_cons_self (heq ▸ List.mem_cons_self)
      · have hkept {i : NodeId} (hi : i ∈ c.entries) :
            (c'.absorb overwrite d).1.node? i = d.node? i :=
          node?_absorb_of_disjoint (hdisjoint c hc) hi
        rw [ih hcs hc, hkept List.mem_cons_self,
          absorbing_congr fun j hj => hkept (List.mem_cons_of_mem _ hj)]

/-- **The roots that changed** are those that their own clusters change. -/
theorem snd_absorbEach (hcs : cs.Pairwise fun c c' => c.entries.Disjoint c'.entries) :
    (Cluster.absorbEach overwrite cs d).2 =
      (cs.filter fun c => (c.absorb overwrite d).2).map Cluster.root := by
  induction cs generalizing d with
  | nil => rfl
  | cons c cs ih =>
      obtain ⟨hdisjoint, hcs⟩ := List.pairwise_cons.1 hcs
      have hothers : (cs.filter fun c' => (c'.absorb overwrite (c.absorb overwrite d).1).2) =
          cs.filter fun c' => (c'.absorb overwrite d).2 := by
        refine List.filter_congr fun c' hc' => ?_
        have hkept {i : NodeId} (hi : i ∈ c'.entries) :
            (c.absorb overwrite d).1.node? i = d.node? i :=
          node?_absorb_of_disjoint (hdisjoint c' hc') hi
        rw [snd_absorb, snd_absorb]
        unfold entry?
        rw [hkept List.mem_cons_self, absorbing_congr fun j hj => hkept (List.mem_cons_of_mem _ hj)]
      rw [Cluster.absorbEach]
      dsimp only
      rw [ih hcs, hothers, List.filter_cons]
      split <;> rfl

theorem fields?_absorbEach (hcs : cs.Pairwise fun c c' => c.entries.Disjoint c'.entries)
    (hc : c ∈ cs) : fields? (Cluster.absorbEach overwrite cs d).1 c.root =
      (d.fields? c.root).map fun fs => (Entry.absorbAll overwrite (c.incoming d) fs).1 := by
  unfold fields? entry?
  rw [node?_absorbEach hcs hc]
  cases d.node? c.root with
  | none => rfl
  | some n =>
      rw [Option.map_some, Option.bind_some, Option.bind_some, Node.entry?_editEntry,
        Option.map_map, Option.map_map]
      rfl

/-- What an entry has after merging. -/
theorem fields?_merge (hcs : cs.Pairwise fun c c' => c.entries.Disjoint c'.entries)
    (strategy : MergeStrategy) (j : NodeId) :
    (d.merge cs strategy).document.fields? j = d.fields? j ∨ ∃ overwrite, ∃ c ∈ cs, j = c.root ∧
      (d.merge cs strategy).document.fields? j =
        (d.fields? j).map fun fs => (Entry.absorbAll overwrite (c.incoming d) fs).1 := by
  unfold merge
  cases strategy.absorbs? with
  | none => exact .inl rfl
  | some overwrite =>
      by_cases hj : ∀ c ∈ cs, j ≠ c.root
      · refine .inl ?_
        unfold fields? entry?
        exact congrArg (fun n => (n.bind Node.entry?).map Entry.fields) (node?_absorbEach_of_ne hj)
      · simp only [not_forall, not_not] at hj
        obtain ⟨c, hc, rfl⟩ := hj
        exact .inr ⟨overwrite, c, hc, rfl, fields?_absorbEach hcs hc⟩

end Document

end Bibliography
