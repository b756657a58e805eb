import Bibliography.Proofs.Tidy.Changes
import Bibliography.Proofs.Tidy.Sorting
import Bibliography.Tidy

/-!
# Bibliography.Proofs.Tidy.Index

The index of resolved values is never stale during a run.  A pass resolves again
the entries that it tells to have changed, and the answers for all others are
the same as before: either their fields are, or their fields were put into
another order that leaves the first field of every name the first.

* `FieldIndex.lookup_refreshAll`, `FieldIndex.lookup_build` — what an index holds;
* `Fields.answer_sort` — fields in another order answer alike;
* `Run.IsFresh.ofEntry_eq_some_iff` — what an entry is sorted by;
* `Run.isFresh_run` — a pass keeps the index up to date, by cases over the passes;
* `Run.index_current` — so does every run, by induction.
-/

namespace Bibliography

/-! ## what an index holds -/

namespace FieldIndex

theorem lookup_others (entries : List (NodeId × FieldMap)) (id j : NodeId) :
    (entries.filter fun p => p.1 ≠ id).lookup j = if j = id then none else entries.lookup j := by
  induction entries with
  | nil => simp
  | cons p entries ih =>
      obtain ⟨i, m⟩ := p
      by_cases hi : i = id
      · subst hi
        rw [List.filter_cons_of_neg (by simp), ih]
        by_cases hj : j = i
        · simp [hj]
        · have hne : (j == i) = false := by simpa using hj
          simp [List.lookup_cons, hj, hne]
      · rw [List.filter_cons_of_pos (by simpa using hi), List.lookup_cons, List.lookup_cons, ih]
        by_cases hj : j = id
        · have hne : (j == i) = false := by simpa [hj] using Ne.symm hi
          simp [hne]
        · simp [hj]

/-- An entry that is resolved again has its present fields; the others stay. -/
theorem lookup_refresh (d : Document) (index : FieldIndex) (id j : NodeId) :
    (refresh d index id).entries.lookup j =
      if j = id then (d.entry? id).map Entry.resolve else index.entries.lookup j := by
  unfold refresh
  cases d.entry? id with
  | none =>
      dsimp only
      rw [lookup_others]
      rfl
  | some e =>
      dsimp only
      rw [List.lookup_cons, lookup_others]
      by_cases hj : j = id
      · simp [hj]
      · have hne : (j == id) = false := by simpa using hj
        simp [hj, hne]

theorem lookup_refreshAll (d : Document) (index : FieldIndex) (ids : List NodeId) (j : NodeId) :
    (refreshAll d index ids).entries.lookup j =
      if j ∈ ids then (d.entry? j).map Entry.resolve else index.entries.lookup j := by
  induction ids generalizing index with
  | nil => rfl
  | cons id ids ih =>
      unfold refreshAll at ih ⊢
      rw [List.foldl_cons, ih, lookup_refresh]
      by_cases hids : j ∈ ids
      · simp [hids]
      · by_cases hj : j = id <;> simp [hids, hj]

/-- Look-up among the handles that have something. -/
theorem lookup_pairs (g : NodeId → Option FieldMap) (ids : List NodeId) (id : NodeId) :
    (ids.filterMap fun i => (g i).map fun m => (i, m)).lookup id =
      if id ∈ ids then g id else none := by
  induction ids with
  | nil => rfl
  | cons i ids ih =>
      rw [List.filterMap_cons]
      by_cases hid : id = i
      · subst hid
        cases hg : g id with
        | none => simp [ih, hg]
        | some m => simp
      · have hne : (id == i) = false := by simpa using hid
        cases hg : g i with
        | none => simp [ih, hid]
        | some m => simp [ih, hid, hne, List.lookup_cons]

/-- The index of a document has its present entries, and no others. -/
theorem lookup_build_eq (d : Document) (id : NodeId) :
    (build d).entries.lookup id =
      if id ∈ d.order then (d.entry? id).map Entry.resolve else none := by
  have hentries : (build d).entries =
      d.order.filterMap fun i => ((d.entry? i).map Entry.resolve).map fun m => (i, m) := by
    unfold build Document.entries
    dsimp only
    rw [List.map_filterMap]
    refine List.filterMap_congr fun i _ => ?_
    cases d.entry? i <;> rfl
  rw [hentries, lookup_pairs]

theorem lookup_build {d : Document} {id : NodeId} (hid : id ∈ d.order) :
    (build d).entries.lookup id = (d.entry? id).map Entry.resolve := by
  rw [lookup_build_eq, if_pos hid]

end FieldIndex

/-! ## fields in another order -/

namespace Fields

/-- Sorting keeps the fields of one name in their order. -/
theorem filter_sort (order : List Text) (fs : List Field) (name : Text) :
    ((sort order fs).1.filter fun f => decide (f.lowerName = name)) =
      fs.filter fun f => decide (f.lowerName = name) := by
  let lower := order.map Text.toLower
  let le (f g : Field) : Bool := rank lower f ≤ rank lower g
  have hsublist : (fs.filter fun f => decide (f.lowerName = name)).Sublist (fs.mergeSort le) := by
    refine List.sublist_mergeSort ?_ ?_ ?_ List.filter_sublist
    · intro f g h hfg hgh
      simp only [le, decide_eq_true_eq] at *
      omega
    · intro f g
      simp only [le, Bool.or_eq_true, decide_eq_true_eq]
      omega
    · -- Fields of one name have one rank.
      refine List.pairwise_of_forall_mem_list fun f hf g hg => ?_
      have hf : f.lowerName = name := by simpa using (List.mem_filter.1 hf).2
      have hg : g.lowerName = name := by simpa using (List.mem_filter.1 hg).2
      simp [le, rank, hf, hg]
  have hsame := hsublist.filter fun f => decide (f.lowerName = name)
  rw [List.filter_filter] at hsame
  simp only [Bool.and_self] at hsame
  have hlength := ((List.mergeSort_perm fs le).filter fun f => decide (f.lowerName = name)).length_eq
  exact (hsame.eq_of_length hlength.symm).symm

end Fields

/-- What a map answers. -/
def FieldMap.answer (m : FieldMap) (name : Text) : Option Resolved := m.lookup name

/-- **Fields in another order answer alike.** -/
theorem Fields.answer_sort (order : List Text) (fs : List Field) :
    (FieldMap.ofFields (Fields.sort order fs).1).answer = (FieldMap.ofFields fs).answer := by
  funext name
  unfold FieldMap.answer
  rw [FieldMap.lookup_ofFields, FieldMap.lookup_ofFields, ← List.head?_filter,
    ← List.head?_filter, filter_sort]

/-! ## entries that answer alike -/

namespace Document

variable {d d' : Document} {changed : List NodeId}

/-- What the present fields of a handle answer. -/
def answers (d : Document) (id : NodeId) : Option (Text → Option Resolved) :=
  (d.entry? id).map fun e => e.resolve.answer

theorem answers_eq_of_fields {id : NodeId}
    (h : (d'.entry? id).map Entry.fields = (d.entry? id).map Entry.fields) :
    d'.answers id = d.answers id := by
  have hanswers (d : Document) : d.answers id =
      ((d.entry? id).map Entry.fields).map fun fs => (FieldMap.ofFields fs).answer := by
    rw [Option.map_map]
    rfl
  rw [hanswers, hanswers, h]

/-- A document that has come from another: nodes went, and the entries that are not told to have
changed answer as before. -/
structure Keeps (changed : List NodeId) (d d' : Document) : Prop where
  order : d'.order ⊆ d.order
  answers : ∀ id, id ∉ changed → d'.answers id = d.answers id

theorem Revises.keeps (h : Revises changed d d') (horder : d'.order ⊆ d.order) :
    Keeps changed d d' :=
  ⟨horder, fun _ hid => answers_eq_of_fields (h.fields_eq hid)⟩

/-! ## edits that keep all answers -/

/-- An edit of a node that keeps the fields of an entry keeps those of all entries. -/
theorem fields_editNode {f : Edit Node}
    (hf : ∀ n, (Node.entry? (f n).1).map Entry.fields = n.entry?.map Entry.fields) (id : NodeId)
    (d : Document) (j : NodeId) :
    (Document.entry? (d.editNode f id).1 j).map Entry.fields = (d.entry? j).map Entry.fields := by
  unfold entry?
  by_cases hj : j = id
  · subst hj
    rw [node?_editNode]
    cases d.node? j with
    | none => rfl
    | some n => exact hf n
  · rw [node?_editNode_of_ne f d hj]

/-- Only comments are brought into shape. -/
theorem fields_tidyCommentsFrom (onNewLine : Bool) (ids : List NodeId) (d : Document)
    (j : NodeId) : (Document.entry? (tidyCommentsFrom onNewLine ids d).1 j).map Entry.fields =
      (d.entry? j).map Entry.fields := by
  induction ids generalizing onNewLine d with
  | nil => rfl
  | cons id ids ih =>
      refine (ih _ _).trans (fields_editNode (fun n => ?_) id d j)
      cases n with
      | text t =>
          rw [Node.tidy]
          split <;> rfl
      | block b =>
          unfold Node.tidy Node.editBlock Node.entry? Node.block? Block.entry?
          rw [Option.bind_some, Option.bind_some, Block.body_edit]
          unfold Node.tidyComment
          split
          · next p hp =>
            rw [hp]
            rfl
          · rfl

/-- Citation keys are no fields. -/
theorem fields_setKeys (keys : List (NodeId × Text)) (d : Document) (j : NodeId) :
    (Document.entry? (setKeys keys d).1 j).map Entry.fields = (d.entry? j).map Entry.fields := by
  induction keys generalizing d with
  | nil => rfl
  | cons p keys ih =>
      refine (ih _).trans (fields_editNode (fun n => ?_) p.1 d j)
      rw [Node.entry?_editEntry, Option.map_map]
      rfl

theorem fields_generateKeysFrom (d : Document) (index : FieldIndex) (template : Text)
    (j : NodeId) : (Document.entry? (d.generateKeysFrom index template).1 j).map Entry.fields =
      (d.entry? j).map Entry.fields := by
  unfold generateKeysFrom
  split
  · exact fields_setKeys _ d j
  · rfl

theorem entry?_editFields (f : Edit (List Field)) (d : Document) (id : NodeId) :
    entry? (d.editFields f).1 id =
      (d.entry? id).map fun e => if id ∈ d.order then { e with fields := (f e.fields).1 } else e := by
  unfold editFields entry?
  rw [node?_editEntries]
  cases d.node? id with
  | none => rfl
  | some n =>
      rw [Option.map_some, Option.bind_some, Option.bind_some]
      split
      · cases n with
        | text t => rfl
        | block b =>
            unfold Node.editEntry Block.editEntry Node.entry? Node.block? Block.entry?
            rw [Option.bind_some, Option.bind_some, Block.body_edit]
            cases hb : b.body <;> simp [hb, Body.entry?]
      · simp

/-- **Sorting fields** keeps all answers. -/
theorem answers_sortFields (order : List Text) (d : Document) (id : NodeId) :
    (d.editFields (Fields.sort order)).1.answers id = d.answers id := by
  unfold answers
  rw [entry?_editFields, Option.map_map]
  congr 1
  funext e
  dsimp only [Function.comp_apply]
  split
  · exact Fields.answer_sort order e.fields
  · rfl

/-! ## the order -/

theorem withoutComments_sublist (afterDropped : Bool) (items : List (NodeId × Node)) :
    (withoutComments afterDropped items).Sublist (items.map (·.1)) := by
  induction items generalizing afterDropped with
  | nil => exact .slnil
  | cons p items ih =>
      rw [withoutComments, List.map_cons]
      split
      · exact (ih true).cons p.1
      · exact (ih false).cons_cons p.1

/-- The handles of a class of nodes, tagged with what is known of them. -/
theorem map_fst_filterMap {β : Type} (f : NodeId → Option β) (ids : List NodeId) :
    (ids.filterMap fun id => (f id).map (id, ·)).map (·.1) = ids.filter fun id => (f id).isSome := by
  induction ids with
  | nil => rfl
  | cons id ids ih => cases h : f id <;> simp [h, ih]

theorem entryIds_eq (d : Document) : d.entryIds = d.order.filter fun id => (d.entry? id).isSome :=
  map_fst_filterMap d.entry? d.order

theorem mem_order_of_entryIds {d : Document} {id : NodeId} (h : id ∈ d.entryIds) :
    id ∈ d.order := by
  rw [entryIds_eq] at h
  exact (List.mem_filter.1 h).1

theorem stripComments_sublist (d : Document) : d.stripComments.1.order.Sublist d.order := by
  have hitems : (d.items.map (·.1)).Sublist d.order := by
    rw [items, map_fst_filterMap]
    exact List.filter_sublist
  exact (withoutComments_sublist false d.items).trans hitems

/-- **Sorting** only permutes the order. -/
theorem sortEntries_perm (d : Document) (index : FieldIndex) (keys : List SortKey) :
    (d.sortEntries index keys).1.order.Perm d.order := by
  unfold sortEntries
  split
  · exact .refl _
  · have hperm := (d.sortGroups_perm index keys d.groups).flatMap_right Group.nodes
    rwa [groups, flatMap_groupsFrom, List.nil_append] at hperm

@[simp] theorem order_absorbEach (overwrite : Bool) (cs : List Cluster) (d : Document) :
    (Cluster.absorbEach overwrite cs d).1.order = d.order := by
  induction cs generalizing d with
  | nil => rfl
  | cons c cs ih =>
      rw [Cluster.absorbEach]
      exact (ih _).trans (order_editNode _ _ _)

/-- Merging removes the entries that the strategy says. -/
theorem order_merge (d : Document) (clusters : List Cluster) (strategy : MergeStrategy) :
    (d.merge clusters strategy).document.order =
      d.order.filter (· ∉ clusters.flatMap (·.removed strategy)) := by
  unfold merge
  cases strategy.absorbs? with
  | none => rfl
  | some overwrite =>
      rw [← order_absorbEach overwrite clusters d]
      rfl

theorem merge_sublist (d : Document) (clusters : List Cluster) (strategy : MergeStrategy) :
    (d.merge clusters strategy).document.order.Sublist d.order :=
  order_merge d clusters strategy ▸ List.filter_sublist

end Document

/-! ## runs -/

namespace Run

open Document

/-- The index has what the present entries answer. -/
def IsFresh (r : Run) : Prop :=
  ∀ id ∈ r.document.order, ∀ answer ∈ r.document.answers id,
    (r.index.entries.lookup id).map FieldMap.answer = some answer

variable {r : Run}

/-- A fresh index has a map for every present entry, which answers like its fields. -/
theorem IsFresh.exists_lookup (h : r.IsFresh) {id : NodeId} {e : Entry}
    (hid : id ∈ r.document.order) (he : r.document.entry? id = some e) :
    ∃ m, r.index.entries.lookup id = some m ∧ ∀ name, m.lookup name = e.resolve.lookup name := by
  obtain ⟨m, hm, hanswer⟩ := Option.map_eq_some_iff.1 <|
    h id hid e.resolve.answer (by simp [answers, he])
  exact ⟨m, hm, congrFun hanswer⟩

/-- **A fresh index gives what an entry is sorted by.** -/
theorem IsFresh.ofEntry_eq_some_iff (h : r.IsFresh) {id : NodeId} {b : Block} {e : Entry}
    (hid : id ∈ r.document.order) (hb : r.document.block? id = some b) (he : b.entry? = some e)
    (key : SortKey) (v : Text) :
    SortValue.ofEntry r.document r.index id key = some v ↔ b.IsSortedBy e key.field v := by
  have hentry : r.document.entry? id = some e := by rw [entry?_eq, hb, Option.bind_some, he]
  obtain ⟨m, hm, hlookup⟩ := h.exists_lookup hid hentry
  refine SortValue.ofEntry_eq_some_iff hb he (fun name => ?_) key v
  rw [FieldIndex.get?, hm]
  exact hlookup name.toLower

theorem isFresh_start (s : Text) : (Run.start s).IsFresh := by
  intro id hid answer hanswer
  rw [show (Run.start s).index = .build (Run.start s).document from rfl,
    FieldIndex.lookup_build hid, Option.map_map]
  exact hanswer

/-- **Entries that are told to have changed are resolved again**; the others answer as before. -/
theorem IsFresh.keep (h : r.IsFresh) {d : Document} {changed : List NodeId}
    (hd : Keeps changed r.document d) (warnings : List Warning) :
    IsFresh ⟨d, FieldIndex.refreshAll d r.index changed, warnings⟩ := by
  intro id hid answer hanswer
  dsimp only at hid hanswer ⊢
  rw [FieldIndex.lookup_refreshAll]
  by_cases hchanged : id ∈ changed
  · rw [if_pos hchanged, Option.map_map]
    exact hanswer
  · rw [if_neg hchanged]
    rw [hd.answers id hchanged] at hanswer
    exact h id (hd.order hid) answer hanswer

theorem IsFresh.editFields (h : r.IsFresh) {f : Edit (List Field)} (hf : Edit.IsHonest f) :
    (r.editFields f).IsFresh :=
  h.keep ((revises_editFields hf r.document).keeps (List.Subset.refl _)) r.warnings

/-- **A pass keeps the index up to date.** -/
theorem isFresh_run (h : r.IsFresh) (p : Pass) : (p.run r).IsFresh := by
  cases p with
  | stripComments =>
      have hkeeps : Keeps [] r.document r.document.stripComments.1 :=
        ⟨(stripComments_sublist _).subset, fun _ _ => rfl⟩
      exact h.keep hkeeps _
  | tidyComments =>
      have hkeeps : Keeps [] r.document r.document.tidyComments.1 :=
        ⟨(List.Perm.of_eq (order_tidyComments _)).subset,
          fun id _ => answers_eq_of_fields (fields_tidyCommentsFrom _ _ _ id)⟩
      exact h.keep hkeeps _
  | removeNamed names => exact h.editFields (Fields.isHonest_removing _)
  | removeEmptyFields => exact h.editFields (Fields.isHonest_removing _)
  | removeDuplicateFields => exact h.editFields Fields.isHonest_removeRepeated
  | normalize steps => exact h.editFields (Fields.isHonest_normalize steps)
  | checkKeys => exact h
  | duplicates rules merge =>
      have horder := (List.Perm.of_eq (edits_detect r.document r.index rules).order).subset
      have hdetect : IsFresh { r with document := (r.document.detect r.index rules).document } :=
        h.keep ((revises_detect r.document r.index rules).keeps horder) _
      cases merge with
      | none => exact hdetect
      | some strategy =>
          exact hdetect.keep ((revises_merge _ _ strategy).keeps (merge_sublist _ _ strategy).subset) _
  | sortEntries specs =>
      exact h.keep ((revises_sortEntries _ _ _).keeps (sortEntries_perm _ _ _).subset) _
  | sortFields order =>
      have hkeeps : Keeps [] r.document (r.document.editFields (Fields.sort order)).1 :=
        ⟨List.Subset.refl _, fun id _ => answers_sortFields order r.document id⟩
      exact h.keep hkeeps r.warnings
  | generateKeys template =>
      have hkeeps : Keeps [] r.document (r.document.generateKeysFrom r.index template).1 :=
        ⟨(List.Perm.of_eq (edits_generateKeysFrom r.document r.index template).order).subset,
          fun id _ => answers_eq_of_fields (fields_generateKeysFrom r.document r.index template id)⟩
      exact h.keep hkeeps _

theorem isFresh_foldl (h : r.IsFresh) (ps : List Pass) : (ps.foldl Pass.run r).IsFresh := by
  induction ps generalizing r with
  | nil => exact h
  | cons p ps ih => exact ih (isFresh_run h p)

/-- **The index is never stale.**  Between any two passes of a run, the index has for every present
entry a map that answers like the present fields of the entry, so that it answers like the index of
the present document. -/
theorem index_current (s : Text) (o : Options) (k : Nat) :
    let r := (o.passes.take k).foldl Pass.run (Run.start s)
    ∀ p ∈ r.document.entries,
      (∃ m, r.index.entries.lookup p.1 = some m ∧
        ∀ name, m.lookup name = p.2.resolve.lookup name) ∧
      ∀ name, r.index.get? p.1 name = (FieldIndex.build r.document).get? p.1 name := by
  intro r p hp
  obtain ⟨id, hid, hp⟩ := List.mem_filterMap.1 hp
  obtain ⟨e, he, rfl⟩ := Option.map_eq_some_iff.1 hp
  have hfresh : r.IsFresh := isFresh_foldl (isFresh_start s) _
  obtain ⟨m, hm, hlookup⟩ := hfresh.exists_lookup hid he
  refine ⟨⟨m, hm, hlookup⟩, fun name => ?_⟩
  unfold FieldIndex.get?
  rw [hm, FieldIndex.lookup_build hid, he]
  exact hlookup _

end Run

end Bibliography
