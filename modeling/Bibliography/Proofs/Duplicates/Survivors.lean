import Bibliography.Proofs.Duplicates.Fields
import Bibliography.Proofs.Duplicates.Merging
import Bibliography.Proofs.Duplicates.Records

/-!
# Bibliography.Proofs.Duplicates.Survivors

What merging makes of clusters, and that it leaves everything else alone.  One
entry of each cluster is kept, and under two of the strategies it takes up the
fields of the others (`Cluster.mergedFields`).  It forgets its source if it is
told to have changed.

Clusters do not meet (`Document.HasClusters`), so each of them takes up what its
members had at first, and it does not matter which comes first.

* `Document.isMerge_merge` — what merging does, as `Merged.IsMerge` says it;
* `Merged.IsMerge.eq_of_perm` — the order of the clusters;
* `Document.merge_detect` — both, of the clusters that were found.
-/

namespace Bibliography

/-! ## clusters -/

namespace Cluster

/-- The fields of the entry of a cluster that a strategy keeps. -/
def mergedFields (c : Cluster) (d : Document) (strategy : MergeStrategy) (fs : List Field) :
    List Field :=
  match strategy with
  | .first | .last => fs
  | .combine => fs ++ Entry.fresh fs (c.incoming d)
  | .overwrite => Entry.overwritten (c.incoming d) (fs ++ Entry.fresh fs (c.incoming d))

theorem mergedFields_eq {strategy : MergeStrategy} {overwrite : Bool}
    (h : strategy.absorbs? = some overwrite) (c : Cluster) (d : Document) (fs : List Field) :
    c.mergedFields d strategy fs = (Entry.absorbAll overwrite (c.incoming d) fs).1 := by
  rw [Entry.fst_absorbAll]
  cases strategy <;> cases h <;> rfl

/-- One entry is kept and the others are removed. -/
theorem entries_perm (c : Cluster) (strategy : MergeStrategy) :
    c.entries.Perm (c.kept strategy :: c.removed strategy) := by
  cases strategy with
  | first => exact .refl _
  | combine => exact .refl _
  | overwrite => exact .refl _
  | last =>
      unfold entries kept removed
      dsimp only
      by_cases hnil : c.members = []
      · simp [hnil]
      · rw [if_neg hnil, List.getLastD_eq_getLast?, List.getLast?_eq_some_getLast hnil]
        have hmembers : c.members.Perm (c.members.getLast hnil :: c.members.dropLast) := by
          conv_lhs => rw [← List.dropLast_append_getLast hnil]
          exact List.perm_append_singleton _ _
        exact (hmembers.cons c.root).trans (.swap _ _ _)

theorem kept_mem (c : Cluster) (strategy : MergeStrategy) : c.kept strategy ∈ c.entries :=
  (c.entries_perm strategy).mem_iff.2 List.mem_cons_self

/-- The entry that takes up fields is the root. -/
theorem kept_eq_root {strategy : MergeStrategy} {overwrite : Bool}
    (h : strategy.absorbs? = some overwrite) (c : Cluster) : c.kept strategy = c.root := by
  cases strategy <;> first | rfl | cases h

theorem mem_removed_iff {c : Cluster} (h : c.entries.Nodup) {strategy : MergeStrategy}
    {i : NodeId} :
    i ∈ c.removed strategy ↔ i ∈ c.entries ∧ i ≠ c.kept strategy := by
  have hperm := c.entries_perm strategy
  have hkept := (List.nodup_cons.1 (hperm.nodup_iff.1 h)).1
  rw [hperm.mem_iff, List.mem_cons]
  constructor
  · exact fun hi => ⟨.inr hi, fun heq => hkept (heq ▸ hi)⟩
  · exact fun hi => hi.1.resolve_left hi.2

end Cluster

/-- Clusters of present entries, none of which is in two of them. -/
structure Document.HasClusters (d : Document) (cs : List Cluster) : Prop where
  disjoint : cs.Pairwise fun c c' => c.entries.Disjoint c'.entries
  nodup : ∀ c ∈ cs, c.entries.Nodup
  subset : ∀ c ∈ cs, c.entries ⊆ d.entryIds

namespace Document.HasClusters

variable {d : Document} {cs : List Cluster} {c c' : Cluster} {i : NodeId} {strategy : MergeStrategy}

theorem perm (h : d.HasClusters cs) {cs' : List Cluster} (hperm : cs'.Perm cs) :
    d.HasClusters cs' where
  disjoint := (hperm.pairwise_iff List.disjoint_symm).2 h.disjoint
  nodup c hc := h.nodup c (hperm.mem_iff.1 hc)
  subset c hc := h.subset c (hperm.mem_iff.1 hc)

theorem eq_of_mem (h : d.HasClusters cs) (hc : c ∈ cs) (hc' : c' ∈ cs) (hi : i ∈ c.entries)
    (hi' : i ∈ c'.entries) : c = c' := by
  have : Std.Symm fun c c' : Cluster => c.entries.Disjoint c'.entries :=
    ⟨fun _ _ => List.disjoint_symm⟩
  by_contra hne
  exact h.disjoint.forall hc hc' hne hi hi'

/-- The roots that are told to have changed. -/
theorem mem_absorbEach_iff (h : d.HasClusters cs) {overwrite : Bool} :
    i ∈ (Cluster.absorbEach overwrite cs d).2 ↔
      ∃ c ∈ cs, i = c.root ∧ (c.absorb overwrite d).2 = true := by
  rw [snd_absorbEach h.disjoint]
  simp only [List.mem_map, List.mem_filter]
  constructor
  · rintro ⟨c, ⟨hc, hchanged⟩, rfl⟩
    exact ⟨c, hc, rfl, hchanged⟩
  · rintro ⟨c, hc, rfl, hchanged⟩
    exact ⟨c, ⟨hc, hchanged⟩, rfl⟩

theorem root_mem_absorbEach_iff (h : d.HasClusters cs) (hc : c ∈ cs) {overwrite : Bool} :
    c.root ∈ (Cluster.absorbEach overwrite cs d).2 ↔ (c.absorb overwrite d).2 = true := by
  rw [h.mem_absorbEach_iff]
  constructor
  · rintro ⟨c', hc', hroot, hchanged⟩
    have hown : c.root ∈ c'.entries := hroot ▸ List.mem_cons_self
    exact h.eq_of_mem hc hc' List.mem_cons_self hown ▸ hchanged
  · exact fun hchanged => ⟨c, hc, rfl, hchanged⟩

/-- No root is told twice. -/
theorem nodup_absorbEach (h : d.HasClusters cs) (overwrite : Bool) :
    (Cluster.absorbEach overwrite cs d).2.Nodup := by
  rw [snd_absorbEach h.disjoint, List.Nodup, List.pairwise_map]
  refine (h.disjoint.imp fun {c c'} hdisjoint heq => ?_).sublist List.filter_sublist
  exact hdisjoint List.mem_cons_self (heq ▸ List.mem_cons_self)

end Document.HasClusters

/-! ## documents -/

/-- What merging made of a document and its clusters. -/
structure Merged.IsMerge (m : Merged) (d : Document) (cs : List Cluster)
    (strategy : MergeStrategy) : Prop where
  /-- Of each cluster one entry stays.  It is what it was, but for its fields, and for its source if
  it is told to have changed. -/
  kept : ∀ c ∈ cs, c.kept strategy ∈ m.document.order ∧ ∃ b e,
    d.node? (c.kept strategy) = some (.block b) ∧ b.body = .entry e ∧
    m.document.node? (c.kept strategy) = some (.block
      { b with
        body := .entry { e with fields := c.mergedFields d strategy e.fields }
        source := if c.kept strategy ∈ m.changed then none else b.source })
  /-- Other nodes are what they were. -/
  others : ∀ id, (∀ c ∈ cs, id ≠ c.kept strategy) → m.document.node? id = d.node? id
  removed_nodup : m.removed.Nodup
  /-- The other entries of the clusters are removed. -/
  mem_removed : ∀ id, id ∈ m.removed ↔ ∃ c ∈ cs, id ∈ c.entries ∧ id ≠ c.kept strategy
  order : m.document.order = d.order.filter (· ∉ m.removed)
  changed_nodup : m.changed.Nodup
  /-- Entries are told to have changed if their fields are others, or if values were restored. -/
  mem_changed : ∀ id, id ∈ m.changed ↔ ∃ c ∈ cs, id = c.kept strategy ∧
    (m.document.fields? id ≠ d.fields? id ∨
      strategy = .overwrite ∧ ∃ fs ∈ d.fields? id, Entry.IsRestored (c.incoming d) fs)

namespace Document

variable {d : Document} {cs : List Cluster} {c : Cluster} {i : NodeId} {strategy : MergeStrategy}

/-- The block of an entry after an edit. -/
theorem editEntry_block {b : Block} {e : Entry} (hb : b.body = .entry e) (f : Edit Entry) :
    ((Node.block b).editEntry f).1 = .block
      { b with body := .entry (f e).1, source := if (f e).2 then none else b.source } := by
  obtain ⟨command, delimiter, body, source⟩ := b
  subst hb
  unfold Node.editEntry Block.editEntry Block.edit
  cases h : (f e).2 <;> simp [h]

theorem exists_block_of_mem_entryIds (h : i ∈ d.entryIds) :
    ∃ b e, d.node? i = some (.block b) ∧ b.body = .entry e := by
  rw [entryIds_eq] at h
  obtain ⟨e, he⟩ := Option.isSome_iff_exists.1 (List.mem_filter.1 h).2
  obtain ⟨n, hn, he⟩ := Option.bind_eq_some_iff.1 he
  cases n with
  | text t => cases he
  | block b =>
      refine ⟨b, e, hn, ?_⟩
      change b.body.entry? = some e at he
      cases hb : b.body with
      | entry e' =>
          rw [hb] at he
          exact congrArg Body.entry (Option.some.inj he)
      | _ =>
          rw [hb] at he
          cases he

theorem entry?_of_node? {b : Block} {e : Entry} (hn : d.node? i = some (.block b))
    (hb : b.body = .entry e) : d.entry? i = some e := by
  simp [hn, hb, entry?, Node.entry?, Node.block?, Block.entry?, Body.entry?]

theorem removed_merge (d : Document) (cs : List Cluster) (strategy : MergeStrategy) :
    (d.merge cs strategy).removed = cs.flatMap (·.removed strategy) := by
  unfold merge
  cases strategy.absorbs? <;> rfl

/-- Where no fields are taken up, entries are removed, and that is all. -/
theorem merge_of_none (h : strategy.absorbs? = none) (d : Document) (cs : List Cluster) :
    (d.merge cs strategy).document.nodes = d.nodes ∧ (d.merge cs strategy).changed = [] := by
  unfold merge
  rw [h]
  exact ⟨rfl, rfl⟩

theorem merge_of_some {overwrite : Bool} (h : strategy.absorbs? = some overwrite) (d : Document)
    (cs : List Cluster) :
    (d.merge cs strategy).document.nodes = (Cluster.absorbEach overwrite cs d).1.nodes ∧
      (d.merge cs strategy).changed = (Cluster.absorbEach overwrite cs d).2 := by
  unfold merge
  rw [h]
  exact ⟨rfl, rfl⟩

/-- **The entry that is kept.** -/
theorem node?_kept (h : d.HasClusters cs) (hc : c ∈ cs) {b : Block} {e : Entry}
    (hn : d.node? (c.kept strategy) = some (.block b)) (hb : b.body = .entry e) :
    (d.merge cs strategy).document.node? (c.kept strategy) = some (.block
      { b with
        body := .entry { e with fields := c.mergedFields d strategy e.fields }
        source :=
          if c.kept strategy ∈ (d.merge cs strategy).changed then none else b.source }) := by
  cases hs : strategy.absorbs? with
  | none =>
      obtain ⟨hnodes, hchanged⟩ := merge_of_none hs d cs
      have hfields : c.mergedFields d strategy e.fields = e.fields := by
        cases strategy <;> first | rfl | cases hs
      rw [hfields, hchanged, ← hb, node?, hnodes]
      exact hn
  | some overwrite =>
      obtain ⟨hnodes, hchanged⟩ := merge_of_some hs d cs
      rw [Cluster.kept_eq_root hs] at hn ⊢
      have hroot : c.root ∈ (Cluster.absorbEach overwrite cs d).2 ↔
          (c.absorbing overwrite d e).2 = true := by
        rw [h.root_mem_absorbEach_iff hc, snd_absorb, entry?_of_node? hn hb, Option.any_some]
      rw [Cluster.mergedFields_eq hs, hchanged, node?, hnodes]
      calc
        _ = (d.node? c.root).map fun n => (n.editEntry (c.absorbing overwrite d)).1 :=
          node?_absorbEach h.disjoint hc
        _ = _ := by
          rw [hn, Option.map_some, editEntry_block hb]
          simp only [hroot]
          rfl

/-- **Nodes that are not kept of a cluster** stay what they were. -/
theorem node?_merge_of_ne (hi : ∀ c ∈ cs, i ≠ c.kept strategy) :
    (d.merge cs strategy).document.node? i = d.node? i := by
  cases hs : strategy.absorbs? with
  | none => rw [node?, (merge_of_none hs d cs).1, node?]
  | some overwrite =>
      rw [node?, (merge_of_some hs d cs).1]
      exact node?_absorbEach_of_ne fun c hc => Cluster.kept_eq_root hs c ▸ hi c hc

/-- Whether a root is told to have changed. -/
theorem snd_absorb_iff {overwrite : Bool} {e : Entry} (he : d.entry? c.root = some e) :
    (c.absorb overwrite d).2 = true ↔
      (Entry.absorbAll overwrite (c.incoming d) e.fields).1 ≠ e.fields ∨
        overwrite = true ∧ Entry.IsRestored (c.incoming d) e.fields := by
  rw [snd_absorb, he, Option.any_some]
  exact Entry.snd_absorbAll_iff

/-- **What is told of an entry.** -/
theorem mem_changed_merge_iff (h : d.HasClusters cs) :
    i ∈ (d.merge cs strategy).changed ↔ ∃ c ∈ cs, i = c.kept strategy ∧
      ((d.merge cs strategy).document.fields? i ≠ d.fields? i ∨
        strategy = .overwrite ∧ ∃ fs ∈ d.fields? i, Entry.IsRestored (c.incoming d) fs) := by
  cases hs : strategy.absorbs? with
  | none =>
      obtain ⟨hnodes, hchanged⟩ := merge_of_none hs d cs
      have hfields : (d.merge cs strategy).document.fields? i = d.fields? i := by
        unfold fields? entry? node?
        rw [hnodes]
      refine iff_of_false (hchanged ▸ List.not_mem_nil) ?_
      rintro ⟨c, -, -, hdiffers | ⟨rfl, -⟩⟩
      · exact hdiffers hfields
      · cases hs
  | some overwrite =>
      obtain ⟨hnodes, hchanged⟩ := merge_of_some hs d cs
      have hoverwrite : strategy = .overwrite ↔ overwrite = true := by
        cases strategy <;> cases hs <;> simp
      rw [hchanged, h.mem_absorbEach_iff]
      refine exists_congr fun c => and_congr_right fun hc => ?_
      rw [Cluster.kept_eq_root hs]
      refine and_congr_right fun hi => ?_
      subst hi
      have hmerged : (d.merge cs strategy).document.fields? c.root =
          (d.fields? c.root).map fun fs => (Entry.absorbAll overwrite (c.incoming d) fs).1 := by
        rw [← fields?_absorbEach h.disjoint hc]
        unfold fields? entry? node?
        rw [hnodes]
      obtain ⟨e, he⟩ : ∃ e, d.entry? c.root = some e :=
        Option.isSome_iff_exists.1 (isSome_entry?_of_mem (h.subset c hc List.mem_cons_self))
      have hfields : d.fields? c.root = some e.fields := congrArg (Option.map Entry.fields) he
      rw [snd_absorb_iff he, hmerged, hfields, hoverwrite]
      simp

/-- The others of a cluster are removed. -/
theorem mem_removed_merge_iff (h : d.HasClusters cs) :
    i ∈ (d.merge cs strategy).removed ↔ ∃ c ∈ cs, i ∈ c.entries ∧ i ≠ c.kept strategy := by
  rw [removed_merge, List.mem_flatMap]
  exact exists_congr fun c => and_congr_right fun hc => Cluster.mem_removed_iff (h.nodup c hc)

theorem nodup_removed_merge (h : d.HasClusters cs) (strategy : MergeStrategy) :
    (d.merge cs strategy).removed.Nodup := by
  rw [removed_merge, List.nodup_flatMap]
  refine ⟨fun c hc => ?_, h.disjoint.imp_of_mem fun {c c'} hc hc' hdisjoint i hi hi' => ?_⟩
  · exact (List.nodup_cons.1 ((c.entries_perm strategy).nodup_iff.1 (h.nodup c hc))).2
  · exact hdisjoint ((Cluster.mem_removed_iff (h.nodup c hc)).1 hi).1
      ((Cluster.mem_removed_iff (h.nodup c' hc')).1 hi').1

/-- **Merging** clusters of which no entry is in two. -/
theorem isMerge_merge (h : d.HasClusters cs) (strategy : MergeStrategy) :
    (d.merge cs strategy).IsMerge d cs strategy where
  kept c hc := by
    have hmem := h.subset c hc (c.kept_mem strategy)
    have hkept : c.kept strategy ∉ (d.merge cs strategy).removed := by
      rw [mem_removed_merge_iff h]
      rintro ⟨c', hc', hi, hne⟩
      exact hne (h.eq_of_mem hc hc' (c.kept_mem strategy) hi ▸ rfl)
    obtain ⟨b, e, hn, hb⟩ := exists_block_of_mem_entryIds hmem
    refine ⟨?_, b, e, hn, hb, node?_kept h hc hn hb⟩
    rw [order_merge, ← removed_merge]
    exact List.mem_filter.2 ⟨mem_order_of_entryIds hmem, by simpa using hkept⟩
  others id := node?_merge_of_ne
  removed_nodup := nodup_removed_merge h strategy
  mem_removed id := mem_removed_merge_iff h
  order := by rw [order_merge, removed_merge]
  changed_nodup := by
    cases hs : strategy.absorbs? with
    | none => rw [(merge_of_none hs d cs).2]; exact List.nodup_nil
    | some overwrite => rw [(merge_of_some hs d cs).2]; exact h.nodup_absorbEach overwrite
  mem_changed id := mem_changed_merge_iff h

end Document

namespace Merged.IsMerge

variable {m m' : Merged} {d : Document} {cs cs' : List Cluster} {strategy : MergeStrategy}

/-- **The order of the clusters does not matter.** -/
theorem eq_of_perm (hm : m.IsMerge d cs strategy)
    (hm' : m'.IsMerge d cs' strategy) (hperm : cs'.Perm cs) :
    m'.document = m.document ∧ m'.removed.Perm m.removed ∧ m'.changed.Perm m.changed := by
  have hfields : ∀ c ∈ cs, m'.document.fields? (c.kept strategy) =
      m.document.fields? (c.kept strategy) := by
    intro c hc
    obtain ⟨-, b, e, hn, hb, hkept⟩ := hm.kept c hc
    obtain ⟨-, b', e', hn', hb', hkept'⟩ := hm'.kept c (hperm.mem_iff.2 hc)
    cases hn.symm.trans hn'
    cases hb.symm.trans hb'
    unfold Document.fields?
    rw [Document.entry?_of_node? hkept rfl, Document.entry?_of_node? hkept' rfl]
  have hchanged : ∀ id, id ∈ m'.changed ↔ id ∈ m.changed := by
    intro id
    rw [hm.mem_changed, hm'.mem_changed]
    refine exists_congr fun c => ?_
    rw [hperm.mem_iff]
    refine and_congr_right fun hc => and_congr_right fun hid => ?_
    rw [hid, hfields c hc]
  have hremoved : ∀ id, id ∈ m'.removed ↔ id ∈ m.removed := by
    intro id
    simp only [hm.mem_removed, hm'.mem_removed, hperm.mem_iff]
  have hnodes : ∀ id, m'.document.node? id = m.document.node? id := by
    intro id
    by_cases hid : ∃ c ∈ cs, id = c.kept strategy
    · obtain ⟨c, hc, rfl⟩ := hid
      obtain ⟨-, b, e, hn, hb, hkept⟩ := hm.kept c hc
      obtain ⟨-, b', e', hn', hb', hkept'⟩ := hm'.kept c (hperm.mem_iff.2 hc)
      cases hn.symm.trans hn'
      cases hb.symm.trans hb'
      simp only [hkept, hkept', hchanged]
    · push Not at hid
      rw [hm.others id hid, hm'.others id fun c hc => hid c (hperm.mem_iff.1 hc)]
  have horder : m'.document.order = m.document.order := by
    simp only [hm.order, hm'.order, hremoved]
  refine ⟨?_, ?_, ?_⟩
  · exact congrArg₂ Document.mk (List.ext_getElem? hnodes) horder
  · exact (List.perm_ext_iff_of_nodup hm'.removed_nodup hm.removed_nodup).2 hremoved
  · exact (List.perm_ext_iff_of_nodup hm'.changed_nodup hm.changed_nodup).2 hchanged

end Merged.IsMerge

namespace Document

variable {d : Document} {cs : List Cluster}

/-- Notes at entries leave the entries where they are. -/
theorem entryIds_detect (d : Document) (index : FieldIndex) (rules : List DuplicateRule) :
    (d.detect index rules).document.entryIds = d.entryIds := by
  rw [entryIds_eq, entryIds_eq, (edits_detect d index rules).order]
  refine List.filter_congr fun id _ => ?_
  have hfields : (d.detect index rules).document.fields? id = d.fields? id :=
    (revises_detect d index rules).fields_eq List.not_mem_nil
  simpa [fields?] using congrArg Option.isSome hfields

theorem hasClusters_detect (h : d.order.Nodup) (index : FieldIndex) (rules : List DuplicateRule) :
    (d.detect index rules).document.HasClusters (d.detect index rules).clusters := by
  have hids := nodup_entryIds h
  have hrooted := Duplicates.isRooted_find (Duplicates.signatures d index rules) hids
  refine ⟨hrooted.disjoint, fun c hc => ?_, fun c hc => ?_⟩
  · exact hids.sublist (hrooted.entries_sublist hc)
  · rw [entryIds_detect]
    exact (hrooted.entries_sublist hc).subset

/-- **Merging what was found.**  Of each cluster one entry is kept, with the fields that the
strategy says, and nothing else is touched.  The entries whose fields are others are told, and
besides them those of which values were overwritten and restored. -/
theorem merge_detect (d : Document) (index : FieldIndex) (rules : List DuplicateRule)
    (strategy : MergeStrategy) (h : d.order.Nodup) :
    let r := d.detect index rules
    let m := r.document.merge r.clusters strategy
    m.IsMerge r.document r.clusters strategy ∧
      ∀ cs, cs.Perm r.clusters →
        (r.document.merge cs strategy).document = m.document ∧
          (r.document.merge cs strategy).removed.Perm m.removed ∧
          (r.document.merge cs strategy).changed.Perm m.changed := by
  intro r m
  have hclusters : r.document.HasClusters r.clusters := hasClusters_detect h index rules
  have hmerge := isMerge_merge hclusters strategy
  exact ⟨hmerge, fun cs hperm =>
    hmerge.eq_of_perm (isMerge_merge (hclusters.perm hperm) strategy) hperm⟩

/-- Two entries are merged into the first, which has no note and a title of its own. -/
theorem merge_detect_combine :
    let d := (parse
      ("@a{k, title = t} @b{K, note = x, TITLE = u} " ++
        "@c{k, Note = y, year = 1}").toList).1
    let r := d.detect (.build d) [.key]
    let m := r.document.merge r.clusters .combine
    d.order.Nodup ∧ r.clusters = [⟨0, [2, 4]⟩] ∧ m.document.order = [0, 1, 3] ∧
      (m.document.fields? 0).map (·.map Field.written) =
        some ["title = t".toList, "note = x".toList, "year = 1".toList] ∧
      m.IsMerge r.document r.clusters .combine := by
  intro d r m
  obtain ⟨horder, hclusters, hkept, hfields⟩ :
      d.order.Nodup ∧ r.clusters = [⟨0, [2, 4]⟩] ∧ m.document.order = [0, 1, 3] ∧
        (m.document.fields? 0).map (·.map Field.written) =
          some ["title = t".toList, "note = x".toList, "year = 1".toList] := by
    decide +kernel
  exact ⟨horder, hclusters, hkept, hfields,
    (merge_detect d (.build d) [.key] .combine horder).1⟩

/-- **A change that is none.**  The year is overwritten and restored.  The fields are what they
were, but the entry is told to have changed, and its source is forgotten. -/
theorem merge_detect_restored :
    let d := (parse "@misc{k, year = 1}\n@misc{k, year = 2}\n@misc{k, year = 1}".toList).1
    let r := d.detect (.build d) [.key]
    let m := r.document.merge r.clusters .overwrite
    r.clusters = [⟨0, [2, 4]⟩] ∧ m.document.fields? 0 = r.document.fields? 0 ∧ m.changed = [0] ∧
      (r.document.block? 0).bind Block.source = some "@misc{k, year = 1}".toList ∧
      (m.document.block? 0).bind Block.source = none := by
  decide +kernel

end Document

end Bibliography
