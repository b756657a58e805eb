import Bibliography.Proofs.Duplicates.Absorption
import Bibliography.Proofs.Tidy.Sessions
import Bibliography.Proofs.Unicode.LowerCase

/-!
# Bibliography.Proofs.Duplicates.Merging

What is left to merge after duplicates were merged.  Of each cluster one entry
is kept.  Two kept entries are linked again in two cases only: they were linked
before, by an entry that bridges two clusters, or an entry that took up fields
has a signature now that no entry of its cluster had.

* `Cluster.eq_kept` — one entry of a cluster is kept;
* `Run.gainsNothing_of_plain` — taking up fields gives no such signature under
  the rules for keys, DOIs and abstracts, if names are plain and none is
  repeated;
* `Run.detect_merged` — what is found after merging.
-/

namespace Bibliography

open Document

/-! ## the entry that is kept -/

namespace Cluster

/-- The entry of a cluster that a strategy keeps. -/
def kept (c : Cluster) : MergeStrategy → NodeId
  | .last => c.members.getLastD c.root
  | _ => c.root

/-- One entry of a cluster is kept. -/
theorem eq_kept {c : Cluster} {strategy : MergeStrategy} {i : NodeId} (hi : i ∈ c.entries)
    (h : i ∉ c.removed strategy) : i = c.kept strategy := by
  have hroot (h : i ∉ c.members) : i = c.root := (List.mem_cons.1 hi).resolve_right h
  cases strategy with
  | first => exact hroot h
  | combine => exact hroot h
  | overwrite => exact hroot h
  | last =>
      unfold removed at h
      unfold kept
      dsimp only at h ⊢
      by_cases hnil : c.members = []
      · rw [hnil]
        exact hroot (by simp [hnil])
      · rw [if_neg hnil] at h
        have hmem : i ∈ c.members := by
          rcases List.mem_cons.1 hi with rfl | hi
          · exact absurd List.mem_cons_self h
          · exact hi
        rw [← List.dropLast_append_getLast hnil, List.mem_append, List.mem_singleton] at hmem
        rw [List.getLastD_eq_getLast?, List.getLast?_eq_some_getLast hnil]
        exact hmem.resolve_left fun hi => h (List.mem_cons_of_mem _ hi)

end Cluster

/-! ## signatures -/

namespace Duplicates

/-- Signatures are made of the key of an entry and its resolved values. -/
theorem signatures_congr {d d' : Document} {index index' : FieldIndex} {id : NodeId}
    (hkey : d'.key? id = d.key? id)
    (hindex : index'.entries.lookup id = index.entries.lookup id) (rules : List DuplicateRule) :
    signatures d' index' rules id = signatures d index rules id := by
  have hvalue (name : Text) : index'.value? id name = index.value? id name := by
    unfold FieldIndex.value? FieldIndex.get?
    rw [hindex]
  have hcompared (rule : DuplicateRule) : compared? d' index' id rule = compared? d index id rule := by
    unfold compared?
    cases rule <;> simp only [hkey, hvalue]
  unfold signatures
  refine List.filterMap_congr fun rule _ => ?_
  rw [signature?, hcompared, signature?]

theorem mem_signatures {d : Document} {index : FieldIndex} {rules : List DuplicateRule}
    {id : NodeId} {sig : Signature} :
    sig ∈ signatures d index rules id ↔
      sig.1 ∈ rules ∧ sig.2 ≠ [] ∧ compared? d index id sig.1 = some sig.2 := by
  obtain ⟨rule, text⟩ := sig
  simp only [signatures, signature?, List.mem_filterMap, List.mem_filter, DuplicateRule.mem_all,
    decide_eq_true_eq, true_and, Option.map_eq_some_iff, Option.filter_eq_some_iff, Prod.mk.injEq]
  constructor
  · rintro ⟨_, hrule, _, ⟨hcompared, hne⟩, rfl, rfl⟩
    exact ⟨hrule, hne, hcompared⟩
  · rintro ⟨hrule, hne, hcompared⟩
    exact ⟨rule, hrule, text, ⟨hcompared, hne⟩, rfl, rfl⟩

/-- Nothing is found where no two entries are linked. -/
theorem IsRooted.clusters_eq_nil {S : NodeId → List Signature} {ids : List NodeId}
    {ds : List Duplicate} {registry : Registry} (h : IsRooted S ids ds registry)
    (hids : ids.Nodup) (hlink : ∀ i j, [i, j].Sublist ids → ¬ Linked S ids i j) :
    clusters ds = [] := by
  refine List.eq_nil_iff_forall_not_mem.2 fun c hc => ?_
  have hlength := two_le_length_entries hc
  obtain ⟨root, members⟩ := c
  cases members with
  | nil => simp [Cluster.entries] at hlength
  | cons j members =>
      have hsublist : [root, j].Sublist ids := by
        refine List.Sublist.trans ?_ (h.entries_sublist hc)
        exact ((List.nil_sublist members).cons_cons j).cons_cons root
      have hij : root ≠ j := by simpa using hids.sublist hsublist
      have hself (k : NodeId) (hk : Relation.ReflTransGen (Linked S ids) root k) : root = k := by
        induction hk with
        | refl => rfl
        | @tail k l _ hkl ih =>
            by_contra hne
            subst ih
            rcases pair_sublist_or hkl.1 hkl.2.1 hne with hij | hji
            · exact hlink _ _ hij hkl
            · exact hlink _ _ hji hkl.symm
      exact hij (hself j (h.connected_of_together hij
        ⟨_, hc, List.mem_cons_self, List.mem_cons_of_mem _ List.mem_cons_self⟩))

end Duplicates

/-! ## merging -/

/-- Without keys that may change, entries stay entries with their keys. -/
theorem Body.Persists.map_key {c : Prop} {b b' : Body} (h : b.Persists c False b') :
    b'.entry?.map Entry.key = b.entry?.map Entry.key := by
  cases h with
  | entry he => exact congrArg some (he not_false)
  | _ => rfl

theorem Document.Persists.map_key {c : Prop} {d d' : Document} (h : Persists c False d d')
    {id : NodeId} (hid : id < d.nodes.length) :
    (d'.entry? id).map Entry.key = (d.entry? id).map Entry.key := by
  have hn : d.node? id = some d.nodes[id] := List.getElem?_eq_getElem hid
  obtain ⟨n', hn', hpersists⟩ := h id _ hn
  unfold entry?
  rw [hn, hn', Option.bind_some, Option.bind_some]
  generalize d.nodes[id] = n at hpersists
  cases hpersists with
  | text => rfl
  | block _ _ hbody => exact hbody.map_key

namespace Run

variable {r : Run} {rules : List DuplicateRule} {strategy : MergeStrategy}

/-- An entry that is kept has after merging no signature that neither it nor an entry of its cluster
had before. -/
def GainsNothing (r : Run) (rules : List DuplicateRule) (strategy : MergeStrategy) : Prop :=
  ∀ id ∈ (Pass.run r (.duplicates rules (some strategy))).document.entryIds,
    ∀ sig ∈ Duplicates.signatures (Pass.run r (.duplicates rules (some strategy))).document
        (Pass.run r (.duplicates rules (some strategy))).index rules id,
      ∃ j ∈ r.document.entryIds,
        (j = id ∨ Duplicates.Together (r.document.detect r.index rules).clusters j id) ∧
          sig ∈ Duplicates.signatures r.document r.index rules j

instance (r : Run) (rules : List DuplicateRule) (strategy : MergeStrategy) :
    Decidable (r.GainsNothing rules strategy) :=
  inferInstanceAs (Decidable (∀ id ∈ Document.entryIds _, ∀ sig ∈ Duplicates.signatures _ _ _ id,
    ∃ j ∈ Document.entryIds _, (j = id ∨ Duplicates.Together _ j id) ∧
      sig ∈ Duplicates.signatures _ _ _ j))

theorem persists_run_duplicates (r : Run) (rules : List DuplicateRule) (strategy : MergeStrategy) :
    Persists False False r.document (Pass.run r (.duplicates rules (some strategy))).document :=
  (persists_detect _ _ r.document r.index rules).trans_self (persists_merge _ _ _ _ strategy)

theorem map_key_run_duplicates (h : r.document.IsArena) {id : NodeId} (hid : id ∈ r.document.order)
    (rules : List DuplicateRule) (strategy : MergeStrategy) :
    ((Pass.run r (.duplicates rules (some strategy))).document.entry? id).map Entry.key =
      (r.document.entry? id).map Entry.key :=
  (persists_run_duplicates r rules strategy).map_key (h.lt_length id hid)

/-- The entries that are kept. -/
theorem entryIds_run_duplicates (h : r.document.IsArena) (rules : List DuplicateRule)
    (strategy : MergeStrategy) :
    (Pass.run r (.duplicates rules (some strategy))).document.entryIds =
      r.document.entryIds.filter (· ∉ (r.document.detect r.index rules).clusters.flatMap
        (·.removed strategy)) := by
  have horder : (Pass.run r (.duplicates rules (some strategy))).document.order =
      r.document.order.filter (· ∉ (r.document.detect r.index rules).clusters.flatMap
        (·.removed strategy)) := by
    rw [← (edits_detect r.document r.index rules).order]
    exact order_merge _ _ strategy
  rw [entryIds_eq, entryIds_eq, horder, List.filter_filter, List.filter_filter]
  refine List.filter_congr fun id hid => ?_
  have hsome := congrArg Option.isSome (map_key_run_duplicates h hid rules strategy)
  rw [Option.isSome_map, Option.isSome_map] at hsome
  rw [hsome, Bool.and_comm]

/-- Two entries of one cluster are not both kept. -/
theorem eq_of_together (h : r.document.IsArena) {i j : NodeId}
    (hi : i ∈ (Pass.run r (.duplicates rules (some strategy))).document.entryIds)
    (hj : j ∈ (Pass.run r (.duplicates rules (some strategy))).document.entryIds)
    (htogether : Duplicates.Together (r.document.detect r.index rules).clusters i j) : i = j := by
  rw [entryIds_run_duplicates h, List.mem_filter] at hi hj
  obtain ⟨c, hc, hic, hjc⟩ := htogether
  have hkept {i : NodeId} (hic : i ∈ c.entries)
      (hi : i ∉ (r.document.detect r.index rules).clusters.flatMap (·.removed strategy)) :
      i = c.kept strategy :=
    Cluster.eq_kept hic fun hremoved => hi (List.mem_flatMap.2 ⟨c, hc, hremoved⟩)
  rw [hkept hic (by simpa using hi.2), hkept hjc (by simpa using hj.2)]

theorem key?_run_duplicates (h : r.document.IsArena) {id : NodeId} (hid : id ∈ r.document.entryIds) :
    (Pass.run r (.duplicates rules (some strategy))).document.key? id = r.document.key? id := by
  have hjoin (d : Document) : d.key? id = ((d.entry? id).map Entry.key).join := by
    unfold key?
    cases d.entry? id <;> rfl
  rw [hjoin, hjoin, map_key_run_duplicates h (mem_order_of_entryIds hid)]

theorem mem_entryIds_of_run_duplicates (h : r.document.IsArena) {id : NodeId}
    (hid : id ∈ (Pass.run r (.duplicates rules (some strategy))).document.entryIds) :
    id ∈ r.document.entryIds := by
  rw [entryIds_run_duplicates h] at hid
  exact (List.mem_filter.1 hid).1

/-- An entry that took up no field has the signatures that it had. -/
theorem signatures_run_duplicates (h : r.document.IsArena) {id : NodeId}
    (hid : id ∈ r.document.entryIds)
    (hunchanged : id ∉ ((r.document.detect r.index rules).document.merge
      (r.document.detect r.index rules).clusters strategy).changed) :
    Duplicates.signatures (Pass.run r (.duplicates rules (some strategy))).document
        (Pass.run r (.duplicates rules (some strategy))).index rules id =
      Duplicates.signatures r.document r.index rules id := by
  refine Duplicates.signatures_congr (key?_run_duplicates h hid) ?_ rules
  exact (FieldIndex.lookup_refreshAll _ _ _ _).trans (if_neg hunchanged)

/-- Where no fields are taken up, signatures stay. -/
theorem signatures_of_absorbs? (h : r.document.IsArena) (hstrategy : strategy.absorbs? = none)
    {id : NodeId} (hid : id ∈ r.document.entryIds) :
    Duplicates.signatures (Pass.run r (.duplicates rules (some strategy))).document
        (Pass.run r (.duplicates rules (some strategy))).index rules id =
      Duplicates.signatures r.document r.index rules id := by
  refine signatures_run_duplicates h hid ?_
  unfold Document.merge
  rw [hstrategy]
  exact List.not_mem_nil

theorem gainsNothing_of_absorbs? (h : r.document.IsArena) (hstrategy : strategy.absorbs? = none) :
    r.GainsNothing rules strategy := by
  intro id hid sig hsig
  have hmem := mem_entryIds_of_run_duplicates h hid
  rw [signatures_of_absorbs? h hstrategy hmem] at hsig
  exact ⟨id, hmem, .inl rfl, hsig⟩

/-! ## plain fields -/

/-- Names are equal in lower case where they are equal up to case folding, and no entry has two
fields of one name. -/
structure HasPlainFields (d : Document) : Prop where
  agree : ∀ i ∈ d.order, ∀ fs ∈ d.fields? i, ∀ f ∈ fs, ∀ j ∈ d.order, ∀ gs ∈ d.fields? j,
    ∀ g ∈ gs, g.isNamed f.name → g.lowerName = f.lowerName
  distinct : ∀ i ∈ d.order, ∀ fs ∈ d.fields? i, (fs.map Field.lowerName).Nodup

/-- Only in the field of the month are there macros. -/
theorem resolve_value {f : Field} (h : f.lowerName ≠ "month".toList) :
    f.resolve.value = f.value.plain := by
  have hmonth : f.name.eqIgnoreAsciiCase "month".toList = false := by
    rw [Bool.eq_false_iff]
    intro heq
    have hascii : ∀ c ∈ "month".toList, c.toNat < 128 := by simp
    exact h ((Text.toLower_of_eqIgnoreAsciiCase hascii heq).trans (by decide +kernel))
  unfold Field.resolve Value.plain
  simp only [hmonth, Bool.false_eq_true, if_false]
  congr 1
  funext seg
  cases seg <;> rfl

/-- What an index that is up to date says of a name other than that of the month. -/
theorem IsFresh.value?_eq (h : r.IsFresh) {id : NodeId} (hid : id ∈ r.document.order)
    {fs : List Field} (hfs : fs ∈ r.document.fields? id) {name : Text}
    (hname : name.toLower ≠ "month".toList) :
    r.index.value? id name = (Entry.value? name.toLower fs).map Value.plain := by
  obtain ⟨e, he, rfl⟩ := Option.map_eq_some_iff.1 hfs
  have hanswer := h id hid e.resolve.answer (by unfold Document.answers; rw [he]; rfl)
  obtain ⟨m, hm, hanswer⟩ := Option.map_eq_some_iff.1 hanswer
  have hlookup : m.lookup name.toLower = e.resolve.lookup name.toLower :=
    congrFun hanswer name.toLower
  unfold FieldIndex.value? FieldIndex.get? Entry.value?
  rw [hm, Option.bind_some, hlookup, Entry.resolve, FieldMap.lookup_ofFields, Option.map_map,
    Option.map_map]
  refine Option.map_congr fun f hf => ?_
  have hlower : f.lowerName = name.toLower := by simpa using List.find?_some hf
  exact resolve_value (hlower ▸ hname)

/-- A value of an entry after merging is one that it or an entry of its cluster had. -/
theorem value?_run_duplicates (h : r.document.IsArena) (hplain : HasPlainFields r.document)
    {id : NodeId} (hid : id ∈ r.document.entryIds) {fs : List Field}
    (hfs : fs ∈ (Pass.run r (.duplicates rules (some strategy))).document.fields? id)
    {name : Text} {v : Value} (hv : Entry.value? name fs = some v) :
    ∃ j ∈ r.document.entryIds,
      (j = id ∨ Duplicates.Together (r.document.detect r.index rules).clusters j id) ∧
        ∃ gs ∈ r.document.fields? j, Entry.value? name gs = some v := by
  have hrooted := Duplicates.isRooted_find (Duplicates.signatures r.document r.index rules)
    (nodup_entryIds h.nodup)
  have hdetect (j : NodeId) :
      (r.document.detect r.index rules).document.fields? j = r.document.fields? j :=
    (revises_detect r.document r.index rules).fields_eq List.not_mem_nil
  rcases fields?_merge (d := (r.document.detect r.index rules).document) hrooted.disjoint strategy id
    with hsame | ⟨overwrite, c, hc, rfl, hfields⟩
  · exact ⟨id, hid, .inl rfl, fs, (hsame.trans (hdetect id)).symm.trans hfs, hv⟩
  · have horder {j : NodeId} (hj : j ∈ c.entries) : j ∈ r.document.order :=
      mem_order_of_entryIds ((hrooted.entries_sublist hc).subset hj)
    obtain ⟨fs', hfs', rfl⟩ := Option.map_eq_some_iff.1 (hfields.symm.trans hfs)
    rw [hdetect] at hfs'
    have hincoming {f : Field} (hf : f ∈ c.incoming (r.document.detect r.index rules).document) :
        ∃ j ∈ c.members, ∃ gs ∈ r.document.fields? j, f ∈ gs := by
      obtain ⟨j, hj, gs, hgs, hf⟩ := mem_incoming.1 hf
      exact ⟨j, hj, gs, hdetect j ▸ hgs, hf⟩
    have hagree : ∀ g ∈ fs' ++ c.incoming (r.document.detect r.index rules).document,
        ∀ f ∈ c.incoming (r.document.detect r.index rules).document,
          g.isNamed f.name → g.lowerName = f.lowerName := by
      intro g hg f hf
      obtain ⟨j, hj, gs, hgs, hf⟩ := hincoming hf
      have hj := horder (List.mem_cons_of_mem _ hj)
      rcases List.mem_append.1 hg with hg | hg
      · exact hplain.agree j hj gs hgs f hf c.root (horder List.mem_cons_self) fs' hfs' g hg
      · obtain ⟨k, hk, ks, hks, hg⟩ := hincoming hg
        have hk := horder (List.mem_cons_of_mem _ hk)
        exact hplain.agree j hj gs hgs f hf k hk ks hks g hg
    rcases Entry.value?_absorbAll hagree hv with hv | ⟨f, hf, rfl, rfl⟩
    · exact ⟨c.root, hid, .inl rfl, fs', hfs', hv⟩
    · obtain ⟨j, hj, gs, hgs, hf⟩ := hincoming hf
      have hjc : j ∈ c.entries := List.mem_cons_of_mem _ hj
      exact ⟨j, (hrooted.entries_sublist hc).subset hjc, .inr ⟨c, hc, hjc, List.mem_cons_self⟩, gs,
        hgs, Entry.value?_of_mem (hplain.distinct j (horder hjc) gs hgs) hf⟩

/-- The same of the values in the index. -/
theorem indexed_run_duplicates (h : r.document.IsArena) (hfresh : r.IsFresh)
    (hplain : HasPlainFields r.document) {id : NodeId}
    (hid : id ∈ (Pass.run r (.duplicates rules (some strategy))).document.entryIds) {name t : Text}
    (hname : name.toLower ≠ "month".toList)
    (ht : (Pass.run r (.duplicates rules (some strategy))).index.value? id name = some t) :
    ∃ j ∈ r.document.entryIds,
      (j = id ∨ Duplicates.Together (r.document.detect r.index rules).clusters j id) ∧
        r.index.value? j name = some t := by
  have hmem := mem_entryIds_of_run_duplicates h hid
  rw [entryIds_eq, List.mem_filter] at hid
  obtain ⟨e, he⟩ := Option.isSome_iff_exists.1 hid.2
  have hfs : (Pass.run r (.duplicates rules (some strategy))).document.fields? id = some e.fields := by
    unfold fields?
    rw [he]
    rfl
  rw [(isFresh_run hfresh _).value?_eq hid.1 hfs hname] at ht
  obtain ⟨v, hv, rfl⟩ := Option.map_eq_some_iff.1 ht
  obtain ⟨j, hj, htogether, gs, hgs, hvalue⟩ := value?_run_duplicates h hplain hmem hfs hv
  refine ⟨j, hj, htogether, ?_⟩
  rw [hfresh.value?_eq (mem_order_of_entryIds hj) hgs hname, hvalue]
  rfl

/-- **Nothing is gained** under rules that compare one value each. -/
theorem gainsNothing_of_plain (h : r.document.IsArena) (hfresh : r.IsFresh)
    (hplain : HasPlainFields r.document) (hrules : .citation ∉ rules) :
    r.GainsNothing rules strategy := by
  intro id hid sig hsig
  obtain ⟨rule, t⟩ := sig
  obtain ⟨hrule, hne, hcompared⟩ := Duplicates.mem_signatures.1 hsig
  simp only [Duplicates.mem_signatures]
  cases rule with
  | key =>
      have hmem := mem_entryIds_of_run_duplicates h hid
      refine ⟨id, hmem, .inl rfl, hrule, hne, ?_⟩
      rw [← hcompared, Duplicates.compared?, Duplicates.compared?, key?_run_duplicates h hmem]
  | doi =>
      obtain ⟨s, hs, rfl⟩ := Option.map_eq_some_iff.1 hcompared
      obtain ⟨j, hj, htogether, hvalue⟩ :=
        indexed_run_duplicates h hfresh hplain hid (by decide +kernel) hs
      exact ⟨j, hj, htogether, hrule, hne, Option.map_eq_some_iff.2 ⟨s, hvalue, rfl⟩⟩
  | abstractText =>
      obtain ⟨s, hs, rfl⟩ := Option.map_eq_some_iff.1 hcompared
      obtain ⟨j, hj, htogether, hvalue⟩ :=
        indexed_run_duplicates h hfresh hplain hid (by decide +kernel) hs
      exact ⟨j, hj, htogether, hrule, hne, Option.map_eq_some_iff.2 ⟨s, hvalue, rfl⟩⟩
  | citation => exact absurd hrule hrules

/-! ## what is left -/

/-- A first entry of a cluster is linked to no earlier one. -/
theorem not_linked_first (h : r.document.IsArena) {i j : NodeId}
    (hij : [i, j].Sublist (Pass.run r (.duplicates rules (some .first))).document.entryIds) :
    ¬ r.document.Linked r.index rules i j := by
  intro hlink
  have hids := nodup_entryIds h.nodup
  have hrooted := Duplicates.isRooted_find (Duplicates.signatures r.document r.index rules) hids
  have hj : j ∈ (Pass.run r (.duplicates rules (some .first))).document.entryIds :=
    hij.subset (List.mem_cons_of_mem _ List.mem_cons_self)
  rw [entryIds_run_duplicates h] at hij hj
  obtain ⟨i', hi'j, hlink', hroot⟩ :=
    hrooted.exists_together (hij.trans List.filter_sublist) hlink
  have hne : i' ≠ j := by simpa using hids.sublist hi'j
  obtain ⟨c, hc, hi'c, hjc⟩ := (hrooted.together_iff hne).2 ⟨hlink'.1, hlink'.2.1, hroot⟩
  have hjroot : j = c.kept .first := Cluster.eq_kept hjc fun hremoved => by
    have hkept := (List.mem_filter.1 hj).2
    simp only [decide_eq_true_eq, List.mem_flatMap, not_exists, not_and] at hkept
    exact hkept c hc hremoved
  have hi'root : i' ≠ c.root := fun heq => hne (heq.trans hjroot.symm)
  have hi'members : i' ∈ c.members := (List.mem_cons.1 hi'c).resolve_left hi'root
  have hafter : [j, i'].Sublist r.document.entryIds := by
    rw [hjroot]
    exact ((List.singleton_sublist.2 hi'members).cons_cons c.root).trans
      (hrooted.entries_sublist hc)
  exact Duplicates.pair_sublist_asymm hids hi'j hafter

/-- Without bridges, kept entries are linked only if one of them has gained a signature. -/
theorem not_linked_of_gainsNothing (h : r.document.IsArena)
    (hbridge : ¬ r.document.Bridged r.index rules) (hgains : r.GainsNothing rules strategy)
    {i j : NodeId} (hne : i ≠ j) :
    let merged := Pass.run r (.duplicates rules (some strategy))
    ¬ merged.document.Linked merged.index rules i j := by
  rintro merged ⟨hi, hj, sig, hsi, hsj⟩
  have hrooted := Duplicates.isRooted_find (Duplicates.signatures r.document r.index rules)
    (nodup_entryIds h.nodup)
  obtain ⟨i', hi', hii', hsi'⟩ := hgains i hi sig hsi
  obtain ⟨j', hj', hjj', hsj'⟩ := hgains j hj sig hsj
  have hroot {k k' : NodeId}
      (hk : k' = k ∨ Duplicates.Together (r.document.detect r.index rules).clusters k' k) :
      Duplicates.rootOf (Duplicates.ofDocument r.document r.index rules) k' =
        Duplicates.rootOf (Duplicates.ofDocument r.document r.index rules) k := by
    by_cases heq : k' = k
    · rw [heq]
    · exact ((hrooted.together_iff heq).1 (hk.resolve_left heq)).2.2
  have hroots := hrooted.rootOf_eq_of_linked hbridge ⟨hi', hj', sig, hsi', hsj'⟩
  refine hne (eq_of_together h hi hj ((hrooted.together_iff hne).2 ⟨?_, ?_, ?_⟩))
  · exact mem_entryIds_of_run_duplicates h hi
  · exact mem_entryIds_of_run_duplicates h hj
  · exact (hroot hii').symm.trans (hroots.trans (hroot hjj'))

/-- **What is found after merging.**  If the first entry of each cluster is kept as it is, nothing.
Neither is anything found if no entry bridges two clusters and no kept entry gains a signature that
is new to its cluster, which is never the case if the last entry is kept as it is. -/
theorem detect_merged (r : Run) (rules : List DuplicateRule) (strategy : MergeStrategy)
    (h : r.document.IsArena)
    (hmerge : strategy = .first ∨ ¬ r.document.Bridged r.index rules ∧
      (strategy = .last ∨ r.GainsNothing rules strategy)) :
    let merged := Pass.run r (.duplicates rules (some strategy))
    (merged.document.detect merged.index rules).clusters = [] := by
  intro merged
  have hsublist : merged.document.entryIds.Sublist r.document.entryIds :=
    entryIds_run_duplicates h rules strategy ▸ List.filter_sublist
  have hids : merged.document.entryIds.Nodup := (nodup_entryIds h.nodup).sublist hsublist
  refine (Duplicates.isRooted_find _ hids).clusters_eq_nil hids fun i j hij hlink => ?_
  have hne : i ≠ j := by simpa using hids.sublist hij
  rcases hmerge with rfl | ⟨hbridge, hgains⟩
  · refine not_linked_first h hij ?_
    obtain ⟨hi, hj, sig, hsi, hsj⟩ := hlink
    have hi' := mem_entryIds_of_run_duplicates h hi
    have hj' := mem_entryIds_of_run_duplicates h hj
    rw [signatures_of_absorbs? h rfl hi'] at hsi
    rw [signatures_of_absorbs? h rfl hj'] at hsj
    exact ⟨hi', hj', sig, hsi, hsj⟩
  · have hgains : r.GainsNothing rules strategy := by
      rcases hgains with rfl | hgains
      · exact gainsNothing_of_absorbs? h rfl
      · exact hgains
    exact not_linked_of_gainsNothing h hbridge hgains hne hlink

/-- The first of three entries takes up the abstract of the second. -/
theorem detect_merged_combine :
    let r := Run.start
      "@a\x7ba, doi = 1\x7d @b\x7bb, doi = 1, abstract = x\x7d @c\x7bc, abstract = y\x7d".toList
    let rules : List DuplicateRule := [.doi, .abstractText]
    let merged := Pass.run r (.duplicates rules (some .combine))
    r.document.IsArena ∧ ¬ r.document.Bridged r.index rules ∧ r.GainsNothing rules .combine ∧
      merged.index.value? 0 "abstract".toList = some "x".toList ∧
      (merged.document.detect merged.index rules).clusters = [] := by
  intro r rules merged
  have harena : r.document.IsArena := isArena_parse _
  have hbridge : ¬ r.document.Bridged r.index rules := by decide +kernel
  have hgains : r.GainsNothing rules .combine := by decide +kernel
  exact ⟨harena, hbridge, hgains, by decide +kernel,
    detect_merged r rules .combine harena (.inr ⟨hbridge, .inr hgains⟩)⟩

/-- **What merging may leave behind.**  The last of three entries is linked to both of the others and
merged with the first only.  Whichever of the two stays is still linked to the second, or is linked
to it now, as it has taken up the abstract. -/
theorem detect_merged_bridge :
    let r := Run.start
      ("@a\x7ba, doi = \x7b1\x7d\x7d @b\x7bb, abstract = \x7bx\x7d\x7d " ++
        "@c\x7bc, doi = \x7b1\x7d, abstract = \x7bx\x7d\x7d").toList
    let rules : List DuplicateRule := [.doi, .abstractText]
    let left := fun strategy =>
      let merged := Pass.run r (.duplicates rules (some strategy))
      (merged.document.detect merged.index rules).clusters
    left .last = [⟨2, [4]⟩] ∧ left .combine = [⟨0, [2]⟩] ∧ left .overwrite = [⟨0, [2]⟩] := by
  decide +kernel

-- Without bridges, a title and an author from two entries may be those of a third.
example :
    let r := Run.start
      ("@a\x7ba, doi = 1, title = t\x7d @b\x7bb, doi = 1, author = s\x7d " ++
        "@c\x7bc, title = t, author = s\x7d").toList
    let rules : List DuplicateRule := [.doi, .citation]
    let merged := Pass.run r (.duplicates rules (some .combine))
    ¬ r.document.Bridged r.index rules ∧
      (merged.document.detect merged.index rules).clusters = [⟨0, [4]⟩] := by
  decide +kernel

end Run

end Bibliography
