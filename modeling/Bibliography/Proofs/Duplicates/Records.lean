import Mathlib.Data.List.Perm.Subperm
import Bibliography.Proofs.Duplicates.Clusters

/-!
# Bibliography.Proofs.Duplicates.Records

What a search for duplicates records.  It does so three times: in clusters, in
notes at the entries, and in warnings.  All three are made from one list of
duplicates, which has every entry once, in the order of the document.

An entry is in that list if it shares a signature with an earlier one.  The first
rule under which it does decides, and so does the first entry that has this
signature (`Document.match?`): the duplicate belongs to the cluster of that
entry.

* `Document.find?_ofDocument` — the duplicate that an entry is;
* `Document.duplicateOf?_detect` — the notes;
* `Document.detect_records` — clusters, notes and warnings.
-/

namespace Bibliography

namespace Duplicates

variable {S : NodeId → List Signature} {ids : List NodeId} {ds : List Duplicate} {id root : NodeId}

/-! ## the list of duplicates -/

/-- Duplicates are found in the order of the entries. -/
theorem entries_find_sublist (registry : Registry) (entries : List (NodeId × List Signature)) :
    ((find registry entries).map Duplicate.entry).Sublist (entries.map (·.1)) := by
  induction entries generalizing registry with
  | nil => exact List.Sublist.slnil
  | cons p entries ih =>
      obtain ⟨id, sigs⟩ := p
      rw [find_cons, List.map_append, List.map_cons]
      unfold Registry.duplicate?
      cases registry.match? sigs with
      | none => exact (ih _).cons id
      | some found => exact (ih _).cons_cons id

/-- What is found before an entry, for the entry itself, and after it. -/
theorem exists_find_split (S : NodeId → List Signature) {before : List NodeId}
    (hbefore : before.Nodup) (j : NodeId) (after : List NodeId) :
    ∃ ds registry later, IsRooted S before ds registry ∧ (∀ dup ∈ later, dup.entry ∈ after) ∧
      find [] ((before ++ j :: after).map fun id => (id, S id)) =
        ds ++ ((Registry.duplicate? registry j (S j)).toList ++ later) := by
  let entries (ids : List NodeId) := ids.map fun id => (id, S id)
  let registry := Registry.addAll [] (entries before)
  refine ⟨find [] (entries before), registry,
    find (registry.add (S j) (registry.rootFor j (S j))) (entries after),
    isRooted_find S hbefore, fun dup hdup => ?_, ?_⟩
  · have hmem := (entries_find_sublist _ _).subset (List.mem_map_of_mem hdup)
    simpa [entries] using hmem
  · rw [List.map_append, List.map_cons, find_append, find_cons]

/-- The members of clusters are the duplicates. -/
theorem exists_mem_members_iff :
    (∃ c ∈ clusters ds, c.root = root ∧ id ∈ c.members) ↔
      ∃ dup ∈ ds, dup.root = root ∧ dup.entry = id := by
  constructor
  · rintro ⟨c, hc, rfl, hid⟩
    obtain ⟨root, -, rfl⟩ := List.mem_map.1 hc
    obtain ⟨dup, hdup, rfl⟩ := List.mem_map.1 hid
    obtain ⟨hdup, hroot⟩ := List.mem_filter.1 hdup
    exact ⟨dup, hdup, by simpa using hroot, rfl⟩
  · rintro ⟨dup, hdup, rfl, rfl⟩
    refine ⟨_, List.mem_map_of_mem (List.mem_eraseDups.2 (List.mem_map_of_mem hdup)), rfl, ?_⟩
    exact List.mem_map_of_mem (List.mem_filter.2 ⟨hdup, by simp⟩)

theorem exists_mem_cluster_iff :
    (∃ c ∈ clusters ds, id ∈ c.members) ↔ ∃ dup ∈ ds, dup.entry = id := by
  constructor
  · rintro ⟨c, hc, hid⟩
    obtain ⟨dup, hdup, -, hentry⟩ := exists_mem_members_iff.1 ⟨c, hc, rfl, hid⟩
    exact ⟨dup, hdup, hentry⟩
  · rintro ⟨dup, hdup, hentry⟩
    obtain ⟨c, hc, -, hid⟩ := exists_mem_members_iff.2 ⟨dup, hdup, rfl, hentry⟩
    exact ⟨c, hc, hid⟩

/-- The root of a cluster is its own root, so it is a member of none. -/
theorem IsRooted.root_not_mem {registry : Registry} (h : IsRooted S ids ds registry)
    (hids : ids.Nodup) {c c' : Cluster} (hc : c ∈ clusters ds) (hc' : c' ∈ clusters ds) :
    c.root ∉ c'.members := by
  intro hmem
  have hown : c.root ∈ c.entries := List.mem_cons_self
  have hother : c.root ∈ c'.entries := List.mem_cons_of_mem _ hmem
  rw [h.entries_eq hc, List.mem_filter, decide_eq_true_eq] at hown
  rw [h.entries_eq hc', List.mem_filter, decide_eq_true_eq] at hother
  rw [← hown.2, hother.2] at hmem
  exact (List.nodup_cons.1 (hids.sublist (h.entries_sublist hc'))).1 hmem

/-- Where no entry is a duplicate twice, the first duplicate of an entry is the only one. -/
theorem find?_entry_eq_some_iff (hnodup : (ds.map Duplicate.entry).Nodup) {dup : Duplicate} :
    ds.find? (·.entry = id) = some dup ↔ dup ∈ ds ∧ dup.entry = id := by
  constructor
  · intro h
    exact ⟨List.mem_of_find?_eq_some h, by simpa using List.find?_some h⟩
  · rintro ⟨hdup, rfl⟩
    cases h : ds.find? (·.entry = dup.entry) with
    | none => simpa using List.find?_eq_none.1 h dup hdup
    | some dup' =>
        have hentry : dup'.entry = dup.entry := by simpa using List.find?_some h
        rw [List.inj_on_of_nodup_map hnodup (List.mem_of_find?_eq_some h) hdup hentry]

end Duplicates

namespace Document

open Duplicates

variable {d : Document} {index : FieldIndex} {rules : List DuplicateRule} {i j id root : NodeId}

/-! ## the first match -/

/-- Two entries have one signature under a rule. -/
def Shares (d : Document) (index : FieldIndex) (rule : DuplicateRule) (i j : NodeId) : Prop :=
  ∃ sig, signature? d index i rule = some sig ∧ signature? d index j rule = some sig

instance (d : Document) (index : FieldIndex) (rule : DuplicateRule) (i j : NodeId) :
    Decidable (d.Shares index rule i j) :=
  decidable_of_iff ((signature? d index j rule).isSome = true ∧
      signature? d index i rule = signature? d index j rule) <| by
    unfold Shares
    cases signature? d index j rule <;> simp

/-- The entries before one. -/
def earlier (d : Document) (j : NodeId) : List NodeId := d.entryIds.takeWhile (· ≠ j)

/-- The first rule, in the order in which rules are tried, under which an entry shares a signature
with an earlier one; and the first entry that has this signature. -/
def match? (d : Document) (index : FieldIndex) (rules : List DuplicateRule) (j : NodeId) :
    Option (DuplicateRule × NodeId) :=
  (DuplicateRule.all.filter (· ∈ rules)).findSome? fun rule =>
    ((d.earlier j).find? fun i => d.Shares index rule i j).map (rule, ·)

theorem fst_of_signature? {rule : DuplicateRule} {sig : Signature}
    (hsig : signature? d index j rule = some sig) : sig.1 = rule := by
  obtain ⟨t, -, rfl⟩ := Option.map_eq_some_iff.1 hsig
  rfl

/-- An entry has a signature of another one if they share it. -/
theorem mem_signatures_iff {rule : DuplicateRule} {sig : Signature} (hrule : rule ∈ rules)
    (hsig : signature? d index j rule = some sig) :
    sig ∈ signatures d index rules i ↔ d.Shares index rule i j := by
  unfold signatures Shares
  rw [List.mem_filterMap, hsig]
  constructor
  · rintro ⟨rule', -, hsig'⟩
    obtain rfl := (fst_of_signature? hsig').symm.trans (fst_of_signature? hsig)
    exact ⟨sig, hsig', rfl⟩
  · rintro ⟨sig', hsig', hsame⟩
    obtain rfl := Option.some.inj hsame
    exact ⟨rule, List.mem_filter.2 ⟨rule.mem_all, by simpa using hrule⟩, hsig'⟩

/-- **What the registry finds** for an entry, if it has the roots of the entries before. -/
theorem match?_registry {ids : List NodeId} {ds : List Duplicate} {registry : Registry}
    (h : IsRooted (signatures d index rules) ids ds registry) (hids : d.earlier j = ids) :
    registry.match? (signatures d index rules j) =
      (d.match? index rules j).map fun p => (p.1, rootOf ds p.2) := by
  have hrules : ∀ rule ∈ DuplicateRule.all.filter (· ∈ rules), rule ∈ rules := fun rule hrule => by
    simpa using (List.mem_filter.1 hrule).2
  unfold Registry.match? signatures match?
  rw [hids]
  generalize DuplicateRule.all.filter (· ∈ rules) = tried at hrules
  induction tried with
  | nil => rfl
  | cons rule tried ih =>
      obtain ⟨hrule, hrules⟩ := List.forall_mem_cons.1 hrules
      specialize ih hrules
      rw [List.findSome?_cons]
      cases hsig : signature? d index j rule with
      | none =>
          have hnone : ids.find? (fun i => decide (d.Shares index rule i j)) = none := by
            rw [List.find?_eq_none]
            rintro i - hshares
            obtain ⟨sig, -, hsome⟩ := of_decide_eq_true hshares
            exact nomatch hsig.symm.trans hsome
          rw [List.filterMap_cons_none hsig, hnone]
          exact ih
      | some sig =>
          have hfind : ids.find? (fun i => decide (sig ∈ signatures d index rules i)) =
              ids.find? fun i => decide (d.Shares index rule i j) := by
            congr 1
            funext i
            rw [decide_eq_decide]
            exact mem_signatures_iff hrule hsig
          rw [List.filterMap_cons_some hsig, List.findSome?_cons, h.lookup sig, hfind,
            fst_of_signature? hsig]
          cases ids.find? fun i => decide (d.Shares index rule i j) with
          | none => exact ih
          | some i => rfl

/-- What a match says: a rule that is asked for, and an earlier entry that shares a signature. -/
theorem of_match?_eq_some {rule : DuplicateRule} (h : d.match? index rules j = some (rule, i)) :
    rule ∈ rules ∧ i ∈ d.earlier j ∧ d.Shares index rule i j := by
  obtain ⟨rule', hrule', hfind⟩ := List.exists_of_findSome?_eq_some h
  obtain ⟨i', hi', heq⟩ := Option.map_eq_some_iff.1 hfind
  obtain ⟨rfl, rfl⟩ := Prod.mk.inj heq
  exact ⟨by simpa using (List.mem_filter.1 hrule').2, List.mem_of_find?_eq_some hi',
    by simpa using List.find?_some hi'⟩

/-- An entry has a match if it shares a signature with an earlier one. -/
theorem isSome_match?_iff :
    (d.match? index rules j).isSome = true ↔
      ∃ i ∈ d.earlier j, ∃ rule ∈ rules, d.Shares index rule i j := by
  constructor
  · intro h
    obtain ⟨⟨rule, i⟩, hmatch⟩ := Option.isSome_iff_exists.1 h
    obtain ⟨hrule, hi, hshares⟩ := of_match?_eq_some hmatch
    exact ⟨i, hi, rule, hrule, hshares⟩
  · rintro ⟨i, hi, rule, hrule, hshares⟩
    rw [match?, List.isSome_findSome?, List.any_eq_true]
    refine ⟨rule, List.mem_filter.2 ⟨rule.mem_all, by simpa using hrule⟩, ?_⟩
    rw [Option.isSome_map, List.find?_isSome]
    exact ⟨i, hi, by simpa using hshares⟩

/-- The entries before one, where no entry is there twice. -/
theorem earlier_eq {before after : List NodeId} (h : d.order.Nodup)
    (hids : d.entryIds = before ++ j :: after) : d.earlier j = before := by
  have hnodup := nodup_entryIds h
  rw [hids] at hnodup
  have hbefore : ∀ k ∈ before, k ≠ j := fun k hk =>
    (List.nodup_append.1 hnodup).2.2 k hk j List.mem_cons_self
  unfold earlier
  rw [hids, List.takeWhile_append_of_pos fun k hk => by simpa using hbefore k hk]
  simp

/-- **The duplicate that an entry is**: it has the root of its first match. -/
theorem find?_ofDocument (h : d.order.Nodup) (hj : j ∈ d.entryIds) :
    (ofDocument d index rules).find? (·.entry = j) = (d.match? index rules j).map fun p =>
      ⟨j, rootOf (ofDocument d index rules) p.2, p.1⟩ := by
  obtain ⟨before, after, hids⟩ := List.append_of_mem hj
  have hearlier := earlier_eq h hids
  have hnodup := nodup_entryIds h
  rw [hids] at hnodup
  obtain ⟨hbefore, hafter, hdisjoint⟩ := List.nodup_append.1 hnodup
  obtain ⟨ds, registry, later, hrooted, hlater, hsplit⟩ :=
    exists_find_split (signatures d index rules) hbefore j after
  rw [← hids] at hsplit
  change ofDocument d index rules = _ at hsplit
  rw [hsplit]
  have hold {k : NodeId} (hk : k ∈ before) : rootOf (ds ++ ((registry.duplicate? j
      (signatures d index rules j)).toList ++ later)) k = rootOf ds k := by
    refine rootOf_append_of_ne fun dup hdup => ?_
    obtain hdup | hdup := List.mem_append.1 hdup
    · rw [(hrooted.of_mem_duplicate? hdup).1]
      exact (hdisjoint k hk j List.mem_cons_self).symm
    · exact (hdisjoint k hk _ (List.mem_cons_of_mem j (hlater dup hdup))).symm
  have hfirst : ds.find? (·.entry = j) = none := by
    refine List.find?_eq_none.2 fun dup hdup => ?_
    simpa using hdisjoint _ (hrooted.entry_mem dup hdup) j List.mem_cons_self
  have hlast : later.find? (·.entry = j) = none := by
    refine List.find?_eq_none.2 fun dup hdup => ?_
    have hne : dup.entry ≠ j := fun heq => (List.nodup_cons.1 hafter).1 (heq ▸ hlater dup hdup)
    simpa using hne
  have hduplicate : registry.duplicate? j (signatures d index rules j) =
      (d.match? index rules j).map fun p => ⟨j, rootOf ds p.2, p.1⟩ := by
    rw [Registry.duplicate?, match?_registry hrooted hearlier, Option.map_map]
    rfl
  rw [List.find?_append, List.find?_append, hfirst, hlast, Option.none_or, Option.or_none]
  calc
    _ = registry.duplicate? j (signatures d index rules j) := by
      cases hfound : registry.duplicate? j (signatures d index rules j) with
      | none => rfl
      | some dup =>
          have hmem : dup ∈ (registry.duplicate? j (signatures d index rules j)).toList :=
            Option.mem_toList.2 hfound
          have hentry := (hrooted.of_mem_duplicate? hmem).1
          simp [hentry]
    _ = _ := by
      rw [hduplicate]
      refine Option.map_congr fun p hp => ?_
      obtain ⟨-, hearly, -⟩ := of_match?_eq_some hp
      rw [← hduplicate, hold (hearlier ▸ hearly)]

/-! ## notes -/

/-- The earlier entry that an entry is noted to duplicate. -/
def duplicateOf? (d : Document) (id : NodeId) : Option NodeId :=
  (d.entry? id).bind Entry.duplicateOf

theorem entry?_markDuplicate_of_ne (h : j ≠ id) (earlier : NodeId) :
    entry? (d.markDuplicate id earlier) j = d.entry? j := by
  unfold markDuplicate
  split
  · next b hb =>
    split
    · unfold entry?
      rw [node?_setNode hb, if_neg h]
    · rfl
  · rfl

theorem entry?_markDuplicate (d : Document) (id earlier : NodeId) :
    entry? (d.markDuplicate id earlier) id =
      (d.entry? id).map fun e => { e with duplicateOf := some earlier } := by
  unfold markDuplicate
  cases hn : d.node? id with
  | none => simp [hn, entry?]
  | some n =>
      cases n with
      | text t => simp [hn, entry?, Node.entry?, Node.block?]
      | block b =>
          dsimp only
          split
          · next e he =>
            unfold entry?
            rw [node?_setNode hn, if_pos rfl, hn]
            simp [Node.entry?, Node.block?, Block.entry?, Body.entry?, he]
          · next hbody =>
            have hnone : b.body.entry? = none := by
              cases hb : b.body with
              | entry e => exact absurd hb (hbody e)
              | _ => rfl
            simp [hn, hnone, entry?, Node.entry?, Node.block?, Block.entry?]

/-- **Notes** of duplicates, none of which is of an entry that another one is of. -/
theorem duplicateOf?_marks {ds : List Duplicate} (hnodup : (ds.map Duplicate.entry).Nodup)
    (hentries : ∀ dup ∈ ds, (d.entry? dup.entry).isSome = true) (id : NodeId) :
    (ds.foldl (fun d dup => d.markDuplicate dup.entry dup.root) d).duplicateOf? id =
      ((ds.find? (·.entry = id)).map Duplicate.root).or (d.duplicateOf? id) := by
  induction ds generalizing d with
  | nil => rfl
  | cons dup ds ih =>
      obtain ⟨hdup, hnodup⟩ := List.nodup_cons.1 hnodup
      obtain ⟨hentry, hentries⟩ := List.forall_mem_cons.1 hentries
      have hne {dup' : Duplicate} (hdup' : dup' ∈ ds) : dup'.entry ≠ dup.entry := fun heq =>
        hdup (heq ▸ List.mem_map_of_mem hdup')
      rw [List.foldl_cons, ih hnodup fun dup' hdup' => by
        rw [entry?_markDuplicate_of_ne (hne hdup'), hentries dup' hdup']]
      by_cases hid : dup.entry = id
      · subst hid
        have hnone : ds.find? (·.entry = dup.entry) = none :=
          List.find?_eq_none.2 fun dup' hdup' => by simpa using hne hdup'
        obtain ⟨e, he⟩ := Option.isSome_iff_exists.1 hentry
        simp [hnone, duplicateOf?, entry?_markDuplicate, he]
      · unfold duplicateOf?
        rw [entry?_markDuplicate_of_ne (Ne.symm hid), List.find?_cons_of_neg (by simpa using hid)]

theorem isSome_entry?_of_mem {d : Document} (h : id ∈ d.entryIds) :
    (d.entry? id).isSome = true := by
  rw [entryIds_eq] at h
  exact (List.mem_filter.1 h).2

theorem entries_ofDocument_sublist (d : Document) (index : FieldIndex)
    (rules : List DuplicateRule) :
    ((ofDocument d index rules).map Duplicate.entry).Sublist d.entryIds := by
  have hsublist := entries_find_sublist []
    (d.entryIds.map fun id => (id, signatures d index rules id))
  rw [List.map_map] at hsublist
  simpa [ofDocument, Function.comp_def] using hsublist

/-- **The notes of a search** are at the members of clusters, if there were none before. -/
theorem duplicateOf?_detect (h : d.order.Nodup) (hnotes : ∀ id, d.duplicateOf? id = none) :
    duplicateOf? (d.detect index rules).document id = some root ↔
      ∃ c ∈ (d.detect index rules).clusters, c.root = root ∧ id ∈ c.members := by
  have hsublist := entries_ofDocument_sublist d index rules
  have hnodup := (nodup_entryIds h).sublist hsublist
  have hentries : ∀ dup ∈ ofDocument d index rules, (d.entry? dup.entry).isSome = true :=
    fun dup hdup => isSome_entry?_of_mem (hsublist.subset (List.mem_map_of_mem hdup))
  have hmarks := duplicateOf?_marks hnodup hentries id
  rw [hnotes, Option.or_none] at hmarks
  refine Iff.trans ?_ exists_mem_members_iff.symm
  change duplicateOf? ((ofDocument d index rules).foldl _ d) id = _ ↔ _
  rw [hmarks, Option.map_eq_some_iff]
  refine exists_congr fun dup => ?_
  rw [find?_entry_eq_some_iff hnodup, and_assoc, and_comm (a := _ = root)]

end Document

/-! ## all records -/

/-- What a search has found, where clusters, notes and warnings say the same. -/
structure Detection.IsRecord (r : Detection) (d : Document) (index : FieldIndex)
    (rules : List DuplicateRule) : Prop where
  disjoint : r.clusters.Pairwise fun c c' => c.entries.Disjoint c'.entries
  /-- The root of a cluster is a member of none. -/
  root_not_mem : ∀ c ∈ r.clusters, ∀ c' ∈ r.clusters, c.root ∉ c'.members
  members_ne_nil : ∀ c ∈ r.clusters, c.members ≠ []
  /-- A root comes before its members, and they stand in the order of the document. -/
  sublist : ∀ c ∈ r.clusters, (c.root :: c.members).Sublist d.entryIds
  /-- Members are the entries that share a signature with an earlier one. -/
  mem_members : ∀ j, (∃ c ∈ r.clusters, j ∈ c.members) ↔
    j ∈ d.entryIds ∧ ∃ i ∈ d.earlier j, ∃ rule ∈ rules, d.Shares index rule i j
  /-- A member is in the cluster of the entry that it matches first. -/
  first : ∀ j ∈ d.entryIds, ∀ rule i, d.match? index rules j = some (rule, i) →
    ∃ c ∈ r.clusters, j ∈ c.members ∧ i ∈ c.entries
  /-- The members of a root have a note of it, and no other entries have notes. -/
  notes : ∀ id root, r.document.duplicateOf? id = some root ↔
    ∃ c ∈ r.clusters, c.root = root ∧ id ∈ c.members
  /-- There is a warning of every member, in the order of the document. -/
  warnings : List.Forall₂
    (fun j w => ∃ c ∈ r.clusters, j ∈ c.members ∧ ∃ rule i,
      d.match? index rules j = some (rule, i) ∧
      w.cause = .duplicateEntry (Duplicates.displayKey d j) (Duplicates.displayKey d c.root) rule ∧
      w.entry = some (d.entryRef j) ∧ w.earlier = some (d.entryRef c.root))
    (d.entryIds.filter fun j => ∃ c ∈ r.clusters, j ∈ c.members) r.warnings

namespace Document

open Duplicates

variable {d : Document} {index : FieldIndex} {rules : List DuplicateRule} {i j id root : NodeId}

/-- A part of a list without repetitions is picked out by its items. -/
theorem filter_mem_of_sublist {l ids : List NodeId} (h : l.Sublist ids) (hids : ids.Nodup) :
    (ids.filter fun id => id ∈ l) = l := by
  have hsublist := h.filter fun id => id ∈ l
  rw [List.filter_eq_self.2 fun id hid => by simpa using hid] at hsublist
  have hsubset : (ids.filter fun id => id ∈ l) ⊆ l := fun id hid => by
    simpa using (List.mem_filter.1 hid).2
  have hsubperm := List.subperm_of_subset (hids.filter _) hsubset
  exact (hsublist.eq_of_length_le hsubperm.length_le).symm

/-- The duplicates of a document, and the matches of its entries. -/
theorem mem_ofDocument_iff (h : d.order.Nodup) {dup : Duplicate} :
    dup ∈ ofDocument d index rules ↔ dup.entry ∈ d.entryIds ∧
      ∃ i, d.match? index rules dup.entry = some (dup.rule, i) ∧
        dup.root = rootOf (ofDocument d index rules) i := by
  have hsublist := entries_ofDocument_sublist d index rules
  have hfind : (ofDocument d index rules).find? (·.entry = dup.entry) = some dup ↔
      dup ∈ ofDocument d index rules ∧ dup.entry = dup.entry :=
    find?_entry_eq_some_iff ((nodup_entryIds h).sublist hsublist)
  constructor
  · intro hdup
    have hentry := hsublist.subset (List.mem_map_of_mem hdup)
    rw [find?_ofDocument h hentry, Option.map_eq_some_iff] at hfind
    obtain ⟨⟨rule, i⟩, hmatch, heq⟩ := hfind.2 ⟨hdup, rfl⟩
    refine ⟨hentry, i, ?_, ?_⟩
    · rw [hmatch, ← heq]
    · rw [← heq]
  · rintro ⟨hentry, i, hmatch, hroot⟩
    rw [find?_ofDocument h hentry, hmatch, Option.map_some, ← hroot] at hfind
    exact (hfind.1 rfl).1

/-- **Members** are the entries that share a signature with an earlier one. -/
theorem mem_members_detect (h : d.order.Nodup) :
    (∃ c ∈ (d.detect index rules).clusters, j ∈ c.members) ↔
      j ∈ d.entryIds ∧ ∃ i ∈ d.earlier j, ∃ rule ∈ rules, d.Shares index rule i j := by
  rw [← isSome_match?_iff]
  refine exists_mem_cluster_iff.trans ?_
  constructor
  · rintro ⟨dup, hdup, rfl⟩
    obtain ⟨hentry, i, hmatch, -⟩ := (mem_ofDocument_iff h).1 hdup
    exact ⟨hentry, by rw [hmatch]; rfl⟩
  · rintro ⟨hj, hsome⟩
    obtain ⟨⟨rule, i⟩, hmatch⟩ := Option.isSome_iff_exists.1 hsome
    exact ⟨⟨j, _, rule⟩, (mem_ofDocument_iff h).2 ⟨hj, i, hmatch, rfl⟩, rfl⟩

/-- **A member is in the cluster** of the entry that it matches first. -/
theorem exists_cluster_of_match? (h : d.order.Nodup) (hj : j ∈ d.entryIds) {rule : DuplicateRule}
    (hmatch : d.match? index rules j = some (rule, i)) :
    ∃ c ∈ (d.detect index rules).clusters, j ∈ c.members ∧ i ∈ c.entries := by
  have hrooted : IsRooted _ _ (ofDocument d index rules) _ :=
    isRooted_find (signatures d index rules) (nodup_entryIds h)
  obtain ⟨c, hc, hroot, hmem⟩ := exists_mem_members_iff.2
    ⟨⟨j, _, rule⟩, (mem_ofDocument_iff h).2 ⟨hj, i, hmatch, rfl⟩, rfl, rfl⟩
  refine ⟨c, hc, hmem, ?_⟩
  have hi : i ∈ d.entryIds := (List.takeWhile_sublist _).subset (of_match?_eq_some hmatch).2.1
  rw [hrooted.entries_eq hc, List.mem_filter, decide_eq_true_eq]
  exact ⟨hi, hroot.symm⟩

/-- The members of clusters, in the order of the document, are those of the list of duplicates. -/
theorem filter_members_detect (h : d.order.Nodup) :
    (d.entryIds.filter fun j => ∃ c ∈ (d.detect index rules).clusters, j ∈ c.members) =
      (ofDocument d index rules).map Duplicate.entry := by
  rw [← filter_mem_of_sublist (entries_ofDocument_sublist d index rules) (nodup_entryIds h)]
  refine List.filter_congr fun j _ => ?_
  rw [decide_eq_decide, List.mem_map]
  exact exists_mem_cluster_iff

/-- **The records of a search agree.** -/
theorem detect_records (d : Document) (index : FieldIndex) (rules : List DuplicateRule)
    (h : d.order.Nodup) (hnotes : ∀ id, d.duplicateOf? id = none) :
    (d.detect index rules).IsRecord d index rules := by
  have hids := nodup_entryIds h
  have hrooted : IsRooted _ _ (ofDocument d index rules) _ :=
    isRooted_find (signatures d index rules) hids
  constructor
  case disjoint => exact hrooted.disjoint
  case root_not_mem => exact fun c hc c' hc' => hrooted.root_not_mem hids hc hc'
  case members_ne_nil =>
    intro c hc hnil
    have hlength := two_le_length_entries hc
    simp [Cluster.entries, hnil] at hlength
  case sublist => exact fun c hc => hrooted.entries_sublist hc
  case mem_members => exact fun j => mem_members_detect h
  case first => exact fun j hj rule i => exists_cluster_of_match? h hj
  case notes => exact fun id root => duplicateOf?_detect h hnotes
  case warnings =>
    rw [filter_members_detect h]
    change List.Forall₂ _ _ ((ofDocument d index rules).map (Duplicates.warning d))
    rw [List.forall₂_map_left_iff, List.forall₂_map_right_iff, List.forall₂_same]
    intro dup hdup
    obtain ⟨c, hc, hroot, hmem⟩ := exists_mem_members_iff.2 ⟨dup, hdup, rfl, rfl⟩
    obtain ⟨-, i, hmatch, -⟩ := (mem_ofDocument_iff h).1 hdup
    exact ⟨c, hc, hmem, dup.rule, i, hmatch, by rw [hroot]; rfl, rfl, by rw [hroot]; rfl⟩

/-- A third entry equals the first by its DOI and the second by its abstract, which is tried
later. -/
theorem detect_records_rules :
    let d := (parse
      ("@a\x7ba, doi = 1\x7d @b\x7bb, abstract = x\x7d @c\x7bc, abstract = x, doi = 1\x7d " ++
        "@e\x7be, abstract = x\x7d").toList).1
    let rules : List DuplicateRule := [.abstractText, .doi]
    d.order.Nodup ∧ (∀ id, d.duplicateOf? id = none) ∧
      (d.detect (.build d) rules).clusters = [⟨0, [4]⟩, ⟨2, [6]⟩] ∧
      (d.detect (.build d) rules).IsRecord d (.build d) rules := by
  intro d rules
  have horder : d.order.Nodup := by decide +kernel
  have hnotes : ∀ id, d.duplicateOf? id = none := by
    intro id
    by_cases hid : id < d.nodes.length
    · exact (by decide +kernel : ∀ id < d.nodes.length, d.duplicateOf? id = none) id hid
    · have hnode : d.node? id = none := List.getElem?_eq_none (Nat.le_of_not_lt hid)
      simp [duplicateOf?, entry?, hnode]
  exact ⟨horder, hnotes, by decide +kernel, detect_records d (.build d) rules horder hnotes⟩

end Document

end Bibliography
