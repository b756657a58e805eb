import Mathlib.Data.List.Induction
import Mathlib.Data.List.Nodup
import Mathlib.Logic.Relation
import Bibliography.Proofs.Tidy.Index

/-!
# Bibliography.Proofs.Duplicates.Clusters

Which entries are found to be the same.  Two entries are linked if they have a
signature in common.  The search takes entries once, in the order of the
document, and an entry joins the cluster of one earlier entry that it is linked
to, whichever it finds first.

So a cluster never holds more than what links connect.  It may hold less: an
entry that is linked to two earlier ones joins the cluster of one of them, and
clusters that exist are never united.  Clusters are the connected components of
the links just if no entry is such a bridge.

* `Duplicates.isRooted_find` — what the search has found after any number of
  entries;
* `Document.not_bridged_singleton` — one rule alone gives no bridges;
* `Document.clusters_detect` — the clusters against the links.
-/

namespace Bibliography

open Relation (ReflTransGen)

theorem nodup_eraseDups {α : Type} [DecidableEq α] (l : List α) : l.eraseDups.Nodup := by
  induction h : l.length using Nat.strongRecOn generalizing l with
  | _ n ih =>
      cases l with
      | nil => exact List.nodup_nil
      | cons a l =>
          rw [List.eraseDups_cons, List.nodup_cons]
          have hlength : (l.filter fun b => !b == a).length < n := by
            rw [← h]
            exact Nat.lt_succ_of_le (List.length_filter_le _ l)
          exact ⟨by simp, ih _ hlength _ rfl⟩

/-- The entries of a cluster, in the order of the document. -/
def Cluster.entries (c : Cluster) : List NodeId := c.root :: c.members

namespace Duplicates

/-- Two of some entries have a signature in common. -/
def Linked (S : NodeId → List Signature) (ids : List NodeId) (i j : NodeId) : Prop :=
  i ∈ ids ∧ j ∈ ids ∧ ∃ sig ∈ S i, sig ∈ S j

instance (S : NodeId → List Signature) (ids : List NodeId) (i j : NodeId) :
    Decidable (Linked S ids i j) :=
  inferInstanceAs (Decidable (i ∈ ids ∧ j ∈ ids ∧ ∃ sig ∈ S i, sig ∈ S j))

/-- The root of an entry, which is the entry itself if it is no duplicate. -/
def rootOf (ds : List Duplicate) (id : NodeId) : NodeId :=
  ((ds.find? (·.entry = id)).map Duplicate.root).getD id

/-- The duplicates of a root, in the order in which they were found. -/
def members (ds : List Duplicate) (root : NodeId) : List NodeId :=
  (ds.filter (·.root = root)).map Duplicate.entry

/-! ## the registry -/

/-- The root that an entry with these signatures belongs to. -/
def Registry.rootFor (registry : Registry) (id : NodeId) (sigs : List Signature) : NodeId :=
  ((registry.match? sigs).map (·.2)).getD id

/-- The registry after some entries. -/
def Registry.addAll (registry : Registry) : List (NodeId × List Signature) → Registry
  | [] => registry
  | (id, sigs) :: entries => (registry.add sigs (registry.rootFor id sigs)).addAll entries

/-- The entry of a pair as a duplicate, if it is one. -/
def Registry.duplicate? (registry : Registry) (id : NodeId) (sigs : List Signature) :
    Option Duplicate :=
  (registry.match? sigs).map fun (rule, root) => ⟨id, root, rule⟩

theorem addAll_append (registry : Registry) (xs ys : List (NodeId × List Signature)) :
    registry.addAll (xs ++ ys) = (registry.addAll xs).addAll ys := by
  induction xs generalizing registry with
  | nil => rfl
  | cons x xs ih => exact ih _

theorem find_cons (registry : Registry) (id : NodeId) (sigs : List Signature)
    (entries : List (NodeId × List Signature)) :
    find registry ((id, sigs) :: entries) = (registry.duplicate? id sigs).toList ++
      find (registry.add sigs (registry.rootFor id sigs)) entries := by
  unfold Registry.duplicate? Registry.rootFor
  rw [find]
  cases registry.match? sigs <;> rfl

theorem find_append (registry : Registry) (xs ys : List (NodeId × List Signature)) :
    find registry (xs ++ ys) = find registry xs ++ find (registry.addAll xs) ys := by
  induction xs generalizing registry with
  | nil => rfl
  | cons x xs ih =>
      obtain ⟨id, sigs⟩ := x
      rw [List.cons_append, find_cons, ih, ← List.append_assoc, ← find_cons]
      rfl

theorem find_snoc (registry : Registry) (entries : List (NodeId × List Signature)) (id : NodeId)
    (sigs : List Signature) :
    find registry (entries ++ [(id, sigs)]) =
      find registry entries ++ ((registry.addAll entries).duplicate? id sigs).toList := by
  rw [find_append, find_cons, find, List.append_nil]

theorem lookup_add (registry : Registry) (sigs : List Signature) (root : NodeId)
    (sig : Signature) :
    (registry.add sigs root).lookup sig =
      (registry.lookup sig).or (if sig ∈ sigs then some root else none) := by
  have hsigs : (sigs.map (·, root)).lookup sig = if sig ∈ sigs then some root else none := by
    induction sigs with
    | nil => rfl
    | cons s sigs ih =>
        rw [List.map_cons, List.lookup_cons, ih]
        by_cases h : sig = s
        · simp [h]
        · simp [h, beq_false_of_ne h]
  rw [Registry.add, List.lookup_append, hsigs]

/-! ## one entry after the other -/

variable {S : NodeId → List Signature} {ids : List NodeId} {ds : List Duplicate}
  {registry : Registry} {id i : NodeId}

/-- What is known after some entries.  The registry has the root of the first carrier of every
signature.  Roots are entries before the duplicate, and roots themselves. -/
structure IsRooted (S : NodeId → List Signature) (ids : List NodeId) (ds : List Duplicate)
    (registry : Registry) : Prop where
  lookup : ∀ sig, registry.lookup sig = (ids.find? (sig ∈ S ·)).map (rootOf ds)
  entry_mem : ∀ dup ∈ ds, dup.entry ∈ ids
  root_mem : ∀ dup ∈ ds, dup.root ∈ ids
  root_root : ∀ dup ∈ ds, rootOf ds dup.root = dup.root
  /-- A root and its duplicates, in order, are the entries of that root. -/
  entries : ∀ root ∈ ids, rootOf ds root = root →
    root :: members ds root = ids.filter (rootOf ds · = root)
  /-- Links lead from an entry to its root. -/
  connected : ∀ i ∈ ids, ReflTransGen (Linked S ids) i (rootOf ds i)
  /-- An entry that is linked to an earlier one has the root of the first carrier of some signature,
  and that carrier is an earlier one too. -/
  first : ∀ i j, [i, j].Sublist ids → Linked S ids i j →
    ∃ sig ∈ S j, ∃ i', ids.find? (sig ∈ S ·) = some i' ∧ [i', j].Sublist ids ∧
      rootOf ds i' = rootOf ds j

theorem Linked.mono {ids' : List NodeId} {i j : NodeId} (h : Linked S ids i j)
    (hids : ∀ i ∈ ids, i ∈ ids') : Linked S ids' i j :=
  ⟨hids i h.1, hids j h.2.1, h.2.2⟩

theorem Linked.symm {i j : NodeId} (h : Linked S ids i j) : Linked S ids j i :=
  let ⟨hi, hj, sig, hsi, hsj⟩ := h
  ⟨hj, hi, sig, hsj, hsi⟩

theorem rootOf_append_of_ne {new : List Duplicate} (h : ∀ dup ∈ new, dup.entry ≠ i) :
    rootOf (ds ++ new) i = rootOf ds i := by
  have hnone : new.find? (·.entry = i) = none := by
    rw [List.find?_eq_none]
    exact fun dup hdup => by simpa using h dup hdup
  rw [rootOf, List.find?_append, hnone, Option.or_none, rootOf]

/-- The entry that comes next is given the root that the registry has for it. -/
theorem rootOf_duplicate? (h : ∀ dup ∈ ds, dup.entry ≠ id) (sigs : List Signature) :
    rootOf (ds ++ (registry.duplicate? id sigs).toList) id = registry.rootFor id sigs := by
  have hnone : ds.find? (·.entry = id) = none := by
    rw [List.find?_eq_none]
    exact fun dup hdup => by simpa using h dup hdup
  unfold rootOf Registry.duplicate? Registry.rootFor
  rw [List.find?_append, hnone, Option.none_or]
  cases registry.match? sigs <;> simp

/-- The next entry is its own root if no earlier one has a signature of it.  Otherwise it is a
duplicate, with the root of the first carrier of some signature. -/
theorem IsRooted.next (h : IsRooted S ids ds registry) (id : NodeId) :
    ((∀ i ∈ ids, ¬ ∃ sig ∈ S i, sig ∈ S id) ∧ registry.rootFor id (S id) = id ∧
      registry.duplicate? id (S id) = none) ∨
    ∃ sig ∈ S id, ∃ i, ids.find? (sig ∈ S ·) = some i ∧
      registry.rootFor id (S id) = rootOf ds i ∧
      ∃ rule, registry.duplicate? id (S id) = some ⟨id, rootOf ds i, rule⟩ := by
  unfold Registry.rootFor Registry.duplicate?
  cases hmatch : registry.match? (S id) with
  | none =>
      refine .inl ⟨fun i hi ⟨sig, hsig, hid⟩ => ?_, rfl, rfl⟩
      have hlookup := List.findSome?_eq_none_iff.1 hmatch sig hid
      rw [Option.map_eq_none_iff, h.lookup, Option.map_eq_none_iff, List.find?_eq_none] at hlookup
      exact hlookup i hi (by simpa using hsig)
  | some found =>
      obtain ⟨rule, root⟩ := found
      obtain ⟨sig, hid, hsig⟩ := List.exists_of_findSome?_eq_some hmatch
      rw [h.lookup, Option.map_map, Option.map_eq_some_iff] at hsig
      obtain ⟨i, hi, heq⟩ := hsig
      obtain ⟨-, rfl⟩ := Prod.mk.inj heq
      exact .inr ⟨sig, hid, i, hi, rfl, rule, rfl⟩

/-- The duplicate that the next entry is has the root of an earlier one. -/
theorem IsRooted.of_mem_duplicate? (h : IsRooted S ids ds registry) {dup : Duplicate}
    (hdup : dup ∈ (registry.duplicate? id (S id)).toList) :
    dup.entry = id ∧ ∃ i ∈ ids, dup.root = rootOf ds i := by
  rcases h.next id with ⟨-, -, hnone⟩ | ⟨sig, -, i, hi, -, rule, hsome⟩
  · simp [hnone] at hdup
  · obtain rfl : dup = ⟨id, rootOf ds i, rule⟩ := by simpa [hsome] using hdup
    exact ⟨rfl, i, List.mem_of_find?_eq_some hi, rfl⟩

theorem IsRooted.rootOf_mem (h : IsRooted S ids ds registry) (hi : i ∈ ids) :
    rootOf ds i ∈ ids := by
  cases hfind : ds.find? (·.entry = i) with
  | none => rwa [rootOf, hfind]
  | some dup =>
      rw [rootOf, hfind]
      exact h.root_mem dup (List.mem_of_find?_eq_some hfind)

theorem IsRooted.rootOf_rootOf (h : IsRooted S ids ds registry) (i : NodeId) :
    rootOf ds (rootOf ds i) = rootOf ds i := by
  cases hfind : ds.find? (·.entry = i) with
  | none =>
      have hroot : rootOf ds i = i := by rw [rootOf, hfind]; rfl
      rw [hroot, hroot]
  | some dup =>
      have hroot : rootOf ds i = dup.root := by rw [rootOf, hfind]; rfl
      rw [hroot, h.root_root dup (List.mem_of_find?_eq_some hfind)]

instance : Std.Symm (Linked S ids) := ⟨fun _ _ h => h.symm⟩

theorem pair_sublist_snoc {i j : NodeId} :
    [i, j].Sublist (ids ++ [id]) ↔ [i, j].Sublist ids ∨ i ∈ ids ∧ j = id := by
  constructor
  · intro h
    obtain ⟨l, l', heq, hl, hl'⟩ := List.sublist_append_iff.1 h
    cases hl' with
    | cons _ hnil =>
        rw [List.sublist_nil.1 hnil, List.append_nil] at heq
        exact .inl (heq ▸ hl)
    | cons_cons _ hnil =>
        rw [List.sublist_nil.1 hnil] at heq
        obtain ⟨rfl, hj⟩ : [i] = l ∧ [j] = [id] := List.append_inj' heq rfl
        exact .inr ⟨List.singleton_sublist.1 hl, List.singleton_inj.1 hj⟩
  · rintro (h | ⟨hi, rfl⟩)
    · exact h.trans (List.sublist_append_left ids [id])
    · exact (List.singleton_sublist.2 hi).append (.refl [j])

theorem pair_sublist_or {i j : NodeId} (hi : i ∈ ids) (hj : j ∈ ids) (hij : i ≠ j) :
    [i, j].Sublist ids ∨ [j, i].Sublist ids := by
  induction ids using List.reverseRecOn with
  | nil => cases hi
  | append_singleton ids id ih =>
      simp only [pair_sublist_snoc, List.mem_append, List.mem_singleton] at hi hj ⊢
      rcases hi with hi | rfl <;> rcases hj with hj | rfl
      · exact (ih hi hj).imp .inl .inl
      · exact .inl (.inr ⟨hi, rfl⟩)
      · exact .inr (.inr ⟨hj, rfl⟩)
      · exact absurd rfl hij

theorem pair_sublist_asymm (hids : ids.Nodup) {i j : NodeId} (hij : [i, j].Sublist ids) :
    ¬ [j, i].Sublist ids := by
  induction ids using List.reverseRecOn with
  | nil => cases hij
  | append_singleton ids id ih =>
      obtain ⟨hids, -, hid⟩ := List.nodup_append.1 hids
      replace hid : id ∉ ids := fun h => hid id h id (List.mem_singleton_self id) rfl
      intro hji
      rcases pair_sublist_snoc.1 hij with hij' | ⟨hi, heq⟩ <;>
        rcases pair_sublist_snoc.1 hji with hji' | ⟨hj, heq'⟩
      · exact ih hids hij' hji'
      · exact hid (heq' ▸ hij'.subset List.mem_cons_self)
      · exact hid (heq ▸ hji'.subset List.mem_cons_self)
      · exact hid (heq ▸ hj)

theorem members_append (ds new : List Duplicate) (root : NodeId) :
    members (ds ++ new) root = members ds root ++ members new root := by
  unfold members
  rw [List.filter_append, List.map_append]

/-- **One more entry.** -/
theorem IsRooted.snoc (h : IsRooted S ids ds registry) (hid : id ∉ ids) :
    IsRooted S (ids ++ [id]) (ds ++ (registry.duplicate? id (S id)).toList)
      (registry.add (S id) (registry.rootFor id (S id))) := by
  have hne {i : NodeId} (hi : i ∈ ids) : i ≠ id := fun heq => hid (heq ▸ hi)
  have hold {i : NodeId} (hi : i ∈ ids) :
      rootOf (ds ++ (registry.duplicate? id (S id)).toList) i = rootOf ds i :=
    rootOf_append_of_ne fun dup hdup heq =>
      hne hi (heq.symm.trans (h.of_mem_duplicate? hdup).1)
  have hself : rootOf (ds ++ (registry.duplicate? id (S id)).toList) id =
      registry.rootFor id (S id) :=
    rootOf_duplicate? (fun dup hdup => hne (h.entry_mem dup hdup)) (S id)
  have hmono {i : NodeId} (hi : i ∈ ids) : i ∈ ids ++ [id] := List.mem_append_left _ hi
  have hlast : id ∈ ids ++ [id] := List.mem_append_right _ (List.mem_singleton_self id)
  generalize hds : ds ++ (registry.duplicate? id (S id)).toList = ds' at hold hself ⊢
  constructor
  case lookup =>
    intro sig
    rw [lookup_add, h.lookup, List.find?_append, ← hself]
    cases hfind : ids.find? (sig ∈ S ·) with
    | some i => simp [hold (List.mem_of_find?_eq_some hfind)]
    | none => by_cases hsig : sig ∈ S id <;> simp [hsig]
  case entry_mem =>
    intro dup hdup
    rw [← hds] at hdup
    rcases List.mem_append.1 hdup with hdup | hdup
    · exact hmono (h.entry_mem dup hdup)
    · exact (h.of_mem_duplicate? hdup).1 ▸ hlast
  case root_mem =>
    intro dup hdup
    rw [← hds] at hdup
    rcases List.mem_append.1 hdup with hdup | hdup
    · exact hmono (h.root_mem dup hdup)
    · obtain ⟨-, i, hi, hroot⟩ := h.of_mem_duplicate? hdup
      exact hroot ▸ hmono (h.rootOf_mem hi)
  case root_root =>
    intro dup hdup
    rw [← hds] at hdup
    rcases List.mem_append.1 hdup with hdup | hdup
    · rw [hold (h.root_mem dup hdup), h.root_root dup hdup]
    · obtain ⟨-, i, hi, hroot⟩ := h.of_mem_duplicate? hdup
      rw [hroot, hold (h.rootOf_mem hi), h.rootOf_rootOf]
  case entries =>
    intro root hroot hrooted
    have hfilter : ids.filter (rootOf ds' · = root) = ids.filter (rootOf ds · = root) :=
      List.filter_congr fun i hi => by rw [hold hi]
    rw [← hds, members_append, hds, List.filter_append, hfilter]
    rcases List.mem_append.1 hroot with hroot | hroot
    · rw [← List.cons_append, h.entries root hroot (hold hroot ▸ hrooted)]
      congr 1
      rcases h.next id with ⟨-, hfor, hnone⟩ | ⟨sig, -, i, hi, hfor, rule, hsome⟩
      · simp [hnone, hself, hfor, members, (hne hroot).symm]
      · by_cases hi' : rootOf ds i = root <;> simp [hsome, hself, hfor, members, hi']
    · obtain rfl := List.mem_singleton.1 hroot
      rw [hself] at hrooted
      rcases h.next root with ⟨-, -, hnone⟩ | ⟨sig, -, i, hi, hfor, -⟩
      · have hmembers : members ds root = [] := by
          simpa [members] using fun dup hdup => hne (h.root_mem dup hdup)
        have hids : ids.filter (rootOf ds · = root) = [] := by
          simpa using fun i hi => hne (h.rootOf_mem hi)
        rw [hmembers, hids]
        simp [hnone, hself, hrooted, members]
      · exact absurd (hfor.symm.trans hrooted)
          (hne (h.rootOf_mem (List.mem_of_find?_eq_some hi)))
  case connected =>
    intro i hi
    rcases List.mem_append.1 hi with hi | hi
    · rw [hold hi]
      exact ReflTransGen.mono (fun _ _ hlink => hlink.mono fun _ => hmono) _ _ (h.connected i hi)
    · obtain rfl := List.mem_singleton.1 hi
      rw [hself]
      rcases h.next i with ⟨-, hfor, -⟩ | ⟨sig, hsig, j, hj, hfor, -⟩
      · rw [hfor]
      · have hcarries : sig ∈ S j := by simpa using List.find?_some hj
        have hmem := List.mem_of_find?_eq_some hj
        rw [hfor]
        refine .head ⟨hlast, hmono hmem, sig, hsig, hcarries⟩ ?_
        exact ReflTransGen.mono (fun _ _ hlink => hlink.mono fun _ => hmono) _ _
          (h.connected j hmem)
  case first =>
    intro i j hij hlink
    rcases pair_sublist_snoc.1 hij with hij | ⟨hi, rfl⟩
    · have hi : i ∈ ids := hij.subset (by simp)
      have hj : j ∈ ids := hij.subset (by simp)
      obtain ⟨sig, hsig, i', hfind, hi'j, hroot⟩ := h.first i j hij ⟨hi, hj, hlink.2.2⟩
      refine ⟨sig, hsig, i', ?_, pair_sublist_snoc.2 (.inl hi'j), ?_⟩
      · rw [List.find?_append, hfind, Option.some_or]
      · rw [hold (List.mem_of_find?_eq_some hfind), hold hj, hroot]
    · rcases h.next j with ⟨hnone, -⟩ | ⟨sig, hsig, i', hfind, hfor, -⟩
      · exact absurd hlink.2.2 (hnone i hi)
      · have hi' := List.mem_of_find?_eq_some hfind
        refine ⟨sig, hsig, i', ?_, pair_sublist_snoc.2 (.inr ⟨hi', rfl⟩), ?_⟩
        · rw [List.find?_append, hfind, Option.some_or]
        · rw [hold hi', hself, hfor]

/-- **What the search has found after any number of entries.** -/
theorem isRooted_find (S : NodeId → List Signature) {ids : List NodeId} (hids : ids.Nodup) :
    IsRooted S ids (find [] (ids.map fun id => (id, S id)))
      (Registry.addAll [] (ids.map fun id => (id, S id))) := by
  induction ids using List.reverseRecOn with
  | nil =>
      constructor
      case lookup => exact fun sig => rfl
      case first =>
        intro i j hij
        cases hij
      all_goals simp [find]
  | append_singleton ids id ih =>
      obtain ⟨hids, -, hid⟩ := List.nodup_append.1 hids
      rw [List.map_append, List.map_singleton, find_snoc, addAll_append]
      exact (ih hids).snoc fun h => hid id h id (List.mem_singleton_self id) rfl

/-! ## clusters -/

/-- Two entries are in one cluster. -/
def Together (cs : List Cluster) (i j : NodeId) : Prop :=
  ∃ c ∈ cs, i ∈ c.entries ∧ j ∈ c.entries

instance (cs : List Cluster) (i j : NodeId) : Decidable (Together cs i j) :=
  inferInstanceAs (Decidable (∃ c ∈ cs, i ∈ c.entries ∧ j ∈ c.entries))

/-- An entry is linked to two earlier ones that are not in one cluster. -/
def Bridged (S : NodeId → List Signature) (ids : List NodeId) (cs : List Cluster) : Prop :=
  ∃ i ∈ ids, ∃ j ∈ ids, ∃ k ∈ ids, i ≠ j ∧ [i, k].Sublist ids ∧ [j, k].Sublist ids ∧
    Linked S ids i k ∧ Linked S ids j k ∧ ¬ Together cs i j

instance (S : NodeId → List Signature) (ids : List NodeId) (cs : List Cluster) :
    Decidable (Bridged S ids cs) :=
  inferInstanceAs (Decidable (∃ i ∈ ids, ∃ j ∈ ids, ∃ k ∈ ids, i ≠ j ∧ [i, k].Sublist ids ∧
    [j, k].Sublist ids ∧ Linked S ids i k ∧ Linked S ids j k ∧ ¬ Together cs i j))

theorem two_le_length_entries {c : Cluster} (hc : c ∈ clusters ds) : 2 ≤ c.entries.length := by
  obtain ⟨root, hroot, rfl⟩ := List.mem_map.1 hc
  obtain ⟨dup, hdup, rfl⟩ := List.mem_map.1 (List.mem_eraseDups.1 hroot)
  have hmember : dup ∈ ds.filter (·.root = dup.root) := List.mem_filter.2 ⟨hdup, by simp⟩
  have hpos := List.length_pos_of_mem hmember
  simp only [Cluster.entries, List.length_cons, List.length_map]
  exact Nat.succ_le_succ hpos

section

variable (h : IsRooted S ids ds registry)

include h

/-- A cluster has the entries of one root. -/
theorem IsRooted.entries_eq {c : Cluster} (hc : c ∈ clusters ds) :
    c.entries = ids.filter (rootOf ds · = c.root) := by
  obtain ⟨root, hroot, rfl⟩ := List.mem_map.1 hc
  obtain ⟨dup, hdup, rfl⟩ := List.mem_map.1 (List.mem_eraseDups.1 hroot)
  exact h.entries dup.root (h.root_mem dup hdup) (h.root_root dup hdup)

theorem IsRooted.entries_sublist {c : Cluster} (hc : c ∈ clusters ds) : c.entries.Sublist ids :=
  h.entries_eq hc ▸ List.filter_sublist

theorem IsRooted.disjoint : (clusters ds).Pairwise fun c c' => c.entries.Disjoint c'.entries := by
  have hroots : (clusters ds).Pairwise fun c c' => c.root ≠ c'.root := by
    rw [clusters, List.pairwise_map]
    exact nodup_eraseDups _
  refine hroots.imp_of_mem fun hc hc' hne i hi hi' => hne ?_
  rw [h.entries_eq hc, List.mem_filter, decide_eq_true_eq] at hi
  rw [h.entries_eq hc', List.mem_filter, decide_eq_true_eq] at hi'
  exact hi.2.symm.trans hi'.2

/-- Two entries are in one cluster if they have one root. -/
theorem IsRooted.together_iff {i j : NodeId} (hij : i ≠ j) :
    Together (clusters ds) i j ↔ i ∈ ids ∧ j ∈ ids ∧ rootOf ds i = rootOf ds j := by
  constructor
  · rintro ⟨c, hc, hi, hj⟩
    rw [h.entries_eq hc, List.mem_filter, decide_eq_true_eq] at hi hj
    exact ⟨hi.1, hj.1, hi.2.trans hj.2.symm⟩
  · rintro ⟨hi, hj, heq⟩
    -- one of the two is a duplicate, or they would be their own roots
    obtain ⟨dup, hdup, hroot⟩ : ∃ dup ∈ ds, rootOf ds i = dup.root := by
      cases hfind : ds.find? (·.entry = i) with
      | some dup => exact ⟨dup, List.mem_of_find?_eq_some hfind, by rw [rootOf, hfind]; rfl⟩
      | none =>
          cases hfind' : ds.find? (·.entry = j) with
          | some dup =>
              exact ⟨dup, List.mem_of_find?_eq_some hfind', by rw [heq, rootOf, hfind']; rfl⟩
          | none =>
              rw [rootOf, rootOf, hfind, hfind'] at heq
              exact absurd heq hij
    have hc : (⟨dup.root, members ds dup.root⟩ : Cluster) ∈ clusters ds :=
      List.mem_map.2 ⟨dup.root, List.mem_eraseDups.2 (List.mem_map.2 ⟨dup, hdup, rfl⟩), rfl⟩
    refine ⟨_, hc, ?_, ?_⟩ <;>
    · rw [h.entries_eq hc, List.mem_filter, decide_eq_true_eq]
      first | exact ⟨hi, hroot⟩ | exact ⟨hj, heq.symm.trans hroot⟩

/-- A cluster holds what links connect. -/
theorem IsRooted.connected_of_together {i j : NodeId} (hij : i ≠ j)
    (htogether : Together (clusters ds) i j) : ReflTransGen (Linked S ids) i j := by
  obtain ⟨hi, hj, heq⟩ := (h.together_iff hij).1 htogether
  have hback : ReflTransGen (Linked S ids) (rootOf ds j) j :=
    Relation.ReflTransGen.stdSymm.symm _ _ (h.connected j hj)
  exact (h.connected i hi).trans (heq ▸ hback)

/-- An entry that is linked to an earlier one is together with such an entry. -/
theorem IsRooted.exists_together {i j : NodeId} (hij : [i, j].Sublist ids)
    (hlink : Linked S ids i j) :
    ∃ i', [i', j].Sublist ids ∧ Linked S ids i' j ∧ rootOf ds i' = rootOf ds j := by
  obtain ⟨sig, hsig, i', hfind, hi'j, hroot⟩ := h.first i j hij hlink
  have hcarries : sig ∈ S i' := by simpa using List.find?_some hfind
  exact ⟨i', hi'j, ⟨List.mem_of_find?_eq_some hfind, hlink.2.1, sig, hcarries, hsig⟩, hroot⟩

/-- Without bridges, entries that are linked have one root. -/
theorem IsRooted.rootOf_eq_of_linked (hbridge : ¬ Bridged S ids (clusters ds)) {i j : NodeId}
    (hlink : Linked S ids i j) : rootOf ds i = rootOf ds j := by
  have hearlier {i j : NodeId} (hij : [i, j].Sublist ids) (hlink : Linked S ids i j) :
      rootOf ds i = rootOf ds j := by
    obtain ⟨i', hi'j, hlink', hroot⟩ := h.exists_together hij hlink
    by_cases hne : i = i'
    · rw [hne, hroot]
    · by_contra hroots
      refine hbridge ⟨i, hlink.1, i', hlink'.1, j, hlink.2.1, hne, hij, hi'j, hlink, hlink', ?_⟩
      rw [h.together_iff hne]
      exact fun htogether => hroots (htogether.2.2.trans hroot)
  by_cases hne : i = j
  · rw [hne]
  · rcases pair_sublist_or hlink.1 hlink.2.1 hne with hij | hji
    · exact hearlier hij hlink
    · exact (hearlier hji hlink.symm).symm

/-- **Components.**  Clusters are the components of the links if no entry is a bridge, and only
then. -/
theorem IsRooted.together_iff_connected :
    (∀ i j, i ≠ j → (Together (clusters ds) i j ↔ ReflTransGen (Linked S ids) i j)) ↔
      ¬ Bridged S ids (clusters ds) := by
  constructor
  · rintro hall ⟨i, -, j, -, k, -, hne, -, -, hik, hjk, hnot⟩
    exact hnot ((hall i j hne).2 (.tail (.single hik) hjk.symm))
  · intro hbridge i j hne
    refine ⟨h.connected_of_together hne, fun hchain => ?_⟩
    have hroots : rootOf ds i = rootOf ds j := by
      clear hne
      induction hchain with
      | refl => rfl
      | tail _ hlink ih => exact ih.trans (h.rootOf_eq_of_linked hbridge hlink)
    have hi : i ∈ ids := by
      obtain heq | ⟨k, hlink, -⟩ := hchain.cases_head
      · exact absurd heq hne
      · exact hlink.1
    have hj : j ∈ ids := by
      obtain heq | ⟨k, -, hlink⟩ := hchain.cases_tail
      · exact absurd heq.symm hne
      · exact hlink.2.1
    exact (h.together_iff hne).2 ⟨hi, hj, hroots⟩

/-- Where entries have one signature each, all carriers of it have the root of the first. -/
theorem IsRooted.rootOf_carrier (hsingle : ∀ i, ∀ sig ∈ S i, ∀ sig' ∈ S i, sig = sig')
    {sig : Signature} {f j : NodeId} (hf : ids.find? (sig ∈ S ·) = some f) (hj : j ∈ ids)
    (hsig : sig ∈ S j) : rootOf ds j = rootOf ds f := by
  by_cases hne : j = f
  · rw [hne]
  · obtain ⟨hfsig, as, bs, heq, has⟩ := List.find?_eq_some_iff_append.1 hf
    have hfj : [f, j].Sublist ids := by
      rw [heq] at hj ⊢
      have hbs : j ∈ bs := by
        rcases List.mem_append.1 hj with hj | hj
        · exact absurd hsig (by simpa using has j hj)
        · exact (List.mem_cons.1 hj).resolve_left hne
      exact ((List.singleton_sublist.2 hbs).cons_cons f).trans (List.sublist_append_right as _)
    have hlink : Linked S ids f j :=
      ⟨List.mem_of_find?_eq_some hf, hj, sig, by simpa using hfsig, hsig⟩
    obtain ⟨sig', hsig', i', hfind, -, hroot⟩ := h.first f j hfj hlink
    obtain rfl := hsingle j sig hsig sig' hsig'
    obtain rfl := Option.some.inj (hf.symm.trans hfind)
    exact hroot.symm

theorem IsRooted.not_bridged (hsingle : ∀ i, ∀ sig ∈ S i, ∀ sig' ∈ S i, sig = sig') :
    ¬ Bridged S ids (clusters ds) := by
  rintro ⟨i, hi, j, hj, k, -, hij, -, -, ⟨-, -, sig, hsi, hsk⟩, ⟨-, -, sig', hsj, hsk'⟩, hnot⟩
  obtain rfl := hsingle k sig hsk sig' hsk'
  have hsome : (ids.find? (sig ∈ S ·)).isSome := List.find?_isSome.2 ⟨i, hi, by simpa using hsi⟩
  obtain ⟨f, hf⟩ := Option.isSome_iff_exists.1 hsome
  refine hnot ((h.together_iff hij).2 ⟨hi, hj, ?_⟩)
  rw [h.rootOf_carrier hsingle hf hi hsi, h.rootOf_carrier hsingle hf hj hsj]

end

end Duplicates

/-! ## documents -/

namespace Document

/-- Two entries have an equal signature under one of the rules. -/
def Linked (d : Document) (index : FieldIndex) (rules : List DuplicateRule) :
    NodeId → NodeId → Prop :=
  Duplicates.Linked (Duplicates.signatures d index rules) d.entryIds

instance (d : Document) (index : FieldIndex) (rules : List DuplicateRule) (i j : NodeId) :
    Decidable (d.Linked index rules i j) :=
  inferInstanceAs (Decidable (Duplicates.Linked (Duplicates.signatures d index rules) _ i j))

/-- An entry is linked to two earlier ones that are found to be in different clusters. -/
def Bridged (d : Document) (index : FieldIndex) (rules : List DuplicateRule) : Prop :=
  Duplicates.Bridged (Duplicates.signatures d index rules) d.entryIds
    (d.detect index rules).clusters

instance (d : Document) (index : FieldIndex) (rules : List DuplicateRule) :
    Decidable (d.Bridged index rules) :=
  inferInstanceAs (Decidable (Duplicates.Bridged (Duplicates.signatures d index rules) _ _))

theorem nodup_entryIds {d : Document} (h : d.order.Nodup) : d.entryIds.Nodup :=
  d.entryIds_eq ▸ h.filter _

/-- Under one rule there are no bridges. -/
theorem not_bridged_singleton {d : Document} (h : d.order.Nodup) (index : FieldIndex)
    (rule : DuplicateRule) : ¬ d.Bridged index [rule] := by
  have hrooted := Duplicates.isRooted_find (Duplicates.signatures d index [rule]) (nodup_entryIds h)
  refine hrooted.not_bridged fun i sig hsig sig' hsig' => ?_
  simp only [Duplicates.signatures, List.mem_filterMap, List.mem_filter, List.mem_singleton,
    decide_eq_true_eq] at hsig hsig'
  obtain ⟨_, ⟨-, rfl⟩, hsome⟩ := hsig
  obtain ⟨_, ⟨-, rfl⟩, hsome'⟩ := hsig'
  exact Option.some.inj (hsome.symm.trans hsome')

/-- **Clusters.**  A cluster has two entries or more, in the order of the document, and no entry is in
two clusters.  Entries of one cluster are connected by links, and an entry that is linked to an
earlier one is in a cluster with an earlier one that it is linked to.  Two entries are together just
if links connect them, for all entries, exactly if no entry is a bridge. -/
theorem clusters_detect (d : Document) (index : FieldIndex) (rules : List DuplicateRule)
    (h : d.order.Nodup) :
    let cs := (d.detect index rules).clusters
    (∀ c ∈ cs, c.entries.Sublist d.entryIds ∧ 2 ≤ c.entries.length) ∧
    cs.Pairwise (fun c c' => c.entries.Disjoint c'.entries) ∧
    (∀ i j, i ≠ j → Duplicates.Together cs i j → ReflTransGen (d.Linked index rules) i j) ∧
    (∀ i j, [i, j].Sublist d.entryIds → d.Linked index rules i j →
      ∃ i', [i', j].Sublist d.entryIds ∧ d.Linked index rules i' j ∧ Duplicates.Together cs i' j) ∧
    ((∀ i j, i ≠ j → (Duplicates.Together cs i j ↔ ReflTransGen (d.Linked index rules) i j)) ↔
      ¬ d.Bridged index rules) := by
  intro cs
  have hids := nodup_entryIds h
  have hrooted := Duplicates.isRooted_find (Duplicates.signatures d index rules) hids
  refine ⟨fun c hc => ⟨hrooted.entries_sublist hc, Duplicates.two_le_length_entries hc⟩,
    hrooted.disjoint, fun i j hij => hrooted.connected_of_together hij, fun i j hij hlink => ?_,
    hrooted.together_iff_connected⟩
  obtain ⟨i', hi'j, hlink', hroot⟩ := hrooted.exists_together hij hlink
  have hne : i' ≠ j := by simpa using hids.sublist hi'j
  exact ⟨i', hi'j, hlink', (hrooted.together_iff hne).2 ⟨hlink'.1, hlink'.2.1, hroot⟩⟩

/-- The second of three entries is linked to both of the others, and they are one cluster. -/
theorem clusters_detect_chain :
    let d := (parse
      "@a\x7ba, doi = 1\x7d @b\x7bb, doi = 1, abstract = x\x7d @c\x7bc, abstract = x\x7d".toList).1
    let rules : List DuplicateRule := [.doi, .abstractText]
    d.order.Nodup ∧ ¬ d.Bridged (.build d) rules ∧
      (d.detect (.build d) rules).clusters = [⟨0, [2, 4]⟩] ∧
      ∀ i j, i ≠ j → (Duplicates.Together (d.detect (.build d) rules).clusters i j ↔
        ReflTransGen (d.Linked (.build d) rules) i j) := by
  intro d rules
  have hnodup : d.order.Nodup := by decide +kernel
  have hbridge : ¬ d.Bridged (.build d) rules := by decide +kernel
  obtain ⟨-, -, -, -, hcomponents⟩ := clusters_detect d (.build d) rules hnodup
  exact ⟨hnodup, hbridge, by decide +kernel, hcomponents.2 hbridge⟩

/-- **Clusters are not united.**  The last of three entries is linked to both of the others.  It joins
the cluster of the first, and the second stays alone. -/
theorem clusters_detect_bridge :
    let d := (parse
      ("@a\x7ba, doi = \x7b1\x7d\x7d @b\x7bb, abstract = \x7bx\x7d\x7d " ++
        "@c\x7bc, doi = \x7b1\x7d, abstract = \x7bx\x7d\x7d").toList).1
    let rules : List DuplicateRule := [.doi, .abstractText]
    let cs := (d.detect (.build d) rules).clusters
    cs = [⟨0, [4]⟩] ∧ ReflTransGen (d.Linked (.build d) rules) 0 2 ∧
      ¬ Duplicates.Together cs 0 2 := by
  intro d rules cs
  have hlast : d.Linked (.build d) rules 0 4 := by decide +kernel
  have hback : d.Linked (.build d) rules 4 2 := by decide +kernel
  exact ⟨by decide +kernel, .head hlast (.single hback), by decide +kernel⟩

end Document

end Bibliography
