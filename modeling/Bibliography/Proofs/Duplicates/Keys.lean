import Bibliography.Proofs.Duplicates.Records
import Bibliography.Proofs.Parse.Findings
import Bibliography.Proofs.Unicode.Folding

/-!
# Bibliography.Proofs.Duplicates.Keys

Two ways to find entries with one citation key.  The check of keys compares them up to
case folding, the search for duplicates under the rule of keys by their lower case.
Both take the first entry of a key for the original (`Document.original?`), so they
differ in nothing but the form of a key that they compare.

Folding is the coarser form.  So every entry that the search finds is reported by the
check, but where two keys fold to the same and have not one lower case, as straße and
STRASSE, the check alone names the pair.

* `Duplicates.checkKeys_eq` — the reports;
* `Document.exists_cluster_iff` — the clusters;
* `Document.checkKeys_detect` — when they agree.
-/

namespace Bibliography

namespace Document

/-- The citation key of an entry that was read has a character. -/
theorem key_ne_nil_of_parse {s key : Text} {id : NodeId}
    (h : key? (parse s).1 id = some key) : key ≠ [] := by
  unfold key? entry? node? at h
  cases hnode : (parse s).1.nodes[id]? with
  | none =>
      rw [hnode] at h
      cases h
  | some n =>
      rw [hnode] at h
      cases n with
      | text t => cases h
      | block b =>
          obtain ⟨hid, hget⟩ := List.getElem?_eq_some_iff.1 hnode
          have hsplit : (parse s).1.nodes =
              (parse s).1.nodes.take id ++ .block b :: (parse s).1.nodes.drop (id + 1) := by
            rw [← hget, List.getElem_cons_drop, List.take_append_drop]
          obtain ⟨u, causes, hread, -⟩ := exists_read hsplit
          exact (Block.isRun_key_of_read? hread h).1

/-! ## the original of an entry -/

/-- Two entries have citation keys of one form. -/
def SameKey (form : Text → Text) (d : Document) (i j : NodeId) : Prop :=
  ∃ k, (d.key? i).map form = some k ∧ (d.key? j).map form = some k

instance (form : Text → Text) (d : Document) (i j : NodeId) : Decidable (d.SameKey form i j) :=
  decidable_of_iff (((d.key? j).map form).isSome = true ∧
      (d.key? i).map form = (d.key? j).map form) <| by
    unfold SameKey
    cases (d.key? j).map form <;> simp

/-- The first entry, of those before one, that has a key of the same form. -/
def original? (form : Text → Text) (d : Document) (j : NodeId) : Option NodeId :=
  (d.earlier j).find? fun i => d.SameKey form i j

/-- The report of an entry whose citation key an earlier one has. -/
def keyWarning (d : Document) (i j : NodeId) : Warning :=
  ⟨.duplicateKey ((d.key? j).getD []), some (d.entryRef j), some (d.entryRef i)⟩

variable {d : Document} {form : Text → Text} {i j k : NodeId}

theorem SameKey.symm (h : d.SameKey form i j) : d.SameKey form j i :=
  let ⟨key, hi, hj⟩ := h
  ⟨key, hj, hi⟩

theorem SameKey.trans (h : d.SameKey form i j) (h' : d.SameKey form j k) : d.SameKey form i k := by
  obtain ⟨key, hi, hj⟩ := h
  obtain ⟨key', hj', hk⟩ := h'
  exact ⟨key, hi, Option.some.inj (hj'.symm.trans hj) ▸ hk⟩

theorem SameKey.comm_congr (h : d.SameKey form i j) (k : NodeId) :
    d.SameKey form k i ↔ d.SameKey form k j :=
  ⟨(·.trans h), (·.trans h.symm)⟩

theorem of_original?_eq_some (h : d.original? form j = some i) :
    i ∈ d.earlier j ∧ d.SameKey form i j :=
  ⟨List.mem_of_find?_eq_some h, by simpa using List.find?_some h⟩

/-- **Originals are first**: they have no original. -/
theorem original?_of_original? (horder : d.order.Nodup) (hj : j ∈ d.entryIds)
    (h : d.original? form j = some i) : d.original? form i = none := by
  obtain ⟨before, after, hids⟩ := List.append_of_mem hj
  have hearlier := earlier_eq horder hids
  obtain ⟨hsame, first, later, hsplit, hfirst⟩ := List.find?_eq_some_iff_append.1 h
  rw [hearlier] at hsplit
  have hids' : d.entryIds = first ++ i :: (later ++ j :: after) := by
    rw [hids, hsplit, List.append_assoc, List.cons_append]
  unfold original?
  rw [earlier_eq horder hids', List.find?_eq_none]
  intro k hk hki
  have hkj := (of_decide_eq_true hki).trans (of_decide_eq_true hsame)
  simpa [hkj] using hfirst k hk

/-- An entry is the first of its key, or the first of its key is its original. -/
theorem eq_or_original?_eq_some (horder : d.order.Nodup) (hj : j ∈ d.entryIds)
    (hfirst : d.entryIds.find? (fun i => d.SameKey form i j) = some i) :
    i = j ∨ d.original? form j = some i := by
  obtain ⟨before, after, hids⟩ := List.append_of_mem hj
  have hself : d.SameKey form j j := by
    have hsame : d.SameKey form i j := by simpa using List.find?_some hfirst
    exact hsame.symm.trans hsame
  rw [hids, List.find?_append, List.find?_cons_of_pos (by simpa using hself)] at hfirst
  unfold original?
  rw [earlier_eq horder hids]
  cases hfound : before.find? fun i => d.SameKey form i j with
  | none =>
      rw [hfound] at hfirst
      exact .inl (Option.some.inj hfirst).symm
  | some i' =>
      rw [hfound] at hfirst
      exact .inr hfirst

end Document

namespace Duplicates

open Document

variable {d : Document}

/-! ## reports -/

/-- An entry with its citation key, if it has one. -/
def withKey? (d : Document) (id : NodeId) : Option (NodeId × Text) := (d.key? id).map (id, ·)

theorem keyed_eq (d : Document) : d.keyed = d.entryIds.filterMap (withKey? d) := by
  unfold keyed entryIds entries
  rw [List.map_filterMap, List.filterMap_filterMap, List.filterMap_filterMap]
  refine List.filterMap_congr fun id _ => ?_
  unfold withKey? key?
  cases he : d.entry? id with
  | none => rfl
  | some e => simp [he]

theorem any_withKey? {i j : NodeId} {key : Text} (hkey : d.key? j = some key) :
    (withKey? d i).any (fun p => p.2.eqIgnoreCase key) = decide (d.SameKey Text.caseFold i j) := by
  unfold withKey?
  rw [Bool.eq_iff_iff, decide_eq_true_iff, SameKey, hkey]
  cases d.key? i <;> simp [Text.eqIgnoreCase, eq_comm]

/-- The first entry with the folding of a key, among those before one that has the key. -/
theorem find?_withKey? (d : Document) (before : List NodeId) {j : NodeId} {key : Text}
    (hkey : d.key? j = some key) :
    (before.filterMap (withKey? d)).find? (fun p => p.2.eqIgnoreCase key) =
      (before.find? fun i => d.SameKey Text.caseFold i j).bind (withKey? d) := by
  rw [List.find?_filterMap]
  congr 2
  funext i
  exact any_withKey? hkey

/-- What a scan has seen answers for every key as the entries before do. -/
def Seen (d : Document) (seen : List (NodeId × Text)) (before : List NodeId) : Prop :=
  ∀ key : Text, seen.find? (fun p => p.2.eqIgnoreCase key) =
    (before.filterMap (withKey? d)).find? fun p => p.2.eqIgnoreCase key

variable {seen : List (NodeId × Text)} {before after : List NodeId} {i j : NodeId} {key : Text}

theorem Seen.skip (h : Seen d seen before) (hj : withKey? d j = none) :
    Seen d seen (before ++ [j]) := by
  intro key
  rw [h, List.filterMap_append, List.filterMap_cons_none hj, List.filterMap_nil, List.append_nil]

theorem Seen.add (h : Seen d seen before) (hj : withKey? d j = some (j, key)) :
    Seen d (seen ++ [(j, key)]) (before ++ [j]) := by
  intro key'
  rw [List.find?_append, h, List.filterMap_append, List.find?_append,
    List.filterMap_cons_some hj, List.filterMap_nil]

/-- A key that was seen before need not be kept. -/
theorem Seen.repeated (h : Seen d seen before) (hj : withKey? d j = some (j, key))
    (hfound : (seen.find? fun p => p.2.eqIgnoreCase key).isSome = true) :
    Seen d seen (before ++ [j]) := by
  intro key'
  rw [h, List.filterMap_append, List.find?_append, List.filterMap_cons_some hj,
    List.filterMap_nil]
  by_cases hsame : key.eqIgnoreCase key' = true
  · have hkeys (p : NodeId × Text) : p.2.eqIgnoreCase key' = p.2.eqIgnoreCase key := by
      unfold Text.eqIgnoreCase at hsame ⊢
      rw [of_decide_eq_true hsame]
    rw [h] at hfound
    obtain ⟨first, hfirst⟩ := Option.isSome_iff_exists.1 hfound
    simp only [hkeys, hfirst, Option.some_or]
  · have hnone : [(j, key)].find? (fun p => p.2.eqIgnoreCase key') = none := by simp [hsame]
    rw [hnone, Option.or_none]

/-- **The rest of a scan** that has seen the entries before. -/
theorem repeatedKeys_eq (horder : d.order.Nodup) (hids : d.entryIds = before ++ after)
    (hseen : Seen d seen before) :
    repeatedKeys seen (after.filterMap (withKey? d)) =
      after.filterMap fun j => (d.original? Text.caseFold j).map fun i => d.keyWarning i j := by
  induction after generalizing seen before with
  | nil => rfl
  | cons j after ih =>
      have hids' : d.entryIds = (before ++ [j]) ++ after := by simpa using hids
      cases hkey : d.key? j with
      | none =>
          have hskip : withKey? d j = none := by rw [withKey?, hkey]; rfl
          have hnone : d.original? Text.caseFold j = none := by
            refine List.find?_eq_none.2 fun i _ => ?_
            simp [SameKey, hkey]
          rw [List.filterMap_cons_none hskip, List.filterMap_cons_none (by rw [hnone]; rfl)]
          exact ih hids' (hseen.skip hskip)
      | some key =>
          have hj : withKey? d j = some (j, key) := by rw [withKey?, hkey]; rfl
          have hfound : seen.find? (fun p => p.2.eqIgnoreCase key) =
              (d.original? Text.caseFold j).bind (withKey? d) := by
            rw [hseen, find?_withKey? d before hkey, original?, earlier_eq horder hids]
          rw [List.filterMap_cons_some hj, repeatedKeys]
          cases horiginal : d.original? Text.caseFold j with
          | none =>
              rw [horiginal] at hfound
              rw [hfound, List.filterMap_cons_none (by rw [horiginal]; rfl)]
              exact ih hids' (hseen.add hj)
          | some i =>
              obtain ⟨-, key', hi, -⟩ := of_original?_eq_some horiginal
              obtain ⟨first, hfirst, -⟩ := Option.map_eq_some_iff.1 hi
              have hwith : withKey? d i = some (i, first) := by rw [withKey?, hfirst]; rfl
              rw [horiginal, Option.bind_some, hwith] at hfound
              rw [hfound, List.filterMap_cons_some (by rw [horiginal]; rfl)]
              have hrest := ih hids' (hseen.repeated hj (by rw [hfound]; rfl))
              simp only [hrest, keyWarning, entryRef, hkey, hfirst, Option.getD_some]

/-- **The reports**: every entry that has an original, in the order of the document. -/
theorem checkKeys_eq (horder : d.order.Nodup) :
    checkKeys d = d.entryIds.filterMap fun j =>
      (d.original? Text.caseFold j).map fun i => d.keyWarning i j := by
  rw [checkKeys, keyed_eq]
  exact repeatedKeys_eq horder (List.nil_append _).symm fun _ => rfl

theorem keyWarning_mem_checkKeys (horder : d.order.Nodup) :
    d.keyWarning i j ∈ checkKeys d ↔ j ∈ d.entryIds ∧ d.original? Text.caseFold j = some i := by
  rw [checkKeys_eq horder, List.mem_filterMap]
  constructor
  · rintro ⟨j', hj', hsome⟩
    obtain ⟨i', hi', heq⟩ := Option.map_eq_some_iff.1 hsome
    simp only [keyWarning, entryRef, Warning.mk.injEq, Option.some.injEq, EntryRef.mk.injEq] at heq
    obtain ⟨-, ⟨rfl, -⟩, rfl, -⟩ := heq
    exact ⟨hj', hi'⟩
  · rintro ⟨hj, hi⟩
    exact ⟨j, hj, by rw [hi]; rfl⟩

end Duplicates

namespace Document

open Duplicates

variable {d : Document} {index : FieldIndex} {i j : NodeId}

/-! ## clusters -/

theorem shares_key_iff (hkeys : ∀ id, ∀ key ∈ d.key? id, key ≠ []) :
    d.Shares index .key i j ↔ d.SameKey Text.toLower i j := by
  have hsignature (id : NodeId) : signature? d index id .key =
      ((d.key? id).map Text.toLower).map (DuplicateRule.key, ·) := by
    unfold signature? compared?
    cases hkey : d.key? id with
    | none => rfl
    | some key => simp [Option.filter, Text.toLower_ne_nil (hkeys id key hkey)]
  unfold Shares SameKey
  rw [hsignature, hsignature]
  constructor
  · rintro ⟨sig, hi, hj⟩
    obtain ⟨k, hk, rfl⟩ := Option.map_eq_some_iff.1 hi
    obtain ⟨k', hk', heq⟩ := Option.map_eq_some_iff.1 hj
    obtain rfl := (Prod.mk.inj heq).2
    exact ⟨k', hk, hk'⟩
  · rintro ⟨k, hi, hj⟩
    exact ⟨(.key, k), by rw [hi]; rfl, by rw [hj]; rfl⟩

/-- Under the rule of keys an entry matches its original. -/
theorem match?_key (hkeys : ∀ id, ∀ key ∈ d.key? id, key ≠ []) (j : NodeId) :
    d.match? index [.key] j = (d.original? Text.toLower j).map (.key, ·) := by
  have hrules : DuplicateRule.all.filter (· ∈ [DuplicateRule.key]) = [.key] := by decide
  unfold match? original?
  rw [hrules, List.findSome?_singleton]
  simp only [shares_key_iff hkeys]

/-- **The clusters**: every entry that has an original is in the cluster of it. -/
theorem exists_cluster_iff (horder : d.order.Nodup) (hkeys : ∀ id, ∀ key ∈ d.key? id, key ≠ []) :
    (∃ c ∈ (d.detect index [.key]).clusters, c.root = i ∧ j ∈ c.members) ↔
      j ∈ d.entryIds ∧ d.original? Text.toLower j = some i := by
  have hroot {i j : NodeId} (hj : j ∈ d.entryIds) (h : d.original? Text.toLower j = some i) :
      rootOf (ofDocument d index [.key]) i = i := by
    have hi : i ∈ d.entryIds := (List.takeWhile_sublist _).subset (of_original?_eq_some h).1
    rw [rootOf, find?_ofDocument horder hi, match?_key hkeys, original?_of_original? horder hj h]
    rfl
  refine exists_mem_members_iff.trans ?_
  constructor
  · rintro ⟨dup, hdup, rfl, rfl⟩
    obtain ⟨hj, i, hmatch, heq⟩ := (mem_ofDocument_iff horder).1 hdup
    rw [match?_key hkeys] at hmatch
    obtain ⟨i', horiginal, hpair⟩ := Option.map_eq_some_iff.1 hmatch
    obtain rfl := (Prod.mk.inj hpair).2
    rw [heq, hroot hj horiginal]
    exact ⟨hj, horiginal⟩
  · rintro ⟨hj, h⟩
    refine ⟨⟨j, i, .key⟩, (mem_ofDocument_iff horder).2 ⟨hj, i, ?_, ?_⟩, rfl, rfl⟩
    · rw [match?_key hkeys, h]
      rfl
    · exact (hroot hj h).symm

/-! ## both together -/

/-- The check of keys reports the members of the clusters under the rule of keys, each with the root
of its cluster. -/
def AgreesOnKeys (d : Document) (index : FieldIndex) : Prop :=
  ∀ i j, d.keyWarning i j ∈ checkKeys d ↔
    ∃ c ∈ (d.detect index [.key]).clusters, c.root = i ∧ j ∈ c.members

/-- Keys that have one lower case fold to the same. -/
theorem SameKey.caseFold (h : d.SameKey Text.toLower i j) : d.SameKey Text.caseFold i j := by
  obtain ⟨k, hi, hj⟩ := h
  obtain ⟨key, hkey, rfl⟩ := Option.map_eq_some_iff.1 hi
  obtain ⟨key', hkey', heq⟩ := Option.map_eq_some_iff.1 hj
  exact ⟨key.caseFold, by rw [hkey]; rfl,
    by rw [hkey', Option.map_some, Text.caseFold_eq_of_toLower_eq heq]⟩

/-- Entries with keys of one form share their original, unless they are it. -/
theorem SameKey.exists_first {form : Text → Text} (horder : d.order.Nodup) (hi : i ∈ d.entryIds)
    (hj : j ∈ d.entryIds) (h : d.SameKey form i j) :
    ∃ r, (r = i ∨ d.original? form i = some r) ∧ (r = j ∨ d.original? form j = some r) := by
  have hsome : (d.entryIds.find? fun k => d.SameKey form k j).isSome = true :=
    List.find?_isSome.2 ⟨i, hi, by simpa using h⟩
  obtain ⟨r, hr⟩ := Option.isSome_iff_exists.1 hsome
  refine ⟨r, eq_or_original?_eq_some horder hi ?_, eq_or_original?_eq_some horder hj hr⟩
  simpa only [h.comm_congr] using hr

/-- Where keys that fold to the same have one lower case, originals are the same. -/
theorem original?_congr
    (h : ∀ i ∈ d.entryIds, ∀ j ∈ d.entryIds,
      d.SameKey Text.caseFold i j → d.SameKey Text.toLower i j)
    (hj : j ∈ d.entryIds) : d.original? Text.caseFold j = d.original? Text.toLower j := by
  unfold original?
  rw [← List.head?_filter, ← List.head?_filter]
  refine congrArg List.head? (List.filter_congr fun i hi => ?_)
  rw [decide_eq_decide]
  exact ⟨h i ((List.takeWhile_sublist _).subset hi) j hj, SameKey.caseFold⟩

theorem agreesOnKeys_iff (horder : d.order.Nodup) (hkeys : ∀ id, ∀ key ∈ d.key? id, key ≠ []) :
    d.AgreesOnKeys index ↔ ∀ i ∈ d.entryIds, ∀ j ∈ d.entryIds,
      d.SameKey Text.caseFold i j → d.SameKey Text.toLower i j := by
  unfold AgreesOnKeys
  simp only [keyWarning_mem_checkKeys horder, exists_cluster_iff horder hkeys]
  constructor
  · intro hagree i hi j hj hsame
    obtain ⟨r, hir, hjr⟩ := hsame.exists_first horder hi hj
    -- Each of the two is the first of its key, or has the lower case of the first.
    have hlower {k : NodeId} (hk : k ∈ d.entryIds) (hself : d.SameKey Text.caseFold k k)
        (hkr : r = k ∨ d.original? Text.caseFold k = some r) : d.SameKey Text.toLower r k := by
      obtain rfl | horiginal := hkr
      · obtain ⟨_, hform, -⟩ := hself
        obtain ⟨key, hkey, -⟩ := Option.map_eq_some_iff.1 hform
        exact ⟨key.toLower, by rw [hkey]; rfl, by rw [hkey]; rfl⟩
      · exact (of_original?_eq_some ((hagree r k).1 ⟨hk, horiginal⟩).2).2
    exact (hlower hi (hsame.trans hsame.symm) hir).symm.trans
      (hlower hj (hsame.symm.trans hsame) hjr)
  · intro h i j
    refine and_congr_right fun hj => ?_
    rw [original?_congr h hj]

/-- **Reports and clusters of equal keys.**  Both are of the entries that have an original, the
reports up to folding and the clusters up to lower case.  So the members of clusters are reported,
and reports and clusters agree just if no two keys fold to the same without having one lower
case. -/
theorem checkKeys_detect (s : Text) (index : FieldIndex) :
    let d := (parse s).1
    let clusters := (d.detect index [.key]).clusters
    (checkKeys d = d.entryIds.filterMap fun j =>
      (d.original? Text.caseFold j).map fun i => d.keyWarning i j) ∧
    (∀ i j, (∃ c ∈ clusters, c.root = i ∧ j ∈ c.members) ↔
      j ∈ d.entryIds ∧ d.original? Text.toLower j = some i) ∧
    (∀ c ∈ clusters, ∀ j ∈ c.members,
      ∃ i, d.keyWarning i j ∈ checkKeys d ∧ d.SameKey Text.caseFold i c.root) ∧
    (d.AgreesOnKeys index ↔ ∀ i ∈ d.entryIds, ∀ j ∈ d.entryIds,
      d.SameKey Text.caseFold i j → d.SameKey Text.toLower i j) ∧
    ((∀ id, ∀ key ∈ d.key? id, key.IsFolded) → d.AgreesOnKeys index) := by
  intro d clusters
  have horder : d.order.Nodup := by
    rw [order_parse]
    exact List.nodup_range
  have hkeys : ∀ id, ∀ key ∈ d.key? id, key ≠ [] := fun id key => key_ne_nil_of_parse
  refine ⟨checkKeys_eq horder, fun i j => exists_cluster_iff horder hkeys, ?_,
    agreesOnKeys_iff horder hkeys, ?_⟩
  · intro c hc j hj
    obtain ⟨hentry, hlower⟩ := (exists_cluster_iff horder hkeys).1 ⟨c, hc, rfl, hj⟩
    obtain ⟨hearly, hsame⟩ := of_original?_eq_some hlower
    have hsome : (d.original? Text.caseFold j).isSome = true :=
      List.find?_isSome.2 ⟨c.root, hearly, by simpa using hsame.caseFold⟩
    obtain ⟨i, hi⟩ := Option.isSome_iff_exists.1 hsome
    exact ⟨i, (keyWarning_mem_checkKeys horder).2 ⟨hentry, hi⟩,
      (of_original?_eq_some hi).2.trans hsame.caseFold.symm⟩
  · intro hfolded
    refine (agreesOnKeys_iff horder hkeys).2 fun i _ j _ ⟨k, hi, hj⟩ => ?_
    obtain ⟨key, hkey, rfl⟩ := Option.map_eq_some_iff.1 hi
    obtain ⟨key', hkey', heq⟩ := Option.map_eq_some_iff.1 hj
    refine ⟨key.toLower, by rw [hkey]; rfl, ?_⟩
    rw [hkey', Option.map_some, Option.some.injEq]
    exact (Text.toLower_eq_iff (hfolded j key' hkey') (hfolded i key hkey)).2 heq

/-- Folding leaves the lower case of these keys alone. -/
theorem checkKeys_detect_umlaut :
    let d := (parse "@a\x7bMüller\x7d @b\x7bdoe\x7d @c\x7bMÜLLER\x7d @d\x7bmüller\x7d".toList).1
    (∀ id, ∀ key ∈ d.key? id, key.IsFolded) ∧
      checkKeys d = [d.keyWarning 0 4, d.keyWarning 0 6] ∧ d.AgreesOnKeys (.build d) := by
  intro d
  have hfolded : ∀ id, ∀ key ∈ d.key? id, key.IsFolded := by
    intro id
    by_cases hid : id < d.nodes.length
    · exact (by decide +kernel : ∀ id < d.nodes.length, ∀ key ∈ d.key? id, key.IsFolded) id hid
    · have hnode : d.node? id = none := List.getElem?_eq_none (Nat.le_of_not_lt hid)
      simp [key?, entry?, hnode]
  exact ⟨hfolded, by decide +kernel, (checkKeys_detect _ (.build d)).2.2.2.2 hfolded⟩

/-- The sharp s folds to two letters, and is in lower case as it is. -/
theorem checkKeys_detect_sharpS :
    let d := (parse "@misc\x7bstraße\x7d\n@misc\x7bSTRASSE\x7d".toList).1
    checkKeys d = [d.keyWarning 0 2] ∧ (d.detect (.build d) [.key]).clusters = [] ∧
      ¬ d.AgreesOnKeys (.build d) := by
  intro d
  have hreports : checkKeys d = [d.keyWarning 0 2] := by decide +kernel
  have hclusters : (d.detect (.build d) [.key]).clusters = [] := by decide +kernel
  refine ⟨hreports, hclusters, fun hagree => ?_⟩
  obtain ⟨c, hc, -⟩ := (hagree 0 2).1 (hreports ▸ List.mem_singleton_self _)
  rw [hclusters] at hc
  cases hc

end Document

end Bibliography
