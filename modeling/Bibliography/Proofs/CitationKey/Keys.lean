import Bibliography.Proofs.CitationKey.Suffixes
import Bibliography.Proofs.Duplicates.Clusters

/-!
# Bibliography.Proofs.CitationKey.Keys

The keys that a template gives to the entries of a document.  The keys in use grow
with every entry (`assign_append`), so each entry gets its base with the first suffix
that is free among the keys that are kept and those of the entries before it, and no
two keys are the same in lower case.

* `KeyTemplate.base?_eq_none_iff` — when an entry keeps its key;
* `Document.exists_key?_generateKeys` — the other entries have the keys of the list;
* `Document.generateKeys_unique` — the keys of a document, and that generating them
  again changes nothing.
-/

namespace Bibliography

/-! ## entries that keep their keys -/

namespace CitationKey

/-- Modifiers refuse a value that is empty where it is required. -/
theorem results_eq_none_iff {ms : List Modifier} {value : Text} :
    ms.foldlM Modifier.result? value = none ↔
      ∃ before after, ms = before ++ .required :: after ∧
        before.foldlM Modifier.result? value = some [] := by
  have hfirst (m : Modifier) (value : Text) :
      Modifier.result? value m = none ↔ m = .required ∧ value = [] := by
    cases m <;> simp [Modifier.result?]
  induction ms generalizing value with
  | nil => simp
  | cons m ms ih =>
      rw [List.foldlM_cons]
      constructor
      · intro h
        cases hm : Modifier.result? value m with
        | none =>
            obtain ⟨rfl, rfl⟩ := (hfirst m value).1 hm
            exact ⟨[], ms, rfl, rfl⟩
        | some v =>
            rw [hm] at h
            obtain ⟨before, after, rfl, hbefore⟩ := ih.1 h
            refine ⟨m :: before, after, rfl, ?_⟩
            rw [List.foldlM_cons, hm]
            exact hbefore
      · rintro ⟨before, after, heq, hbefore⟩
        cases before with
        | nil =>
            obtain ⟨rfl, rfl⟩ := List.cons.inj heq
            cases hbefore
            rfl
        | cons n before =>
            obtain ⟨rfl, rfl⟩ := List.cons.inj heq
            rw [List.foldlM_cons] at hbefore
            obtain ⟨v, hm, hbefore⟩ := Option.bind_eq_some_iff.1 hbefore
            rw [hm]
            exact ih.2 ⟨before, after, rfl, hbefore⟩

end CitationKey

namespace KeyTemplate

variable {index : FieldIndex} {id : NodeId} {t : KeyTemplate}

/-- What lets an entry keep its key: a required value of the template is empty for it, or everything
is. -/
def IsEmptyFor (t : KeyTemplate) (index : FieldIndex) (id : NodeId) : Prop :=
  (∃ m before after, .marker m (before ++ .required :: after) ∈ t ∧ m.isSuffixPlace = false ∧
      before.foldlM Modifier.result? (m.value index id) = some []) ∨
    ∀ part ∈ t, ∀ b, part.base? index id = some b → ∀ c, some c ∉ b

theorem mapM_eq_none_iff :
    t.mapM (TemplatePart.base? index id) = none ↔ ∃ part ∈ t, part.base? index id = none := by
  induction t with
  | nil => simp
  | cons part t ih =>
      rw [List.mapM_cons]
      cases hpart : part.base? index id with
      | none => simp [hpart]
      | some b =>
          cases hrest : t.mapM (TemplatePart.base? index id) with
          | none => simp [hpart, ← ih, hrest]
          | some bs => simp [hpart, ← ih, hrest]

/-- A part of a template refuses an entry for a required value only. -/
theorem part_eq_none_iff {part : TemplatePart} : part.base? index id = none ↔
    ∃ m before after, part = .marker m (before ++ .required :: after) ∧ m.isSuffixPlace = false ∧
      before.foldlM Modifier.result? (m.value index id) = some [] := by
  cases part with
  | literal s => simp [TemplatePart.base?]
  | marker m ms =>
      rw [TemplatePart.base?]
      split
      · next hplace => simp [hplace]
      · next hplace =>
        rw [Option.map_eq_none_iff, CitationKey.results_eq_none_iff]
        constructor
        · rintro ⟨before, after, rfl, hbefore⟩
          exact ⟨m, before, after, rfl, Bool.eq_false_iff.2 hplace, hbefore⟩
        · rintro ⟨m, before, after, heq, -, hbefore⟩
          cases heq
          exact ⟨before, after, rfl, hbefore⟩

/-- **An entry keeps its key** exactly if a required value is empty for it, or everything is. -/
theorem base?_eq_none_iff : t.base? index id = none ↔ t.IsEmptyFor index id := by
  have hrequired : (∃ part ∈ t, part.base? index id = none) ↔
      ∃ m before after, .marker m (before ++ .required :: after) ∈ t ∧ m.isSuffixPlace = false ∧
        before.foldlM Modifier.result? (m.value index id) = some [] := by
    simp only [part_eq_none_iff]
    constructor
    · rintro ⟨part, hpart, m, before, after, rfl, h⟩
      exact ⟨m, before, after, hpart, h⟩
    · rintro ⟨m, before, after, hpart, h⟩
      exact ⟨_, hpart, m, before, after, rfl, h⟩
  unfold IsEmptyFor
  rw [← hrequired, ← mapM_eq_none_iff]
  unfold base?
  cases hbases : t.mapM (TemplatePart.base? index id) with
  | none => simp
  | some bases =>
      have hempty : (bases.flatten.any Option.isSome = false) ↔
          ∀ part ∈ t, ∀ b, part.base? index id = some b → ∀ c, some c ∉ b := by
        rw [List.any_eq_false]
        simp only [mem_flatten_iff hbases, Bool.not_eq_true, Option.isSome_eq_false_iff,
          Option.isNone_iff_eq_none]
        constructor
        · intro h part hpart b hb c hc
          cases h (some c) ⟨part, hpart, b, hb, hc⟩
        · rintro h (_ | c) ⟨part, hpart, b, hb, hc⟩
          · rfl
          · exact absurd hc (h part hpart b hb c)
      rw [← hempty, Option.map_some, Option.filter_some]
      cases bases.flatten.any Option.isSome <;> simp

end KeyTemplate

/-! ## assigned keys -/

namespace CitationKey

variable {numbers : Bool}

@[simp] theorem map_fst_assign (used : List Text) (numbers : Bool)
    (bases : List (NodeId × KeyBase)) :
    (assign used numbers bases).map (·.1) = bases.map (·.1) := by
  induction bases generalizing used with
  | nil => rfl
  | cons p bases ih => rw [assign, List.map_cons, ih, List.map_cons]

/-- The keys that the first entries got are in use for the others. -/
theorem assign_append (used : List Text) (numbers : Bool) (bases more : List (NodeId × KeyBase)) :
    assign used numbers (bases ++ more) =
      assign used numbers bases ++
        assign (((assign used numbers bases).map fun p => p.2.toLower).reverse ++ used) numbers
          more := by
  induction bases generalizing used with
  | nil => rfl
  | cons p bases ih =>
      rw [List.cons_append, assign, assign, ih]
      simp

/-- **Assigned keys** are not in use, and no two of them are the same in lower case. -/
theorem pairwise_assign (used : List Text) (numbers : Bool) {bases : List (NodeId × KeyBase)}
    (h : ∀ p ∈ bases, ∀ c, some c ∈ p.2 → IsPlain c) :
    (∀ p ∈ assign used numbers bases, p.2.toLower ∉ used) ∧
      (assign used numbers bases).Pairwise fun p q => p.2.toLower ≠ q.2.toLower := by
  induction bases generalizing used with
  | nil => exact ⟨List.forall_mem_nil _, .nil⟩
  | cons p bases ih =>
      obtain ⟨hbase, hbases⟩ := List.forall_mem_cons.1 h
      obtain ⟨n, hfirst⟩ := isFirstFree_firstFree hbase used numbers
      rw [assign]
      obtain ⟨hfree, hpairwise⟩ := ih ((firstFree used numbers p.2).toLower :: used) hbases
      refine ⟨List.forall_mem_cons.2 ⟨hfirst.free, fun q hq hused => ?_⟩,
        List.pairwise_cons.2 ⟨fun q hq heq => ?_, hpairwise⟩⟩
      · exact hfree q hq (List.mem_cons_of_mem _ hused)
      · exact hfree q hq (heq ▸ List.mem_cons_self)

theorem IsFirstFree.congr {used used' : List Text} {base : KeyBase} {key : Text} {n : Nat}
    (h : IsFirstFree used numbers base key n) (hused : ∀ k, k ∈ used ↔ k ∈ used') :
    IsFirstFree used' numbers base key n := by
  have hcard : used.toFinset = used'.toFinset := by
    ext k
    rw [List.mem_toFinset, List.mem_toFinset, hused]
  exact ⟨h.key_eq, fun hk => h.free ((hused _).2 hk), fun m hm => (hused _).1 (h.taken m hm),
    hcard ▸ h.bound⟩

end CitationKey

/-! ## keys of documents -/

namespace Document

open CitationKey

variable {d : Document} {keys : List (NodeId × Text)} {id : NodeId} {key : Text}

theorem key?_editEntry_setKey (key : Option Text) (d : Document) (i id : NodeId) :
    (d.editEntry (Entry.setKey key) i).1.key? id =
      if id = i ∧ (d.entry? id).isSome = true then key else d.key? id := by
  unfold key? entry? editEntry
  by_cases hid : id = i
  · subst hid
    rw [node?_editNode]
    cases d.node? id with
    | none => simp
    | some n =>
        rw [Option.map_some, Option.bind_some, Option.bind_some, Node.entry?_editEntry]
        cases n.entry? with
        | none => simp
        | some e => simp [Entry.setKey]
  · rw [node?_editNode_of_ne _ d hid, if_neg fun h => hid h.1]

theorem isSome_entry?_setKeys (keys : List (NodeId × Text)) (d : Document) (id : NodeId) :
    (Document.entry? (setKeys keys d).1 id).isSome = (d.entry? id).isSome := by
  have h := congrArg Option.isSome (fields_setKeys keys d id)
  rwa [Option.isSome_map, Option.isSome_map] at h

theorem node?_setKeys_of_not_mem (d : Document) (h : id ∉ keys.map (·.1)) :
    (setKeys keys d).1.node? id = d.node? id := by
  induction keys generalizing d with
  | nil => rfl
  | cons p keys ih =>
      rw [List.map_cons, List.mem_cons, not_or] at h
      exact (ih _ h.2).trans (node?_editNode_of_ne _ d h.1)

/-- An entry that is given a key has it, and has the last of several. -/
theorem exists_key?_setKeys (d : Document) (hentry : (d.entry? id).isSome = true)
    (h : id ∈ keys.map (·.1)) : ∃ key, (id, key) ∈ keys ∧ (setKeys keys d).1.key? id = some key := by
  induction keys generalizing d with
  | nil => cases h
  | cons p keys ih =>
      by_cases hlater : id ∈ keys.map (·.1)
      · have hentry' := (isSome_entry?_setKeys [p] d id).trans hentry
        obtain ⟨key, hmem, hkey⟩ := ih _ hentry' hlater
        exact ⟨key, List.mem_cons_of_mem p hmem, hkey⟩
      · obtain ⟨i, key⟩ := p
        obtain rfl : id = i := by simpa [hlater] using h
        refine ⟨key, List.mem_cons_self, ?_⟩
        have hkey := key?_editEntry_setKey (some key) d id id
        rw [if_pos ⟨rfl, hentry⟩] at hkey
        unfold key? entry? at hkey ⊢
        rwa [setKeys, node?_setKeys_of_not_mem _ hlater]

/-- Entries that have their keys are left alone. -/
theorem setKeys_eq_self (h : ∀ p ∈ keys, d.key? p.1 = some p.2) : setKeys keys d = (d, []) := by
  induction keys with
  | nil => rfl
  | cons p keys ih =>
      obtain ⟨hkey, hkeys⟩ := List.forall_mem_cons.1 h
      have hedit : d.editEntry (Entry.setKey (some p.2)) p.1 = (d, false) := by
        refine editNode_eq_self fun n hn => ?_
        have hn : d.node? p.1 = some n := hn
        unfold key? entry? at hkey
        rw [hn, Option.bind_some] at hkey
        have hsnd : (n.editEntry (Entry.setKey (some p.2))).2 = false := by
          rw [Node.snd_editEntry]
          cases he : n.entry? with
          | none => rfl
          | some e =>
              rw [he, Option.bind_some] at hkey
              simp [Entry.setKey, hkey]
        exact Prod.ext (Node.editEntry_eq_self (isExact_setKey _).isHonest hsnd) hsnd
      rw [setKeys, hedit]
      dsimp only
      rw [ih hkeys]
      rfl

/-! ## generated keys -/

variable {index : FieldIndex} {t : KeyTemplate}

/-- The bases of the entries that do not keep their keys. -/
def basesOf (index : FieldIndex) (t : KeyTemplate) (ids : List NodeId) : List (NodeId × KeyBase) :=
  ids.filterMap fun id => (t.base? index id).map (id, ·)

theorem map_fst_basesOf (ids : List NodeId) :
    (basesOf index t ids).map (·.1) = ids.filter fun id => (t.base? index id).isSome :=
  map_fst_filterMap _ ids

theorem isPlain_of_mem_basesOf (index : FieldIndex) (t : KeyTemplate) (ids : List NodeId) :
    ∀ p ∈ basesOf index t ids, ∀ c, some c ∈ p.2 → IsPlain c := by
  intro p hp
  obtain ⟨id, -, hid⟩ := List.mem_filterMap.1 hp
  obtain ⟨base, hbase, rfl⟩ := Option.map_eq_some_iff.1 hid
  exact KeyTemplate.isPlain_base hbase

theorem map_fst_keysFor (d : Document) (index : FieldIndex) (t : KeyTemplate) :
    (d.keysFor index t).map (·.1) = d.entryIds.filter fun id => (t.base? index id).isSome := by
  rw [keysFor, map_fst_assign]
  exact map_fst_basesOf d.entryIds

/-- **An entry for which the template gives a base** has a key of the list. -/
theorem exists_key?_generateKeys (hid : id ∈ d.entryIds) {base : KeyBase}
    (hbase : t.base? index id = some base) :
    ∃ key, (id, key) ∈ d.keysFor index t ∧ (d.generateKeys index t).1.key? id = some key := by
  refine exists_key?_setKeys d ?_ ?_
  · rw [entryIds_eq] at hid
    exact (List.mem_filter.1 hid).2
  · rw [map_fst_keysFor]
    exact List.mem_filter.2 ⟨hid, by rw [hbase]; rfl⟩

/-- It has no other one, if no entry stands in the document twice. -/
theorem key?_of_mem_keysFor (h : d.order.Nodup) (hmem : (id, key) ∈ d.keysFor index t) :
    (d.generateKeys index t).1.key? id = some key := by
  have hid : id ∈ (d.keysFor index t).map (·.1) := List.mem_map_of_mem hmem
  have hnodup : ((d.keysFor index t).map (·.1)).Nodup := by
    rw [map_fst_keysFor]
    exact (nodup_entryIds h).filter _
  rw [map_fst_keysFor, List.mem_filter] at hid
  obtain ⟨base, hbase⟩ := Option.isSome_iff_exists.1 hid.2
  obtain ⟨key', hmem', hkey⟩ := exists_key?_generateKeys (d := d) hid.1 hbase
  obtain rfl : key' = key := congrArg Prod.snd (List.inj_on_of_nodup_map hnodup hmem' hmem rfl)
  exact hkey

theorem node?_generateKeys (h : id ∉ d.entryIds ∨ t.base? index id = none) :
    (d.generateKeys index t).1.node? id = d.node? id := by
  refine node?_setKeys_of_not_mem d ?_
  rw [map_fst_keysFor, List.mem_filter]
  rintro ⟨hid, hsome⟩
  obtain h | h := h
  · exact h hid
  · simp [h] at hsome

theorem order_setKeys (keys : List (NodeId × Text)) (d : Document) :
    (setKeys keys d).1.order = d.order := by
  induction keys generalizing d with
  | nil => rfl
  | cons p keys ih => exact (ih _).trans (order_editNode _ p.1 d)

theorem entryIds_generateKeys : (d.generateKeys index t).1.entryIds = d.entryIds := by
  rw [entryIds_eq, entryIds_eq, generateKeys, order_setKeys]
  exact List.filter_congr fun id _ => isSome_entry?_setKeys _ d id

/-- The keys of the list are those of the next list. -/
theorem keysFor_generateKeys :
    (d.generateKeys index t).1.keysFor index t = d.keysFor index t := by
  have hkept : (d.generateKeys index t).1.keptKeys index t = d.keptKeys index t := by
    unfold keptKeys
    rw [entryIds_generateKeys]
    refine List.filterMap_congr fun id hid => ?_
    have hnone : t.base? index id = none := by simpa using (List.mem_filter.1 hid).2
    unfold key? entry?
    rw [node?_generateKeys (.inr hnone)]
  unfold keysFor
  rw [hkept, entryIds_generateKeys]

/-- The keys in use when an entry gets its key, in lower case: those of the entries that keep theirs,
and those that the entries before it have in another document. -/
def keysInUse (d : Document) (index : FieldIndex) (t : KeyTemplate) (d' : Document)
    (before : List NodeId) : List Text :=
  d.keptKeys index t ++
    (before.filter fun id => (t.base? index id).isSome).filterMap fun id =>
      (d'.key? id).map Text.toLower

/-- **Each entry gets the first free key.** -/
theorem exists_isFirstFree (h : d.order.Nodup) {before after : List NodeId} {base : KeyBase}
    (hids : d.entryIds = before ++ id :: after) (hbase : t.base? index id = some base) :
    ∃ key n, (d.generateKeys index t).1.key? id = some key ∧
      IsFirstFree (d.keysInUse index t (d.generateKeys index t).1 before) t.usesNumbers base key
        n := by
  let kept := d.keptKeys index t
  let given := assign kept t.usesNumbers (basesOf index t before)
  let used := (given.map fun p => p.2.toLower).reverse ++ kept
  have hbases : basesOf index t d.entryIds =
      basesOf index t before ++ (id, base) :: basesOf index t after := by
    unfold basesOf
    rw [hids, List.filterMap_append, List.filterMap_cons, hbase]
    rfl
  have hkeys : d.keysFor index t = given ++ (id, firstFree used t.usesNumbers base) ::
      assign ((firstFree used t.usesNumbers base).toLower :: used) t.usesNumbers
        (basesOf index t after) := by
    have happend := assign_append kept t.usesNumbers (basesOf index t before)
      ((id, base) :: basesOf index t after)
    rwa [← hbases, assign] at happend
  have hkey : ∀ p ∈ given, (d.generateKeys index t).1.key? p.1 = some p.2 := fun p hp =>
    key?_of_mem_keysFor h (by rw [hkeys]; exact List.mem_append_left _ hp)
  obtain ⟨n, hfirst⟩ := isFirstFree_firstFree (KeyTemplate.isPlain_base hbase) used t.usesNumbers
  refine ⟨_, n, key?_of_mem_keysFor h (by rw [hkeys]; simp), hfirst.congr fun k => ?_⟩
  -- The keys that were given are those that the entries before have now.
  have hgiven : ((before.filter fun id => (t.base? index id).isSome).filterMap fun id =>
      ((d.generateKeys index t).1.key? id).map Text.toLower) = given.map fun p => p.2.toLower := by
    rw [← map_fst_basesOf, ← map_fst_assign kept t.usesNumbers, List.filterMap_map,
      ← List.filterMap_eq_map]
    refine List.filterMap_congr fun p hp => ?_
    simp [hkey p hp]
  unfold keysInUse
  rw [hgiven]
  simp [used, kept, or_comm]

/-- **Generated keys are unique** in lower case, also among the keys that are kept. -/
theorem toLower_key?_ne {i j : NodeId} (hi : i ∈ d.entryIds)
    (hj : j ∈ d.entryIds) (hne : i ≠ j) {base : KeyBase} (hbase : t.base? index i = some base)
    {k k' : Text} (hk : (d.generateKeys index t).1.key? i = some k)
    (hk' : (d.generateKeys index t).1.key? j = some k') : k.toLower ≠ k'.toLower := by
  have hunique := pairwise_assign (d.keptKeys index t) t.usesNumbers
    (isPlain_of_mem_basesOf index t d.entryIds)
  obtain ⟨key, hmem, hkey⟩ := exists_key?_generateKeys hi hbase
  obtain rfl : key = k := Option.some.inj (hkey.symm.trans hk)
  cases hother : t.base? index j with
  | none =>
      have hkept : d.key? j = some k' := by
        unfold key? entry? at hk' ⊢
        rwa [node?_generateKeys (.inr hother)] at hk'
      intro heq
      refine hunique.1 _ hmem ?_
      refine List.mem_filterMap.2 ⟨j, List.mem_filter.2 ⟨hj, by rw [hother]; rfl⟩, ?_⟩
      rw [hkept, Option.map_some]
      exact congrArg some heq.symm
  | some base' =>
      obtain ⟨key', hmem', hkey'⟩ := exists_key?_generateKeys hj hother
      obtain rfl : key' = k' := Option.some.inj (hkey'.symm.trans hk')
      have : Std.Symm fun p q : NodeId × Text => p.2.toLower ≠ q.2.toLower := ⟨fun _ _ => Ne.symm⟩
      exact hunique.2.forall hmem hmem' fun heq => hne (congrArg Prod.fst heq)

/-- **Generated keys are unique, stable and minimal.**  In the order of the document, each entry gets
its base with the first suffix that makes the key free, and at most one suffix more is tried than
there are keys in use.  Afterwards no key that was given is that of another entry in lower case.
Entries for which a required value or everything is empty are left alone, and so is everything else.
Generating the keys again changes nothing. -/
theorem generateKeys_unique (d : Document) (index : FieldIndex) (t : KeyTemplate)
    (h : d.order.Nodup) :
    let d' := (d.generateKeys index t).1
    (∀ before id after, d.entryIds = before ++ id :: after → ¬ t.IsEmptyFor index id →
      ∃ base key n, t.base? index id = some base ∧ d'.key? id = some key ∧
        IsFirstFree (d.keysInUse index t d' before) t.usesNumbers base key n) ∧
    (∀ i ∈ d.entryIds, ¬ t.IsEmptyFor index i → ∀ j ∈ d.entryIds, i ≠ j →
      ∀ k ∈ d'.key? i, ∀ k' ∈ d'.key? j, k.toLower ≠ k'.toLower) ∧
    (∀ id, id ∉ d.entryIds ∨ t.IsEmptyFor index id → d'.node? id = d.node? id) ∧
    d'.order = d.order ∧
    d'.generateKeys index t = (d', []) := by
  have hgives {id : NodeId} (hid : ¬ t.IsEmptyFor index id) : ∃ base, t.base? index id = some base :=
    Option.ne_none_iff_exists'.1 fun hnone => hid (KeyTemplate.base?_eq_none_iff.1 hnone)
  refine ⟨fun before id after hids hid => ?_, fun i hi hempty j hj hne k hk k' hk' => ?_,
    fun id hid => ?_, order_setKeys _ d, ?_⟩
  · obtain ⟨base, hbase⟩ := hgives hid
    obtain ⟨key, n, hkey, hfirst⟩ := exists_isFirstFree h hids hbase
    exact ⟨base, key, n, hbase, hkey, hfirst⟩
  · obtain ⟨base, hbase⟩ := hgives hempty
    exact toLower_key?_ne hi hj hne hbase hk hk'
  · exact node?_generateKeys (hid.imp_right KeyTemplate.base?_eq_none_iff.2)
  · rw [generateKeys, keysFor_generateKeys]
    exact setKeys_eq_self fun p hp => key?_of_mem_keysFor h hp

/-- The first entry has no author and keeps its key, which is in use, so the others get the first two
letters. -/
theorem generateKeys_unique_smith :
    let d := (parse
      ("@a\x7bSMITH\x7d @b\x7bb, author = \x7bSmith\x7d\x7d " ++
        "@c\x7bc, author = \x7bSmith\x7d\x7d").toList).1
    let t : KeyTemplate := [.marker .auth [.required]]
    let d' := (d.generateKeys (.build d) t).1
    d.order.Nodup ∧
      d'.entryIds.map d'.key? =
        [some "SMITH".toList, some "Smitha".toList, some "Smithb".toList] ∧
      d'.generateKeys (.build d) t = (d', []) := by
  intro d t d'
  have hnodup : d.order.Nodup := by decide +kernel
  obtain ⟨-, -, -, -, hagain⟩ := generateKeys_unique d (.build d) t hnodup
  exact ⟨hnodup, by decide +kernel, hagain⟩

end Document

/-! ## keys in ASCII -/

namespace CitationKey

theorem ascii_of_isPlain {c : Char} (h : IsPlain c) :
    TemplatePart.isKept c = true ↔ c.toNat < 128 := by
  refine ⟨lt_of_isKept, fun hascii => ?_⟩
  obtain hkept | hdecimal := h
  · exact hkept
  · have hdigit := (ascii_isKept hascii).1 hdecimal
    exact isKept_of_isAlnum (by simp [Text.isAlnum, Char.isAlphanum, hdigit])

end CitationKey

/-- What the modifiers leave of the digits of a year is in ASCII. -/
def KeyTemplate.HasAsciiYears (t : KeyTemplate) (index : FieldIndex) (id : NodeId) : Prop :=
  ∀ ms v, .marker .year ms ∈ t →
    ms.foldlM Modifier.result? (Marker.year.value index id) = some v → ∀ c ∈ v, c.toNat < 128

namespace Document

open CitationKey

/-- **Generated keys** are not empty, and made of ASCII letters and digits, of `_`, `-` and `:`, and of
decimal digits of any script.  They are in ASCII exactly if the years in them are. -/
theorem isKept_generateKeys_iff (d : Document) (index : FieldIndex) (t : KeyTemplate) :
    ∀ id ∈ d.entryIds, ¬ t.IsEmptyFor index id →
      ∃ key, (d.generateKeys index t).1.key? id = some key ∧ key ≠ [] ∧
        (∀ c ∈ key, TemplatePart.isKept c = true ∨ Unicode.isDecimal c = true) ∧
        ((∀ c ∈ key, TemplatePart.isKept c = true) ↔ t.HasAsciiYears index id) := by
  intro id hid hempty
  obtain ⟨base, hbase⟩ := Option.ne_none_iff_exists'.1 fun hnone =>
    hempty (KeyTemplate.base?_eq_none_iff.1 hnone)
  obtain ⟨key, hmem, hkey⟩ := exists_key?_generateKeys hid hbase
  obtain ⟨hne, hplain⟩ := isPlain_of_mem_keysFor hmem
  refine ⟨key, hkey, hne, hplain, ?_⟩
  obtain ⟨base', n, hbase', rfl⟩ := exists_of_mem_keysFor hmem
  obtain rfl : base' = base := Option.some.inj (hbase'.symm.trans hbase)
  have hyears {ms : List Modifier} {v : Text}
      (hv : ms.foldlM Modifier.result? (Marker.year.value index id) = some v) :
      ∀ c ∈ v, IsPlain c :=
    isKeyClass_isPlain.results (isPlain_value index id .year) hv
  constructor
  · intro hkept ms v hpart hv c hc
    -- The year is a part of the base, so it stands in the key.
    have hgives : TemplatePart.base? index id (.marker .year ms) = some (v.map some) := by
      rw [TemplatePart.base?, hv]
      rfl
    have hin := (KeyTemplate.mem_base_iff hbase).2
      ⟨_, hpart, _, hgives, List.mem_map_of_mem hc⟩
    exact lt_of_isKept (hkept c (KeyBase.mem_withSuffix_of_mem hin))
  · intro hascii c hc
    obtain hc | hc := KeyBase.mem_of_mem_withSuffix hc
    · refine KeyTemplate.mem_class_of_base isKeyClass_isKept (fun ms v hpart hv x hx => ?_) hbase c hc
      exact (ascii_of_isPlain (hyears hv x hx)).2 (hascii ms v hpart hv x hx)
    · exact isKept_suffix _ n c hc

/-- A year in ASCII gives a key in ASCII, whatever stands in the other fields. -/
theorem isKept_generateKeys_iff_1999 :
    let d := (parse "@a\x7bk, title = \x7bÆøß ١\x7d, year = 1999\x7d".toList).1
    let t : KeyTemplate := [.marker (.title none) [], .literal "_".toList, .marker .year []]
    0 ∈ d.entryIds ∧ ¬ t.IsEmptyFor (.build d) 0 ∧ t.HasAsciiYears (.build d) 0 ∧
      ∃ key, (d.generateKeys (.build d) t).1.key? 0 = some key ∧
        ∀ c ∈ key, TemplatePart.isKept c = true := by
  intro d t
  have hid : 0 ∈ d.entryIds := by decide +kernel
  have hempty : ¬ t.IsEmptyFor (.build d) 0 := by
    rw [← KeyTemplate.base?_eq_none_iff]
    decide +kernel
  have hyears : t.HasAsciiYears (.build d) 0 := by
    intro ms v hpart hv
    have hms : ms = [] := by simpa [t] using hpart
    subst hms
    obtain rfl := Option.some.inj hv
    decide +kernel
  obtain ⟨key, hkey, -, -, hkept⟩ := isKept_generateKeys_iff d (.build d) t 0 hid hempty
  exact ⟨hid, hempty, hyears, key, hkey, hkept.2 hyears⟩

/-- The digits of a year in another script stand in the key. -/
theorem generateKeys_arabic :
    let s : Text := "@misc\x7bk, year = \x7b١٩٩٩\x7d\x7d".toList
    let d := (parse s).1
    (d.generateKeys (.build d) [.marker .year []]).1.key? 0 = some "١٩٩٩".toList ∧
      (tidy { generateKeys := some (.value "[year]".toList) } s).text =
        "@misc\x7b١٩٩٩,\n  year = \x7b١٩٩٩\x7d\n\x7d".toList ∧
      ¬ ∀ c ∈ "١٩٩٩".toList, TemplatePart.isKept c = true := by
  intro s d
  exact ⟨by decide +kernel, by decide +kernel, by decide +kernel⟩

end Document

end Bibliography
