import Bibliography.Proofs.Sort.Numbers
import Bibliography.Proofs.Tidy.Edits

/-!
# Bibliography.Proofs.Tidy.Sorting

Sorting the entries of a faithful document leaves it faithful.  Every group of
nodes that moves ends with its entry, so no text of another group comes to stand
right after a text of it; and what stands after the last entry, which has no
entry of its own, stays at the end.

* `SortValue.ofEntry_eq_some_iff` — what an entry is compared by;
* `Document.IsGrouping` — the groups of nodes, each of which ends with its entry;
* `Document.sortEntries_groups` — the groups stand in the order of their values;
* `Document.exists_regroups` — sorting permutes the groups, and leaves what
  stands after the last entry at the end.
-/

namespace Bibliography

/-! ## values of entries -/

/-- What a text is compared by: digits without zeros in front, filled up to the width of numbers,
or any other text in lower case.  White space around it does not count. -/
inductive SortValue.IsOf : Text → Text → Prop
  | number {s : Text} : s.strip.isDigits = true → IsOf s (padded s.strip.significant)
  | text {s : Text} : s.strip ≠ [] → s.strip.isDigits = false → IsOf s s.strip.toLower

/-- What an entry is compared by under the name of a key.  The citation key and the command are no
fields, and of the month only its number counts. -/
inductive Block.IsSortedBy (b : Block) (e : Entry) : Text → Text → Prop
  | key {k v : Text} : e.key = some k → SortValue.IsOf k v → IsSortedBy b e "key".toList v
  | type : IsSortedBy b e "type".toList b.command.toLower
  | month {r : Resolved} {n : Nat} : e.resolve.lookup "month".toList = some r →
      Month.number? r.value = some n →
      IsSortedBy b e "month".toList (SortValue.padded (Text.ofNat n))
  | field {name v : Text} {r : Resolved} : name ∉ SortKey.pseudoFields →
      e.resolve.lookup name.toLower = some r → SortValue.IsOf r.value v → IsSortedBy b e name v

theorem SortValue.ofText_eq_some_iff {s v : Text} : ofText s = some v ↔ IsOf s v := by
  constructor
  · intro h
    by_cases hdigits : s.strip.isDigits = true
    · rw [ofText_of_isDigits hdigits] at h
      obtain rfl := Option.some.inj h
      exact .number hdigits
    · rw [ofText, if_neg hdigits] at h
      split at h
      · cases h
      · next hne =>
        obtain rfl := Option.some.inj h
        exact .text hne (by simpa using hdigits)
  · rintro (hdigits | ⟨hne, hdigits⟩)
    · exact ofText_of_isDigits hdigits
    · rw [ofText, if_neg hne, hdigits]
      rfl

theorem SortKey.mem_pseudoFields {name : Text} : name ∈ pseudoFields ↔
    name = "key".toList ∨ name = "type".toList ∨ name = "month".toList := by
  simp only [pseudoFields, List.map_cons, List.map_nil, List.mem_cons, List.not_mem_nil, or_false]

namespace Block.IsSortedBy

variable {b : Block} {e : Entry} {name v : Text}

theorem key_iff : b.IsSortedBy e "key".toList v ↔ e.key.bind SortValue.ofText = some v := by
  rw [Option.bind_eq_some_iff]
  constructor
  · intro h
    cases h with
    | key hk hv => exact ⟨_, hk, SortValue.ofText_eq_some_iff.2 hv⟩
    | field hname => exact absurd (SortKey.mem_pseudoFields.2 (.inl rfl)) hname
  · rintro ⟨k, hk, hv⟩
    exact .key hk (SortValue.ofText_eq_some_iff.1 hv)

theorem type_iff : b.IsSortedBy e "type".toList v ↔ b.command.toLower = v := by
  constructor
  · intro h
    cases h with
    | type => rfl
    | field hname => exact absurd (SortKey.mem_pseudoFields.2 (.inr (.inl rfl))) hname
  · rintro rfl
    exact .type

theorem month_iff : b.IsSortedBy e "month".toList v ↔
    ∃ r n, e.resolve.lookup "month".toList = some r ∧ Month.number? r.value = some n ∧
      SortValue.padded (Text.ofNat n) = v := by
  constructor
  · intro h
    cases h with
    | month hr hn => exact ⟨_, _, hr, hn, rfl⟩
    | field hname => exact absurd (SortKey.mem_pseudoFields.2 (.inr (.inr rfl))) hname
  · rintro ⟨r, n, hr, hn, rfl⟩
    exact .month hr hn

theorem field_iff (hname : name ∉ SortKey.pseudoFields) : b.IsSortedBy e name v ↔
    ∃ r, e.resolve.lookup name.toLower = some r ∧ SortValue.ofText r.value = some v := by
  constructor
  · intro h
    cases h with
    | key => exact absurd (SortKey.mem_pseudoFields.2 (.inl rfl)) hname
    | type => exact absurd (SortKey.mem_pseudoFields.2 (.inr (.inl rfl))) hname
    | month => exact absurd (SortKey.mem_pseudoFields.2 (.inr (.inr rfl))) hname
    | field _ hr hv => exact ⟨_, hr, SortValue.ofText_eq_some_iff.2 hv⟩
  · rintro ⟨r, hr, hv⟩
    exact .field hname hr (SortValue.ofText_eq_some_iff.1 hv)

end Block.IsSortedBy

theorem Document.entry?_eq (d : Document) (id : NodeId) :
    d.entry? id = (d.block? id).bind Block.entry? := by
  unfold entry? block?
  cases d.node? id <;> rfl

/-- **What an entry is compared by**, where the index answers like the entry. -/
theorem SortValue.ofEntry_eq_some_iff {d : Document} {index : FieldIndex} {id : NodeId} {b : Block}
    {e : Entry} (hb : d.block? id = some b) (he : b.entry? = some e)
    (hindex : ∀ name, index.get? id name = e.resolve.lookup name.toLower) (key : SortKey)
    (v : Text) : ofEntry d index id key = some v ↔ b.IsSortedBy e key.field v := by
  have hkey : d.key? id = e.key := by
    rw [Document.key?, Document.entry?_eq, hb, Option.bind_some, he, Option.bind_some]
  have hvalue (name : Text) :
      index.value? id name = (e.resolve.lookup name.toLower).map Resolved.value := by
    rw [FieldIndex.value?, hindex]
  have hlower : Text.toLower "month".toList = "month".toList := by decide +kernel
  obtain ⟨name, descending⟩ := key
  unfold ofEntry
  dsimp only
  by_cases hname : name ∈ SortKey.pseudoFields
  · obtain rfl | rfl | rfl := SortKey.mem_pseudoFields.1 hname
    · rw [if_pos rfl, hkey, Block.IsSortedBy.key_iff]
    · rw [if_neg (by decide), if_pos rfl, hb, Block.IsSortedBy.type_iff]
      exact Option.some_inj
    · rw [if_neg (by decide), if_neg (by decide), if_pos rfl, hvalue, hlower,
        Block.IsSortedBy.month_iff]
      cases e.resolve.lookup "month".toList with
      | none => simp
      | some r => simp [Option.bind_eq_some_iff, number, padded]
  · obtain ⟨hnotKey, hother⟩ := not_or.1 (mt SortKey.mem_pseudoFields.2 hname)
    obtain ⟨hnotType, hnotMonth⟩ := not_or.1 hother
    rw [if_neg hnotKey, if_neg hnotType, if_neg hnotMonth, hvalue, Block.IsSortedBy.field_iff hname]
    cases e.resolve.lookup name.toLower <;> simp

/-! ## groups -/

namespace Document

variable {d : Document}

/-- The nodes of a group. -/
def chunk (d : Document) (g : Group) : List Node := g.nodes.filterMap d.node?

/-- The nodes of a group end with a block. -/
def EndsWithBlock (d : Document) (g : Group) : Prop := ∃ ns b, d.chunk g = ns ++ [.block b]

theorem flatMap_chunk (gs : List Group) :
    gs.flatMap d.chunk = (gs.flatMap Group.nodes).filterMap d.node? := by
  rw [List.filterMap_flatMap]
  rfl

/-- An entry with what stands before it, which is no entry. -/
def IsGroup (d : Document) (g : Group) : Prop :=
  ∃ waiting id, g = ⟨some id, waiting ++ [id]⟩ ∧ (d.entry? id).isSome = true ∧
    ∀ j ∈ waiting, d.entry? j = none

/-- Nodes without entries. -/
theorem entry?_of_mem_chunk {g : Group} (h : ∀ j ∈ g.nodes, d.entry? j = none) :
    ∀ n ∈ d.chunk g, n.entry? = none := by
  intro n hn
  obtain ⟨j, hj, hjn⟩ := List.mem_filterMap.1 hn
  have hnone := h j hj
  unfold entry? at hnone
  rwa [hjn] at hnone

/-- A group has the nodes that wait for its entry, and then its entry. -/
theorem IsGroup.exists_chunk {g : Group} (h : d.IsGroup g) :
    ∃ waiting id inner b, g = ⟨some id, waiting ++ [id]⟩ ∧ d.block? id = some b ∧
      d.chunk g = inner ++ [Node.block b] ∧ ∀ n ∈ inner, n.entry? = none := by
  obtain ⟨waiting, id, rfl, hid, hwaiting⟩ := h
  obtain ⟨b, hb⟩ : ∃ b, d.node? id = some (.block b) := by
    unfold entry? at hid
    cases hn : d.node? id with
    | none => simp [hn] at hid
    | some n =>
        cases n with
        | text t => simp [hn, Node.entry?, Node.block?] at hid
        | block b => exact ⟨b, rfl⟩
  exact ⟨waiting, id, d.chunk ⟨none, waiting⟩, b, rfl, by rw [block?, hb]; rfl, by simp [chunk, hb],
    entry?_of_mem_chunk hwaiting⟩

theorem IsGroup.endsWithBlock {g : Group} (h : d.IsGroup g) : d.EndsWithBlock g := by
  obtain ⟨-, -, inner, b, -, -, hchunk, -⟩ := h.exists_chunk
  exact ⟨inner, b, hchunk⟩

/-- Nodes as groups, each of which is an entry with what stands before it, and what stands after the
last entry. -/
structure IsGrouping (d : Document) (ids : List NodeId) (gs : List Group) (left : List NodeId) :
    Prop where
  ids_eq : ids = gs.flatMap Group.nodes ++ left
  isGroup : ∀ g ∈ gs, d.IsGroup g
  left : ∀ j ∈ left, d.entry? j = none

theorem exists_isGrouping (d : Document) (ids : List NodeId) :
    ∃ gs left, d.IsGrouping ids gs left := by
  induction ids with
  | nil => exact ⟨[], [], rfl, List.forall_mem_nil _, List.forall_mem_nil _⟩
  | cons id ids ih =>
      obtain ⟨gs, left, rfl, hgs, hleft⟩ := ih
      by_cases hid : (d.entry? id).isSome = true
      · exact ⟨⟨some id, [id]⟩ :: gs, left, rfl,
          List.forall_mem_cons.2 ⟨⟨[], id, rfl, hid, List.forall_mem_nil _⟩, hgs⟩, hleft⟩
      · have hnone : d.entry? id = none := by simpa using hid
        cases gs with
        | nil => exact ⟨[], id :: left, rfl, hgs, List.forall_mem_cons.2 ⟨hnone, hleft⟩⟩
        | cons g gs =>
            -- It waits for the entry of the first group.
            obtain ⟨⟨waiting, id', rfl, hid', hwaiting⟩, hrest⟩ := List.forall_mem_cons.1 hgs
            refine ⟨⟨some id', id :: waiting ++ [id']⟩ :: gs, left, rfl,
              List.forall_mem_cons.2 ⟨⟨id :: waiting, id', rfl, hid', ?_⟩, hrest⟩, hleft⟩
            exact List.forall_mem_cons.2 ⟨hnone, hwaiting⟩

theorem groupsFrom_append {l : List NodeId} (hl : ∀ j ∈ l, d.entry? j = none)
    (waiting ids : List NodeId) :
    groupsFrom d waiting (l ++ ids) = groupsFrom d (waiting ++ l) ids := by
  induction l generalizing waiting with
  | nil => rw [List.nil_append, List.append_nil]
  | cons id l ih =>
      obtain ⟨hid, hl⟩ := List.forall_mem_cons.1 hl
      rw [List.cons_append, groupsFrom, hid, Option.isSome_none, if_neg Bool.false_ne_true, ih hl,
        List.append_assoc]
      rfl

/-- What stands after the last entry, as a group. -/
def leftGroups (left : List NodeId) : List Group := if left = [] then [] else [⟨none, left⟩]

namespace IsGrouping

variable {ids left left' : List NodeId} {gs gs' : List Group}

/-- **The groups of nodes**, and what stands after the last entry. -/
theorem groupsFrom_eq (h : d.IsGrouping ids gs left) :
    groupsFrom d [] ids = gs ++ leftGroups left := by
  obtain ⟨rfl, hgs, hleft⟩ := h
  induction gs with
  | nil =>
      have h := groupsFrom_append hleft [] []
      rw [List.append_nil, List.nil_append, groupsFrom] at h
      exact h
  | cons g gs ih =>
      obtain ⟨⟨waiting, id, rfl, hid, hwaiting⟩, hrest⟩ := List.forall_mem_cons.1 hgs
      rw [List.flatMap_cons, List.append_assoc, List.append_assoc, groupsFrom_append hwaiting,
        List.singleton_append, groupsFrom, if_pos hid, ih hrest]
      rfl

/-- Nodes are groups in one way. -/
theorem unique (h : d.IsGrouping ids gs left) (h' : d.IsGrouping ids gs' left') :
    gs = gs' ∧ left = left' := by
  have hentries {gs : List Group} {left : List NodeId} (h : d.IsGrouping ids gs left) :
      ((groupsFrom d [] ids).filter fun g => g.entry.isSome) = gs := by
    have hleft : ((leftGroups left).filter fun g => g.entry.isSome) = [] := by
      unfold leftGroups
      split <;> rfl
    rw [h.groupsFrom_eq, List.filter_append, hleft, List.append_nil, List.filter_eq_self]
    intro g hg
    obtain ⟨waiting, id, rfl, -⟩ := h.isGroup g hg
    rfl
  obtain rfl : gs = gs' := (hentries h).symm.trans (hentries h')
  exact ⟨rfl, List.append_cancel_left (h.ids_eq.symm.trans h'.ids_eq)⟩

end IsGrouping

/-- What stands after the last entry stays at the end. -/
theorem sortGroups_leftGroups (index : FieldIndex) (keys : List SortKey) (gs : List Group)
    (left : List NodeId) :
    d.sortGroups index keys (gs ++ leftGroups left) =
      d.sortGroups index keys gs ++ leftGroups left := by
  unfold leftGroups
  split
  · rw [List.append_nil, List.append_nil]
  · exact d.sortGroups_concat index keys gs left

theorem flatMap_nodes_leftGroups (left : List NodeId) :
    (leftGroups left).flatMap Group.nodes = left := by
  unfold leftGroups
  split
  · next h => rw [h, List.flatMap_nil]
  · exact List.flatMap_singleton _ _

/-- **Sorting moves whole groups.** -/
theorem IsGrouping.sortEntries {gs : List Group} {left : List NodeId}
    (h : d.IsGrouping d.order gs left) (index : FieldIndex) (keys : List SortKey) :
    (d.sortEntries index keys).1 =
      { d with order := (d.sortGroups index keys gs).flatMap Group.nodes ++ left } := by
  unfold Document.sortEntries
  split
  · next hkeys => rw [hkeys, sortGroups, List.foldr_nil, ← h.ids_eq]
  · rw [groups, h.groupsFrom_eq, sortGroups_leftGroups, List.flatMap_append,
      flatMap_nodes_leftGroups]

/-- **Entries are sorted by the values of all keys**, the first of which that differs decides, and
entries of the same values stay in their order.  An entry moves with what stands before it, up to
the entry before; and what stands after the last entry stays at the end. -/
theorem sortEntries_groups (d : Document) (index : FieldIndex) (keys : List SortKey) :
    ∃ gs left sorted,
      (∀ gs' left', d.IsGrouping d.order gs' left' ↔ gs' = gs ∧ left' = left) ∧
      (∀ sorted', Sorting.IsStableSort (Group.values d index keys) (SortKey.Before keys) gs sorted' ↔
        sorted' = sorted) ∧
      (d.sortEntries index keys).1 = { d with order := sorted.flatMap Group.nodes ++ left } := by
  obtain ⟨gs, left, h⟩ := d.exists_isGrouping d.order
  refine ⟨gs, left, d.sortGroups index keys gs, fun gs' left' => ⟨fun h' => h'.unique h, ?_⟩,
    fun sorted' => ⟨d.eq_sortGroups index, ?_⟩, h.sortEntries index keys⟩
  · rintro ⟨rfl, rfl⟩
    exact h
  · rintro rfl
    exact d.isStableSort_sortGroups index keys gs

/-- By command from the last on, and then by key.  Keys of digits are numbers, the text before an
entry moves with it, and the one at the end stays. -/
example :
    let entry (command key : Text) : Node := .block
      { command, delimiter := .brace, body := .entry { key := some key } }
    let d := Document.ofNodes [entry "book".toList "b".toList, .text "%".toList,
      entry "misc".toList "10".toList, entry "misc".toList "9".toList, .text "%".toList]
    let keys := [⟨"type".toList, true⟩, ⟨"key".toList, false⟩]
    (d.sortEntries (FieldIndex.build d) keys).1.order = [3, 1, 2, 0, 4] := by cbv

/-- The groups of a document, in their order and in that of another one.  What has no entry stays at
the end. -/
structure Regroups (d d' : Document) (gs gs' left : List Group) : Prop where
  order : d.order = (gs ++ left).flatMap Group.nodes
  order' : d'.order = (gs' ++ left).flatMap Group.nodes
  perm : gs'.Perm gs
  isGroup : ∀ g ∈ gs, d.IsGroup g
  left : ∀ g ∈ left, ∀ j ∈ g.nodes, d.entry? j = none

/-- **Sorting permutes the groups**, and leaves what stands after the last entry. -/
theorem exists_regroups (d : Document) (index : FieldIndex) (keys : List SortKey) :
    ∃ gs gs' left, d.Regroups (d.sortEntries index keys).1 gs gs' left := by
  obtain ⟨gs, left, h⟩ := d.exists_isGrouping d.order
  refine ⟨gs, d.sortGroups index keys gs, leftGroups left, ?_, ?_, d.sortGroups_perm index keys gs,
    h.isGroup, ?_⟩
  · rw [List.flatMap_append, flatMap_nodes_leftGroups, ← h.ids_eq]
  · rw [List.flatMap_append, flatMap_nodes_leftGroups, h.sortEntries]
  · intro g hg j hj
    refine h.left j ?_
    rw [← flatMap_nodes_leftGroups left]
    exact List.mem_flatMap_of_mem hg hj

/-! ## texts in sorted groups -/

/-- Groups that end with blocks can stand in any order. -/
theorem isChain_chunks {gs : List Group} (hgs : ∀ g ∈ gs, d.EndsWithBlock g)
    (hchunks : ∀ g ∈ gs, (d.chunk g).IsChain Apart) {rest : List Node}
    (hrest : rest.IsChain Apart) : (gs.flatMap d.chunk ++ rest).IsChain Apart := by
  induction gs with
  | nil => exact hrest
  | cons g gs ih =>
      obtain ⟨⟨ns, b, hg⟩, hgs⟩ := List.forall_mem_cons.1 hgs
      obtain ⟨hchunk, hchunks⟩ := List.forall_mem_cons.1 hchunks
      rw [List.flatMap_cons, List.append_assoc]
      refine hchunk.append (ih hgs hchunks) fun m hm n _ hboth => ?_
      rw [hg, List.getLast?_concat] at hm
      obtain rfl := Option.mem_some_iff.1 hm
      exact absurd hboth.1 (by simp [Node.isText])

theorem isChain_chunk {gs : List Group} (h : (gs.flatMap d.chunk).IsChain Apart) :
    ∀ g ∈ gs, (d.chunk g).IsChain Apart := by
  intro g hg
  exact h.infix (List.infix_of_mem_flatten (List.mem_map_of_mem hg))

@[simp] theorem nodes_sortEntries (d : Document) (index : FieldIndex) (keys : List SortKey) :
    (d.sortEntries index keys).1.nodes = d.nodes := by
  unfold sortEntries
  split <;> rfl

/-- **A faithful document stays faithful** when its entries are sorted. -/
theorem IsFaithful.sortEntries (h : d.IsFaithful) (index : FieldIndex) (keys : List SortKey) :
    (d.sortEntries index keys).1.IsFaithful := by
  obtain ⟨gs, gs', left, horder, hsorted, hperm, hgs, -⟩ := d.exists_regroups index keys
  have hpresent : d.present = gs.flatMap d.chunk ++ left.flatMap d.chunk := by
    rw [← List.flatMap_append, flatMap_chunk, ← horder]
    rfl
  have hpresent' : (Document.sortEntries d index keys).1.present =
      gs'.flatMap d.chunk ++ left.flatMap d.chunk := by
    rw [← List.flatMap_append, flatMap_chunk, ← hsorted]
    unfold present node?
    rw [nodes_sortEntries]
  have hapart := h.apart
  rw [hpresent] at hapart
  refine ⟨by simpa using h.nodes, ?_⟩
  rw [hpresent']
  exact isChain_chunks (fun g hg => (hgs g (hperm.subset hg)).endsWithBlock)
    (fun g hg => isChain_chunk hapart.left_of_append g (hperm.subset hg))
    hapart.right_of_append

end Document

end Bibliography
