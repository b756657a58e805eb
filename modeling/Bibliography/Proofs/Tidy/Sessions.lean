import Mathlib.Data.List.Nodup
import Mathlib.Data.List.Perm.Subperm
import Bibliography.Proofs.Tidy.Index
import Bibliography.Proofs.Tidy.Sources

/-!
# Bibliography.Proofs.Tidy.Sessions

What stays of a document through a session of any length.  A document begins
empty or as a text that was read; then nodes are added, kept or removed by hand,
and operations are run, in any number and order.

A handle is good for ever: the arena only grows, and the node of a handle stays
a text, or a block of its command, delimiter and kind.  `Node.Persists` says
what else may change in it, which depends on the operation: commentary where
commentary is brought into shape, citation keys where keys are generated or an
entry is edited by hand, and the fields of entries.  What cannot be read, and
preambles and definitions, never change.

* `Action.persists_run`, `Action.persists_runAll` — the nodes, through one
  action and through any number;
* `Action.reorders_run` — the order of the present nodes;
* `Action.isArena_runAll` — no handle stands in the order twice, and all are of
  the arena;
* `Action.session` — all of this for sessions.
-/

namespace Bibliography

/-! ## nodes -/

/-- A body that may have changed: the payload of a comment if commentary may, the citation key of
an entry if keys may.  The fields of entries and notes of duplicates are free; anything else is what
it was. -/
inductive Body.Persists (commentary keys : Prop) : Body → Body → Prop where
  | comment {p p' : Payload} : (¬ commentary → p' = p) →
      Persists commentary keys (.comment p) (.comment p')
  | preamble (p : Payload) : Persists commentary keys (.preamble p) (.preamble p)
  | stringDef (p : Payload) : Persists commentary keys (.stringDef p) (.stringDef p)
  | entry {e e' : Entry} : (¬ keys → e'.key = e.key) →
      Persists commentary keys (.entry e) (.entry e')
  | verbatim (t : Text) : Persists commentary keys (.verbatim t) (.verbatim t)

/-- A node that may have changed: a text if commentary may, and the body of a block. -/
inductive Node.Persists (commentary keys : Prop) : Node → Node → Prop where
  | text {t t' : Text} : (¬ commentary → t' = t) → Persists commentary keys (.text t) (.text t')
  | block {b b' : Block} : b'.command = b.command → b'.delimiter = b.delimiter →
      b.body.Persists commentary keys b'.body → Persists commentary keys (.block b) (.block b')

namespace Body.Persists

variable {c k c' k' : Prop} {b b' b'' : Body}

theorem refl (c k : Prop) (b : Body) : b.Persists c k b := by
  cases b with
  | comment p => exact .comment fun _ => rfl
  | preamble p => exact .preamble p
  | stringDef p => exact .stringDef p
  | entry e => exact .entry fun _ => rfl
  | verbatim t => exact .verbatim t

theorem trans (h : b.Persists c k b') (h' : b'.Persists c' k' b'') :
    b.Persists (c ∨ c') (k ∨ k') b'' := by
  cases h with
  | comment hp =>
      cases h' with
      | comment hp' =>
          refine .comment fun hc => ?_
          obtain ⟨hc, hc'⟩ := not_or.1 hc
          exact (hp' hc').trans (hp hc)
  | preamble p =>
      cases h' with
      | preamble => exact .preamble p
  | stringDef p =>
      cases h' with
      | stringDef => exact .stringDef p
  | entry he =>
      cases h' with
      | entry he' =>
          refine .entry fun hk => ?_
          obtain ⟨hk, hk'⟩ := not_or.1 hk
          exact (he' hk').trans (he hk)
  | verbatim t =>
      cases h' with
      | verbatim => exact .verbatim t

theorem mono (h : b.Persists c k b') (hc : c → c') (hk : k → k') : b.Persists c' k' b' := by
  cases h with
  | comment hp => exact .comment fun hc' => hp fun h => hc' (hc h)
  | preamble p => exact .preamble p
  | stringDef p => exact .stringDef p
  | entry he => exact .entry fun hk' => he fun h => hk' (hk h)
  | verbatim t => exact .verbatim t

end Body.Persists

namespace Node

variable {c k c' k' : Prop} {m n n' : Node}

theorem Persists.refl (c k : Prop) (n : Node) : n.Persists c k n := by
  cases n with
  | text t => exact .text fun _ => rfl
  | block b => exact .block rfl rfl (.refl c k b.body)

theorem Persists.trans (h : m.Persists c k n) (h' : n.Persists c' k' n') :
    m.Persists (c ∨ c') (k ∨ k') n' := by
  cases h with
  | text ht =>
      cases h' with
      | text ht' =>
          refine .text fun hc => ?_
          obtain ⟨hc, hc'⟩ := not_or.1 hc
          exact (ht' hc').trans (ht hc)
  | block hcommand hdelimiter hbody =>
      cases h' with
      | block hcommand' hdelimiter' hbody' =>
          exact .block (hcommand'.trans hcommand) (hdelimiter'.trans hdelimiter)
            (hbody.trans hbody')

theorem Persists.mono (h : m.Persists c k n) (hc : c → c') (hk : k → k') :
    m.Persists c' k' n := by
  cases h with
  | text ht => exact .text fun hc' => ht fun h => hc' (hc h)
  | block hcommand hdelimiter hbody => exact .block hcommand hdelimiter (hbody.mono hc hk)

/-- An edit of blocks that leaves command and delimiter alone. -/
theorem persists_editBlock {f : Edit Block} {b : Block} (hcommand : (f b).1.command = b.command)
    (hdelimiter : (f b).1.delimiter = b.delimiter) (hbody : b.body.Persists c k (f b).1.body) :
    (block b).Persists c k (block (b.edit f).1) := by
  unfold Block.edit
  split <;>
  · next b' hb =>
    rw [hb] at hcommand hdelimiter hbody
    exact .block hcommand hdelimiter hbody

/-- An edit of entries touches the keys that it may touch. -/
theorem persists_editEntry {f : Edit Entry} (hf : ¬ k → ∀ e, (f e).1.key = e.key) (n : Node) :
    n.Persists c k (n.editEntry f).1 := by
  cases n with
  | text t => exact .refl c k _
  | block b =>
      refine persists_editBlock ?_ ?_ ?_
      · split <;> rfl
      · split <;> rfl
      · split
        · next e he =>
          rw [he]
          exact .entry fun hk => hf hk e
        · exact .refl c k b.body

/-- Only commentary is brought into shape. -/
theorem persists_tidy (k : Prop) (onNewLine : Bool) (n : Node) :
    n.Persists True k (n.tidy onNewLine).1 := by
  cases n with
  | text t =>
      rw [tidy]
      split <;> exact .text fun h => absurd trivial h
  | block b =>
      refine persists_editBlock ?_ ?_ ?_
      · unfold tidyComment
        split <;> rfl
      · unfold tidyComment
        split <;> rfl
      · unfold tidyComment
        split
        · next p hp =>
          rw [hp]
          exact .comment fun h => absurd trivial h
        · exact .refl True k b.body

end Node

/-! ## documents -/

namespace Document

variable {c k c' k' : Prop} {d d' d'' : Document}

/-- Every node of a document is still there, changed where it may be. -/
def Persists (commentary keys : Prop) (d d' : Document) : Prop :=
  ∀ id n, d.node? id = some n → ∃ n', d'.node? id = some n' ∧ n.Persists commentary keys n'

namespace Persists

theorem of_nodes_eq (h : d'.nodes = d.nodes) : Persists c k d d' := by
  intro id n hn
  unfold node? at hn ⊢
  exact ⟨n, by rw [h, hn], .refl c k n⟩

theorem refl (c k : Prop) (d : Document) : Persists c k d d := of_nodes_eq rfl

theorem trans (h : Persists c k d d') (h' : Persists c' k' d' d'') :
    Persists (c ∨ c') (k ∨ k') d d'' := by
  intro id n hn
  obtain ⟨n', hn', hpersists⟩ := h id n hn
  obtain ⟨n'', hn'', hpersists'⟩ := h' id n' hn'
  exact ⟨n'', hn'', hpersists.trans hpersists'⟩

theorem mono (h : Persists c k d d') (hc : c → c') (hk : k → k') : Persists c' k' d d' := by
  intro id n hn
  obtain ⟨n', hn', hpersists⟩ := h id n hn
  exact ⟨n', hn', hpersists.mono hc hk⟩

/-- Two steps of one kind. -/
theorem trans_self (h : Persists c k d d') (h' : Persists c k d' d'') : Persists c k d d'' :=
  (h.trans h').mono (Or.elim · id id) (Or.elim · id id)

/-- The arena never shrinks. -/
theorem length_le (h : Persists c k d d') : d.nodes.length ≤ d'.nodes.length := by
  refine Nat.le_of_not_lt fun hlt => ?_
  obtain ⟨n', hn', -⟩ := h _ _ (List.getElem?_eq_getElem hlt)
  exact absurd (List.getElem?_eq_some_iff.1 hn').1 (Nat.lt_irrefl _)

end Persists

theorem persists_setNode {id : NodeId} {m n : Node} (hm : d.node? id = some m)
    (h : m.Persists c k n) : Persists c k d (d.setNode id n) := by
  intro j m' hm'
  rw [node?_setNode hm]
  by_cases hj : j = id
  · subst hj
    obtain rfl : m = m' := Option.some.inj (hm.symm.trans hm')
    exact ⟨n, if_pos rfl, h⟩
  · exact ⟨m', by rw [if_neg hj, hm'], .refl c k m'⟩

theorem persists_editNode {f : Edit Node} (hf : ∀ n : Node, n.Persists c k (f n).1) (id : NodeId)
    (d : Document) : Persists c k d (d.editNode f id).1 := by
  unfold editNode
  split
  · next n hn => exact persists_setNode hn (hf n)
  · exact .refl c k d

theorem persists_editEntry {f : Edit Entry} (hf : ¬ k → ∀ e, (f e).1.key = e.key) (id : NodeId)
    (d : Document) : Persists c k d (d.editEntry f id).1 :=
  persists_editNode (Node.persists_editEntry hf) id d

theorem persists_editFields (c k : Prop) (f : Edit (List Field)) (d : Document) :
    Persists c k d (d.editFields f).1 := by
  intro id n hn
  unfold editFields
  rw [node?_editEntries, hn]
  refine ⟨_, rfl, ?_⟩
  split
  · exact Node.persists_editEntry (fun _ _ => rfl) n
  · exact .refl c k n

theorem persists_tidyCommentsFrom (k : Prop) (onNewLine : Bool) (ids : List NodeId)
    (d : Document) : Persists True k d (tidyCommentsFrom onNewLine ids d).1 := by
  induction ids generalizing onNewLine d with
  | nil => exact .refl True k d
  | cons id ids ih =>
      exact (persists_editNode (Node.persists_tidy k onNewLine) id d).trans_self (ih _ _)

theorem persists_markDuplicate (c k : Prop) (d : Document) (id earlier : NodeId) :
    Persists c k d (d.markDuplicate id earlier) := by
  unfold markDuplicate
  split
  · next b hb =>
    split
    · next e he =>
      refine persists_setNode hb (.block rfl rfl ?_)
      rw [he]
      exact .entry fun _ => rfl
    · exact .refl c k d
  · exact .refl c k d

theorem persists_detect (c k : Prop) (d : Document) (index : FieldIndex)
    (rules : List DuplicateRule) : Persists c k d (d.detect index rules).document := by
  have hmarks (ds : List Duplicate) (d : Document) :
      Persists c k d (ds.foldl (fun d dup => d.markDuplicate dup.entry dup.root) d) := by
    induction ds generalizing d with
    | nil => exact .refl c k d
    | cons dup ds ih => exact (persists_markDuplicate c k d dup.entry dup.root).trans_self (ih _)
  exact hmarks _ d

theorem persists_absorbEach (c k : Prop) (overwrite : Bool) (cs : List Cluster) (d : Document) :
    Persists c k d (Cluster.absorbEach overwrite cs d).1 := by
  induction cs generalizing d with
  | nil => exact .refl c k d
  | cons cluster cs ih =>
      have hroot : Persists c k d (cluster.absorb overwrite d).1 :=
        persists_editEntry (fun _ _ => rfl) cluster.root d
      exact hroot.trans_self (ih _)

/-- **Merging** leaves citation keys alone. -/
theorem persists_merge (c k : Prop) (d : Document) (clusters : List Cluster)
    (strategy : MergeStrategy) : Persists c k d (d.merge clusters strategy).document := by
  unfold merge
  cases strategy.absorbs? with
  | none => exact .of_nodes_eq rfl
  | some overwrite => exact persists_absorbEach c k overwrite clusters d

theorem persists_setKeys (c : Prop) (keys : List (NodeId × Text)) (d : Document) :
    Persists c True d (setKeys keys d).1 := by
  induction keys generalizing d with
  | nil => exact .refl c True d
  | cons p keys ih =>
      have hkey : Persists c True d (d.editEntry (Entry.setKey (some p.2)) p.1).1 :=
        persists_editEntry (fun h => absurd trivial h) p.1 d
      exact hkey.trans_self (ih _)

theorem persists_generateKeysFrom (c : Prop) (d : Document) (index : FieldIndex)
    (template : Text) : Persists c True d (d.generateKeysFrom index template).1 := by
  unfold generateKeysFrom
  split
  · exact persists_setKeys c _ d
  · exact .refl c True d

theorem persists_push (c k : Prop) (d : Document) (n : Node) : Persists c k d (d.push n) := by
  intro id m hm
  refine ⟨m, ?_, .refl c k m⟩
  unfold node? at hm ⊢
  rw [nodes_push, List.getElem?_append_left (List.getElem?_eq_some_iff.1 hm).1, hm]

/-! ## the order -/

/-- No handle stands in the order twice, and all are of the arena. -/
structure IsArena (d : Document) : Prop where
  nodup : d.order.Nodup
  lt_length : ∀ id ∈ d.order, id < d.nodes.length

theorem isArena_parse (s : Text) : (parse s).1.IsArena where
  nodup := List.nodup_range
  lt_length _ hid := List.mem_range.1 hid

namespace IsArena

/-- Handles that are left of the order, in any order. -/
theorem of_subperm (h : d.IsArena) (horder : d'.order.Subperm d.order)
    (hlength : d.nodes.length ≤ d'.nodes.length) : d'.IsArena where
  nodup := by
    obtain ⟨l, hperm, hsublist⟩ := horder
    exact hperm.nodup_iff.1 (h.nodup.sublist hsublist)
  lt_length id hid := Nat.lt_of_lt_of_le (h.lt_length id (horder.subset hid)) hlength

/-- The handle of an added node is fresh. -/
theorem push (h : d.IsArena) (n : Node) : (d.push n).IsArena where
  nodup := by
    rw [order_push, List.nodup_append]
    refine ⟨h.nodup, List.nodup_singleton _, fun id hid j hj => ?_⟩
    obtain rfl := List.mem_singleton.1 hj
    exact Nat.ne_of_lt (h.lt_length id hid)
  lt_length id hid := by
    rw [nodes_push, List.length_append, List.length_singleton]
    rw [order_push, List.mem_append, List.mem_singleton] at hid
    obtain hid | rfl := hid
    · exact Nat.lt_succ_of_lt (h.lt_length id hid)
    · exact Nat.lt_succ_self _

end IsArena

end Document

/-! ## actions -/

/-- An action of a session.  Which of the present nodes are kept may depend on anything, for no
handle stands in the order twice. -/
inductive Action where
  | push (n : Node)
  | retain (keep : NodeId → Bool)
  | remove (id : NodeId)
  | operate (op : Operation)

namespace Action

open Document

/-- What an action makes of a document. -/
def run (d : Document) : Action → Document
  | push n => d.push n
  | retain keep => d.retain keep
  | remove id => d.remove id
  | operate op => (op.run d).1

/-- What a session makes of a document. -/
def runAll (d : Document) (as : List Action) : Document := as.foldl run d

/-- Whether an action may change commentary. -/
def editsCommentary : Action → Prop
  | operate .tidyComments => True
  | _ => False

/-- Whether an action may change citation keys. -/
def editsKeys : Action → Prop
  | operate (.generateKeys _ _) | operate (.editEntry _ _ _) => True
  | _ => False

/-- What an action does to the order of a document with so many nodes: an added node comes last,
sorting permutes, and anything else removes at most. -/
def Reorders (nodes : Nat) (order order' : List NodeId) : Action → Prop
  | push _ => order' = order ++ [nodes]
  | operate (.sortEntries _ _) => order'.Perm order
  | _ => order'.Sublist order

/-- **The nodes through an action.** -/
theorem persists_run (a : Action) (d : Document) :
    Persists a.editsCommentary a.editsKeys d (a.run d) := by
  cases a with
  | push n => exact persists_push _ _ d n
  | retain keep => exact .of_nodes_eq rfl
  | remove id => exact .of_nodes_eq rfl
  | operate op =>
      cases op with
      | stripComments => exact .of_nodes_eq rfl
      | tidyComments => exact persists_tidyCommentsFrom _ true d.order d
      | removeNamed names => exact persists_editFields _ _ _ d
      | removeEmptyFields => exact persists_editFields _ _ _ d
      | removeDuplicateFields => exact persists_editFields _ _ _ d
      | normalize steps => exact persists_editFields _ _ _ d
      | checkKeys => exact .refl _ _ d
      | detect index rules => exact persists_detect _ _ d index rules
      | merge clusters strategy => exact persists_merge _ _ d clusters strategy
      | sortEntries index keys =>
          refine .of_nodes_eq ?_
          unfold run Operation.run sortEntries
          dsimp only
          split <;> rfl
      | sortFields order => exact persists_editFields _ _ _ d
      | generateKeys index template => exact persists_generateKeysFrom _ d index template
      | editEntry f exact_ id => exact persists_editEntry (fun h => absurd trivial h) id d

/-- **The order through an action.** -/
theorem reorders_run (a : Action) (d : Document) :
    a.Reorders d.nodes.length d.order (a.run d).order := by
  cases a with
  | push n => exact order_push d n
  | retain keep => exact List.filter_sublist
  | remove id => exact List.filter_sublist
  | operate op =>
      cases op with
      | stripComments => exact stripComments_sublist d
      | tidyComments => exact (order_tidyComments d).symm ▸ .refl d.order
      | removeNamed names => exact .refl _
      | removeEmptyFields => exact .refl _
      | removeDuplicateFields => exact .refl _
      | normalize steps => exact .refl _
      | checkKeys => exact .refl _
      | detect index rules => exact (edits_detect d index rules).order.symm ▸ .refl d.order
      | merge clusters strategy => exact merge_sublist d clusters strategy
      | sortEntries index keys => exact sortEntries_perm d index keys
      | sortFields order => exact .refl _
      | generateKeys index template =>
          exact (edits_generateKeysFrom d index template).order.symm ▸ .refl d.order
      | editEntry f exact_ id => exact (order_editNode (Node.editEntry f) id d).symm ▸ .refl d.order

theorem isArena_run {d : Document} (h : d.IsArena) (a : Action) : (a.run d).IsArena := by
  have hlength := (a.persists_run d).length_le
  have horder := a.reorders_run d
  cases a with
  | push n => exact h.push n
  | retain keep => exact h.of_subperm (List.Sublist.subperm horder) hlength
  | remove id => exact h.of_subperm (List.Sublist.subperm horder) hlength
  | operate op =>
      refine h.of_subperm ?_ hlength
      cases op with
      | sortEntries index keys => exact (sortEntries_perm d index keys).subperm
      | _ => exact List.Sublist.subperm horder

/-- **The nodes through a session.** -/
theorem persists_runAll (as : List Action) (d : Document) :
    Persists (∃ a ∈ as, a.editsCommentary) (∃ a ∈ as, a.editsKeys) d (runAll d as) := by
  induction as generalizing d with
  | nil => exact .refl _ _ d
  | cons a as ih =>
      refine ((a.persists_run d).trans (ih (a.run d))).mono ?_ ?_ <;> simp

theorem isArena_runAll {d : Document} (h : d.IsArena) (as : List Action) :
    (runAll d as).IsArena := by
  induction as generalizing d with
  | nil => exact h
  | cons a as ih => exact ih (isArena_run h a)

/-- **Handles are good for ever.**  Let a document be empty or a text that was read, and let any
actions be taken on it.  Then no handle stands in its order twice, and all are of its arena.  The
next action adds a fresh handle, permutes the order or removes from it, as its kind is.  After any
further actions the arena has not shrunk, and every handle has a text, or a block of its command,
delimiter and kind: texts and comments are what they were if no action has brought commentary into
shape, citation keys if none has set keys, and preambles, definitions and what could not be read in
any case. -/
theorem session (start : Option Text) (as bs : List Action) (b : Action) :
    let d := runAll (start.elim {} fun s => (parse s).1) as
    d.order.Nodup ∧ (∀ id ∈ d.order, id < d.nodes.length) ∧
    b.Reorders d.nodes.length d.order (b.run d).order ∧
    d.nodes.length ≤ (runAll d bs).nodes.length ∧
    ∀ id n, d.node? id = some n → ∃ n', (runAll d bs).node? id = some n' ∧
      n.Persists (∃ a ∈ bs, a.editsCommentary) (∃ a ∈ bs, a.editsKeys) n' := by
  intro d
  have hstart : (start.elim {} fun s => (parse s).1 : Document).IsArena := by
    cases start with
    | none => exact ⟨List.nodup_nil, fun id hid => absurd hid List.not_mem_nil⟩
    | some s => exact isArena_parse s
  have harena : d.IsArena := isArena_runAll hstart as
  exact ⟨harena.nodup, harena.lt_length, b.reorders_run d, (persists_runAll bs d).length_le,
    persists_runAll bs d⟩

end Action

end Bibliography
