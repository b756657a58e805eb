import Bibliography.Proofs.Grammar.Fields
import Bibliography.Proofs.Parse.Findings

/-!
# Bibliography.Proofs.Grammar.Acceptance

Entries of the grammar, and which of them are accepted.  The grammar and the
reader look at an entry in the same order, so one lemma for each part says under
which condition the reader goes along (`EntryRead.Decides`).  In a document a
place is read only if no earlier block goes over it.

* `Cursor.decides_entry` — an entry is read if it is orderly;
* `Grammar.EntryAt.exists_read?` — the block that is read at its place;
* `Piece.Cut.block_at` — that block is in the document, or another one goes over
  the place;
* `Document.isAccepted_iff` — the entries that are accepted.
-/

namespace Bibliography

open Scan

namespace Grammar

variable {s stop : Text} {tree : Tree} {ts : List Tree} {d : Delimiter}

/-! ## entries -/

/-- What stands in an entry can be read: fields are separated by commas, and no line begins with an
`@` where a word does. -/
structure IsOrderly (s : Text) (ts : List Tree) : Prop where
  commas : (ts.filter fun t => t.rule = .field).IsChain fun t u => Text.CommaBefore t.stop u.start
  lines : ∀ t ∈ ts, ∀ w ∈ t.withInner, ¬ Text.AtLine s w.start

instance (s : Text) (ts : List Tree) : Decidable (IsOrderly s ts) :=
  decidable_of_iff (((ts.filter fun t => t.rule = .field).IsChain fun t u =>
      Text.CommaBefore t.stop u.start) ∧ ∀ t ∈ ts, ∀ w ∈ t.withInner, ¬ Text.AtLine s w.start)
    ⟨fun h => ⟨h.1, h.2⟩, fun h => ⟨h.commas, h.lines⟩⟩

theorem filter_manyFields (s : Text) :
    ((manyFields s).1.filter fun t => t.rule = .field) = (manyFields s).1 :=
  List.filter_eq_self.2 fun t ht => by simpa using rule_of_mem_manyFields s t ht

theorem closesFields_of_fields (h : (fields s).2.1.dropWhile Text.isBlank = d.closing :: stop) :
    ClosesFields d s stop := by
  have hfields : (fields s).2.1 = (manyCommas (manyFields s).2.1).1.dropWhile Text.isBlank := rfl
  rwa [hfields, (Text.stops_dropWhile _ _).dropWhile_eq] at h

/-- Without a citation key, an entry has nothing but fields. -/
theorem isOrderly_fields {u : Text} :
    IsOrderly s (manyFields u).1 ↔ AreApart s (manyFields u).1 := by
  refine ⟨fun h => ⟨?_, h.lines⟩, fun h => ⟨?_, h.lines⟩⟩
  · have hcommas := h.commas
    rwa [filter_manyFields] at hcommas
  · rw [filter_manyFields]
    exact h.commas

theorem filter_afterKey (s : Text) :
    ((afterKey s).1.filter fun t => t.rule = .field) = (afterKey s).1 := by
  by_cases hcomma : s.head? = some ','
  · obtain ⟨t, rfl⟩ := List.head?_eq_some_iff.1 hcomma
    exact filter_manyFields t
  · rw [(afterKey_eq hcomma).1]
    rfl

/-- A citation key is a word, and what follows it are fields. -/
theorem isOrderly_key {u v w : Text} : IsOrderly s (.node .entryKey v w [] :: (afterKey u).1) ↔
    ¬ Text.AtLine s v ∧ AreApart s (afterKey u).1 := by
  have hfilter : ((Tree.node .entryKey v w [] :: (afterKey u).1).filter
      fun t => t.rule = .field) = (afterKey u).1 := by
    rw [List.filter_cons_of_neg (by simp [Tree.rule]), filter_afterKey]
  have hkey : (∀ t ∈ (Tree.node .entryKey v w []).withInner, ¬ Text.AtLine s t.start) ↔
      ¬ Text.AtLine s v := by
    simp [Tree.withInner, Tree.children, Tree.start]
  constructor
  · rintro ⟨hcommas, hlines⟩
    rw [hfilter] at hcommas
    obtain ⟨hfirst, hlines⟩ := List.forall_mem_cons.1 hlines
    exact ⟨hkey.1 hfirst, hcommas, hlines⟩
  · rintro ⟨hfirst, hcommas, hlines⟩
    exact ⟨by rwa [hfilter], List.forall_mem_cons.2 ⟨hkey.2 hfirst, hlines⟩⟩

end Grammar

/-- An entry of the grammar is read up to the closing bracket exactly if a condition holds. -/
structure EntryRead.Decides (r : EntryRead) (good : Prop) (ts : List Grammar.Tree) (stop : Text) :
    Prop where
  read : good → ∃ e p, r = .closed e p ∧ p.after = stop ∧ e.fields.map Field.name =
    (ts.filter fun t => t.rule = .field).map Grammar.Tree.fieldName
  good : ∀ e p, r = .closed e p → good

theorem FieldsRead.Decides.toEntry {r : FieldsRead} {good : Prop} {ts : List Grammar.Tree}
    {us : List Grammar.Tree} {stop : Text} (h : r.Decides good ts stop) (key : Option Text)
    (hts : (us.filter fun t => t.rule = .field) = ts) : (r.toEntry key).Decides good us stop where
  read hgood := by
    obtain ⟨fs, p, rfl, hp, hnames⟩ := h.read hgood
    exact ⟨_, p, rfl, hp, by rw [hts]; exact hnames⟩
  good e p hr := by
    obtain ⟨fs, -, rfl⟩ := exists_of_toEntry_closed hr
    exact h.good fs p rfl

namespace EntryRead.Decides

variable {r : EntryRead} {good good' : Prop} {ts : List Grammar.Tree} {stop : Text}

theorem congr (h : r.Decides good ts stop) (hgood : good ↔ good') : r.Decides good' ts stop :=
  ⟨fun h' => h.read (hgood.2 h'), fun e p hr => hgood.1 (h.good e p hr)⟩

end EntryRead.Decides

namespace Cursor

variable {c p : Cursor} {d : Delimiter} {stop : Text}

/-- An entry without a citation key. -/
theorem decides_keyless (hkey : ∀ key p, ¬ c.KeyAt key p)
    (hclose : (Grammar.keyless (Grammar.ign c.after).1).2.1.dropWhile Text.isBlank =
      d.closing :: stop) :
    (c.entry d.closing).Decides
      (Grammar.IsOrderly c.text (Grammar.keyless (Grammar.ign c.after).1).1)
      (Grammar.keyless (Grammar.ign c.after).1).1 stop := by
  obtain ⟨q, htext, hfields, hafter⟩ : ∃ q : Cursor, q.text = c.text ∧
      c.fields d.closing = q.fields d.closing ∧
      (Grammar.optional ',' (Grammar.ign c.after).1).1 = q.after := by
    by_cases hcomma : c.skipBlank.after.head? = some ','
    · obtain ⟨t, ht⟩ := List.head?_eq_some_iff.1 hcomma
      have hp : c.CharAt ',' (c.skipBlank.past [','] t) := ⟨t, ht, rfl⟩
      rw [after_skipBlank] at ht
      exact ⟨_, hp.leads.text_eq, fields_comma hp,
        congrArg (fun u => (Grammar.optional ',' u).1) ht⟩
    · refine ⟨c.skipBlank, (leads_skipBlank c).text_eq, (fields_skipBlank _ c).symm, ?_⟩
      rw [after_skipBlank] at hcomma ⊢
      exact Grammar.optional_eq hcomma
  have hkeyless : (Grammar.keyless (Grammar.ign c.after).1).1 = (Grammar.manyFields q.after).1 := by
    rw [← hafter]
    rfl
  have hstop : (Grammar.keyless (Grammar.ign c.after).1).2.1 = (Grammar.fields q.after).2.1 := by
    rw [← hafter]
    rfl
  rw [hstop] at hclose
  rw [entry_noKey hkey, hkeyless, hfields, ← htext]
  exact ((decides_fields (Grammar.closesFields_of_fields hclose)).congr
    Grammar.isOrderly_fields.symm).toEntry none (Grammar.filter_manyFields _)

/-- What follows a citation key. -/
theorem decides_afterKey (key v w : Text)
    (hclose : (Grammar.afterKey c.skipBlank.after).2.1.dropWhile Text.isBlank = d.closing :: stop) :
    (c.afterKey d.closing key).Decides
      (Grammar.AreApart c.text (Grammar.afterKey c.skipBlank.after).1)
      (.node .entryKey v w [] :: (Grammar.afterKey c.skipBlank.after).1) stop := by
  have hfilter : ((Grammar.Tree.node .entryKey v w [] ::
      (Grammar.afterKey c.skipBlank.after).1).filter fun t => t.rule = .field) =
        (Grammar.afterKey c.skipBlank.after).1 := by
    rw [List.filter_cons_of_neg (by simp [Grammar.Tree.rule]), Grammar.filter_afterKey]
  by_cases hcomma : c.skipBlank.after.head? = some ','
  · obtain ⟨t, ht⟩ := List.head?_eq_some_iff.1 hcomma
    have hq : c.CharAt ',' (c.skipBlank.past [','] t) := ⟨t, ht, rfl⟩
    rw [ht] at hclose hfilter ⊢
    have hfields : Grammar.ClosesFields d t stop := Grammar.closesFields_of_fields hclose
    rw [afterKey, separator_comma _ hq, ← hq.leads.text_eq]
    exact FieldsRead.Decides.toEntry (decides_fields hfields) (some key) hfilter
  · obtain ⟨htrees, hrest⟩ := Grammar.afterKey_eq hcomma
    have hstops : Text.Stops Text.isBlank c.skipBlank.after := Text.stops_dropWhile _ _
    rw [hrest, hstops.dropWhile_eq] at hclose
    rw [htrees] at hfilter ⊢
    rw [afterKey, separator_closing ⟨stop, hclose, rfl⟩]
    exact ⟨fun _ => ⟨_, _, rfl, rfl, by rw [hfilter]; rfl⟩, fun _ _ _ => .nil _⟩

/-- **An entry** is read as that of the grammar is. -/
theorem decides_entry (hclose : (Grammar.entryBody c.after).2.1 = d.closing :: stop) :
    (c.entry d.closing).Decides (Grammar.IsOrderly c.text (Grammar.entryBody c.after).1)
      (Grammar.entryBody c.after).1 stop := by
  cases hword : Grammar.word .entryKey isKeyChar (Grammar.ign c.after).1 with
  | none =>
      obtain ⟨htrees, hrest⟩ := Grammar.entryBody_of_none hword
      rw [hrest] at hclose
      rw [htrees]
      refine decides_keyless (fun key p => not_keyAt_of_stops ?_) hclose
      rw [after_skipBlank]
      exact Grammar.word_eq_none hword
  | some m =>
      obtain ⟨key, r⟩ := m
      obtain ⟨hne, hr, hkey⟩ := Grammar.word_eq_some hword
      have hafter : (c.skipBlank.skip isKeyChar).skipBlank.after = (Grammar.ign r.1).1 := by
        rw [after_skipBlank, after_skip, after_skipBlank]
        exact congrArg (List.dropWhile Text.isBlank) hr.symm
      by_cases hequals : (Grammar.ign r.1).1.head? = some '='
      · obtain ⟨htrees, hrest⟩ := Grammar.entryBody_of_name hword hequals
        rw [hrest] at hclose
        rw [htrees]
        refine decides_keyless (fun key p h => h.noEquals ?_) hclose
        rw [h.place, hafter]
        exact hequals
      obtain ⟨htrees, hrest⟩ := Grammar.entryBody_of_key hword hequals
      rw [hrest] at hclose
      rw [← hafter] at hclose hrest htrees
      have hline : c.skipBlank.atLineBlock = true ↔
          Text.AtLine c.text (Grammar.ign c.after).1 := by
        rw [atLineBlock_iff_atLine, (leads_skipBlank c).text_eq, after_skipBlank]
        rfl
      rw [htrees, hkey]
      by_cases hat : c.skipBlank.atLineBlock = true
      · rw [entry_noKey fun key p h => by simp [h.line] at hat, fields_ended (.inr hat)]
        refine ⟨fun h => ?_, nofun⟩
        exact absurd (hline.1 hat) (Grammar.isOrderly_key.1 h).1
      have hkeyAt : c.KeyAt (c.skipBlank.after.takeWhile isKeyChar)
          (c.skipBlank.skip isKeyChar) :=
        ⟨by simpa using hat, by rw [after_skipBlank]; exact hne, rfl, rfl, by rwa [hafter]⟩
      have htext : (c.skipBlank.skip isKeyChar).text = c.text :=
        ((leads_skipBlank c).trans (leads_skip _ _)).text_eq
      rw [entry_key hkeyAt]
      refine (decides_afterKey _ _ _ hclose).congr ?_
      rw [Grammar.isOrderly_key, htext]
      exact ⟨fun h => ⟨fun h' => hat (hline.2 h'), h⟩, And.right⟩

end Cursor

/-! ## blocks -/

theorem Grammar.isOrderly_command {s u v : Text} {ts : List Tree} (h : u.head? ≠ some '@') :
    IsOrderly s (.node .command u v [] :: ts) ↔ IsOrderly s ts := by
  have hfilter : ((Tree.node .command u v [] :: ts).filter fun t => t.rule = .field) =
      ts.filter fun t => t.rule = .field := List.filter_cons_of_neg (by simp [Tree.rule])
  have hcommand : ∀ t ∈ (Tree.node .command u v []).withInner, ¬ Text.AtLine s t.start := by
    simp [Tree.withInner, Tree.children, Tree.start, Text.AtLine, h]
  constructor
  · rintro ⟨hcommas, hlines⟩
    rw [hfilter] at hcommas
    exact ⟨hcommas, (List.forall_mem_cons.1 hlines).2⟩
  · rintro ⟨hcommas, hlines⟩
    exact ⟨by rwa [hfilter], List.forall_mem_cons.2 ⟨hcommand, hlines⟩⟩

/-- A block is read as an entry of the grammar, without a finding but a missing citation key. -/
structure BlockRead.IsEntry (b : BlockRead) (t : Grammar.Tree) : Prop where
  clean : b.IsClean
  rest : b.rest = t.stop
  body : ∃ e, b.block.body = .entry e ∧
    e.fields.map Field.name = t.fields.map Grammar.Tree.fieldName

/-- A block with the body of an entry is read as one exactly if its entry is. -/
theorem EntryRead.Decides.isEntry_iff {p : Cursor} {d : Delimiter} {good : Prop} {t : Grammar.Tree}
    {ts : List Grammar.Tree} (command : Text) (h : (p.entry d.closing).Decides good ts t.stop)
    (hfields : t.fields = ts.filter fun t => t.rule = .field) :
    (p.entryBlock command d).IsEntry t ↔ good := by
  constructor
  · rintro ⟨hclean, -, e', hbody, -⟩
    cases he : p.entry d.closing with
    | closed e stop => exact h.good e stop he
    | unclosed e place =>
        rw [Cursor.entryBlock, he] at hclean
        have hcause := hclean (.unclosedEntry (place.after = [])) (by simp [Cursor.blockRead])
        simp [Cause.isRecovery, Cause.code] at hcause
    | malformed reason place =>
        rw [Cursor.entryBlock_malformed he] at hbody
        cases hbody
  · intro hgood
    obtain ⟨e, stop, he, hstop, hnames⟩ := h.read hgood
    rw [Cursor.entryBlock, he]
    exact ⟨Cursor.isRecovery_keyCauses _ e, hstop, e, rfl, by rw [hfields]; exact hnames⟩

/-- **Where an entry of the grammar stands**, a block is read. -/
theorem Grammar.EntryAt.exists_read? {u body : Text} {d : Delimiter} {t : Grammar.Tree}
    (h : Grammar.EntryAt u d body t) :
    ∃ b, Block.read? u = some b ∧ (b.IsEntry t ↔
      BlockKind.ofCommand t.command = .entry ∧ Grammar.IsOrderly t.start t.children) := by
  let c : Cursor := (⟨['@'], u⟩ : Cursor).skip isCommandChar
  let p : Cursor := c.skipBlank.past [d.opening] body
  have hopen : c.CharAt d.opening p :=
    ⟨body, by rw [Cursor.after_skipBlank]; exact h.opening, rfl⟩
  have htext : p.text = '@' :: u := ((Cursor.leads_skip _ _).trans hopen.leads).text_eq
  have hread := Block.read?_eq_some_iff.2 ⟨h.command_ne, d, p, hopen, rfl⟩
  have hentry := (Cursor.decides_entry (c := p) h.closing).isEntry_iff
    (u.takeWhile isCommandChar) h.fields_eq
  have hhead : u.head? ≠ some '@' := by
    obtain ⟨x, v, rfl, hx⟩ := Cursor.exists_of_takeWhile_ne_nil h.command_ne
    rintro ⟨rfl⟩
    exact absurd hx (by decide)
  refine ⟨_, hread, ?_⟩
  rw [h.command_eq, h.start_eq, h.children_eq, Grammar.isOrderly_command hhead, ← htext]
  constructor
  · intro hb
    obtain ⟨e, hbody, -⟩ := hb.body
    have hkind := (Block.isWellFormed_of_read? hread hb.clean).kind
    rw [hbody, (Cursor.command_blockBody _ d p).1] at hkind
    have hkind : BlockKind.ofCommand (u.takeWhile isCommandChar) = .entry :=
      (Option.some.inj hkind).symm
    rw [Cursor.blockBody_of_entry hkind] at hb
    exact ⟨hkind, hentry.1 hb⟩
  · rintro ⟨hkind, hgood⟩
    rw [Cursor.blockBody_of_entry hkind]
    exact hentry.2 hgood

/-! ## documents -/

/-- A place in a text that consists of two is in the second, or before the end of the first. -/
theorem Text.place_cases {t rest a v : Text} (h : t ++ rest = a ++ v) :
    (∃ w, rest = w ++ v) ∨ ∃ w, w ≠ [] ∧ t = a ++ w ∧ v = w ++ rest := by
  obtain ⟨w, -, hrest⟩ | ⟨w, ht, hv⟩ := List.append_eq_append_iff.1 h
  · exact .inl ⟨w, hrest⟩
  · cases w with
    | nil => exact .inl ⟨[], hv.symm⟩
    | cons x w => exact .inr ⟨_, List.cons_ne_nil _ _, ht, hv⟩

/-- Where a block can be read, there is one, or another one goes over the place. -/
theorem Piece.Cut.block_at {s a u : Text} {ps : List Piece} {b : BlockRead} (h : Piece.Cut s ps)
    (hs : s = a ++ '@' :: u) (hb : Block.read? u = some b) :
    (∃ as bs, ps = as ++ .block b.block b.causes :: bs ∧ bs.flatMap Piece.written = b.rest) ∨
    ∃ as b' causes bs, ps = as ++ .block b' causes :: bs ∧
      (bs.flatMap Piece.written).length < ('@' :: u).length ∧
      ('@' :: u).length < ((Piece.block b' causes :: bs).flatMap Piece.written).length := by
  induction h generalizing a with
  | nil => simp at hs
  | @block v b' ps hread hcut ih =>
      obtain ⟨t, hsource, rfl⟩ := Block.source_append_rest hread
      cases a with
      | nil =>
          obtain rfl := (List.cons.inj hs).2
          obtain rfl := Option.some.inj (hread.symm.trans hb)
          exact .inl ⟨[], ps, rfl, hcut.written⟩
      | cons x a =>
          obtain ⟨w, hw⟩ | ⟨w, hne, rfl, hw⟩ := Text.place_cases (List.cons.inj hs).2
          · obtain ⟨as, bs, rfl, hbs⟩ | ⟨as, c, causes, bs, rfl, hlengths⟩ := ih hw
            · exact .inl ⟨_ :: as, bs, rfl, hbs⟩
            · exact .inr ⟨_ :: as, c, causes, bs, rfl, hlengths⟩
          · refine .inr ⟨[], _, _, ps, rfl, ?_⟩
            have hpos := List.length_pos_iff.2 hne
            rw [List.flatMap_cons, hcut.written, Piece.written, hsource, Option.getD_some, hw]
            simp only [List.length_append, List.length_cons]
            omega
  | @text t rest ps _ hfree _ hcut ih =>
      obtain ⟨w, hw⟩ | ⟨w, hne, rfl, hw⟩ := Text.place_cases hs
      · obtain ⟨as, bs, rfl, hbs⟩ | ⟨as, c, causes, bs, rfl, hlengths⟩ := ih hw
        · exact .inl ⟨_ :: as, bs, rfl, hbs⟩
        · exact .inr ⟨_ :: as, c, causes, bs, rfl, hlengths⟩
      · -- No `@` of free text begins a block.
        cases w with
        | nil => contradiction
        | cons x w =>
            obtain ⟨rfl, hu⟩ := List.cons.inj hw
            have hnone : Block.read? (w ++ rest) = none := hfree a w rfl
            rw [hu, List.append_eq, hnone] at hb
            cases hb

theorem BlockRead.isClean_iff {b : BlockRead} : b.IsClean ↔
    ∀ code ∈ b.causes.map Cause.code, code ≠ "MALFORMED_BLOCK" ∧ code ≠ "UNTERMINATED_BLOCK" := by
  simp [IsClean, Cause.isRecovery, and_comm]

namespace Document

variable {d : Document} {s : Text} {t : Grammar.Tree}

/-- A place, given by the text from there on, is not inside a block that begins before it. -/
def IsOutside (d : Document) (rest : Text) : Prop :=
  ∀ ms b ns, d.nodes = ms ++ .block b :: ns →
    rest.length ≤ (ns.flatMap Node.original).length ∨
      ((Node.block b :: ns).flatMap Node.original).length ≤ rest.length

/-- An entry of the grammar is accepted: an entry of the document stands where it does, with the
names of its fields, and nothing was recovered. -/
def IsAccepted (s : Text) (t : Grammar.Tree) : Prop :=
  ∃ ms b ns, (parse s).1.nodes = ms ++ .block b :: ns ∧ ns.flatMap Node.original = t.stop ∧
    b.source = some t.text ∧
    (∃ e, b.body = .entry e ∧ e.fields.map Field.name = t.fields.map Grammar.Tree.fieldName) ∧
    ∀ code ∈ (Warning.about (parse s).2 ms.length).map Warning.code,
      code ≠ "MALFORMED_BLOCK" ∧ code ≠ "UNTERMINATED_BLOCK"

/-- Where a node begins is not inside a block. -/
theorem isOutside_of_nodes {ms ns : List Node} {n : Node} (h : d.nodes = ms ++ n :: ns) :
    d.IsOutside ((n :: ns).flatMap Node.original) := by
  intro ms' b ns' h'
  have hle {as bs : List Node} (hsuffix : as <:+ bs) :
      (as.flatMap Node.original).length ≤ (bs.flatMap Node.original).length := by
    obtain ⟨w, rfl⟩ := hsuffix
    rw [List.flatMap_append, List.length_append]
    exact Nat.le_add_left _ _
  have hn : n :: ns <:+ d.nodes := ⟨ms, h.symm⟩
  have hb : .block b :: ns' <:+ d.nodes := ⟨ms', h'.symm⟩
  obtain hsuffix | hsuffix := List.suffix_or_suffix_of_suffix hn hb
  · obtain heq | hsuffix := List.suffix_cons_iff.1 hsuffix
    · exact .inr (by rw [heq])
    · exact .inl (hle hsuffix)
  · exact .inr (hle hsuffix)

/-- The beginning of a text is not inside a block. -/
theorem isOutside_parse (s : Text) : (parse s).1.IsOutside s := by
  have horiginal := original_parse s
  cases hnodes : (parse s).1.nodes with
  | nil =>
      intro ms b ns h
      exact absurd (hnodes.symm.trans h) (by simp)
  | cons n ns =>
      have hsplit : (parse s).1.nodes = [] ++ n :: ns := hnodes
      have h := isOutside_of_nodes hsplit
      rwa [← hnodes, horiginal] at h

/-- **The entries of the grammar that are accepted** are those that do not begin inside an earlier
block, are no comment, preamble or string definition, have a comma between fields, and in which no
citation key, field name or bare token begins with an `@` at the start of a line. -/
theorem isAccepted_iff (ht : t ∈ Grammar.bib s) (hrule : t.rule = .entry) :
    IsAccepted s t ↔ (parse s).1.IsOutside t.start ∧ BlockKind.ofCommand t.command = .entry ∧
      Grammar.IsOrderly t.start t.children := by
  obtain ⟨u, d, body, ⟨a, hs⟩, hentry⟩ := Grammar.exists_of_mem_bib ht hrule
  obtain ⟨b, hread, hiff⟩ := hentry.exists_read?
  obtain ⟨x, hsource, hx⟩ := Block.source_append_rest hread
  constructor
  · rintro ⟨ms, c, ns, hnodes, hns, hc, ⟨e, he, hnames⟩, hcodes⟩
    obtain ⟨v, causes, hread', hcauses⟩ := exists_read hnodes
    obtain ⟨y, hy, rfl⟩ := Block.source_append_rest hread'
    have hplace : (Node.block c :: ns).flatMap Node.original = '@' :: u := by
      rw [List.flatMap_cons, Node.original, hc, Option.getD_some, hns, hentry.text_append_stop]
    have hu : y ++ ns.flatMap Node.original = u := by
      rw [List.flatMap_cons, Node.original, hy, Option.getD_some, List.cons_append] at hplace
      exact (List.cons.inj hplace).2
    rw [hu, hread] at hread'
    obtain rfl := Option.some.inj hread'
    rw [hcauses] at hcodes
    refine ⟨?_, hiff.1 ⟨BlockRead.isClean_iff.2 hcodes, hns, e, he, hnames⟩⟩
    rw [hentry.start_eq, ← hplace]
    exact isOutside_of_nodes hnodes
  · rintro ⟨hout, hgood⟩
    obtain ⟨hclean, hrest, hbody⟩ := hiff.2 hgood
    obtain ⟨as, bs, hps, hbs⟩ | ⟨as, c, causes, bs, hps, hlt, hgt⟩ :=
      (Piece.cut_ofText s).block_at hs.symm hread
    · refine ⟨as.map Piece.node, b.block, bs.map Piece.node, by simp [hps, Piece.node],
        ?_, ?_, hbody, ?_⟩
      · rw [Piece.flatMap_original, hbs, hrest]
      · have hsame : '@' :: x ++ t.stop = t.text ++ t.stop := by
          rw [hentry.text_append_stop, ← hrest, List.cons_append, hx]
        exact hsource.trans (congrArg some (List.append_cancel_right hsame))
      · rw [List.length_map, codes_about hps]
        exact BlockRead.isClean_iff.1 hclean
    · rw [← Piece.flatMap_original] at hlt hgt
      have hnodes : (parse s).1.nodes =
          as.map Piece.node ++ .block c :: bs.map Piece.node := by
        simp [hps, Piece.node]
      rw [hentry.start_eq] at hout
      obtain hle | hle := hout _ _ _ hnodes
      · exact absurd hle (Nat.not_le_of_lt hlt)
      · exact absurd hle (Nat.not_le_of_lt hgt)

/-- An entry with two fields is accepted, an `@` in front of its second value included. -/
theorem isAccepted_twoFields :
    ∃ t ∈ Grammar.bib "@misc\x7bk, a = 1,\nb = @c\x7d".toList, t.rule = .entry ∧
      t.fields.map Grammar.Tree.fieldName = ["a".toList, "b".toList] ∧
      IsAccepted "@misc\x7bk, a = 1,\nb = @c\x7d".toList t := by
  have hmatch : ∃ t ∈ Grammar.bib "@misc\x7bk, a = 1,\nb = @c\x7d".toList, t.rule = .entry ∧
      t.start = "@misc\x7bk, a = 1,\nb = @c\x7d".toList ∧
      t.fields.map Grammar.Tree.fieldName = ["a".toList, "b".toList] ∧
      BlockKind.ofCommand t.command = .entry ∧ Grammar.IsOrderly t.start t.children := by
    decide +kernel
  obtain ⟨t, ht, hrule, hstart, hnames, hgood⟩ := hmatch
  refine ⟨t, ht, hrule, hnames, (isAccepted_iff ht hrule).2 ⟨?_, hgood⟩⟩
  rw [hstart]
  exact isOutside_parse _

/-- An entry that the grammar finds in a text is not accepted. -/
def Refuses (s : Text) : Prop := ∃ t ∈ Grammar.bib s, t.rule = .entry ∧ ¬ IsAccepted s t

/-- An entry is not accepted if no entry of the document has its text. -/
theorem refuses_of_source (h : ∃ t ∈ Grammar.bib s, t.rule = .entry ∧ ∀ n ∈ (parse s).1.nodes,
    ∀ b ∈ n.block?, b.source = some t.text → b.entry?.isSome = false) : Refuses s := by
  obtain ⟨t, ht, hrule, hnot⟩ := h
  refine ⟨t, ht, hrule, ?_⟩
  rintro ⟨ms, b, ns, hnodes, -, hsource, ⟨e, he, -⟩, -⟩
  have hentry := hnot (.block b) (hnodes ▸ by simp) b rfl hsource
  rw [Block.entry?, he] at hentry
  cases hentry

/-- **Each of these conditions is needed.**  In the grammar an `@` at the start of a line begins a
field name as well, fields need no comma between them, a comment may be an entry, and an entry may
stand in the line of a block that could not be understood. -/
theorem refuses_each :
    Refuses "@misc\x7bk,\n@a = 1\x7d".toList ∧
    Refuses "@misc\x7bk, a = \x7b1\x7d b = 2\x7d".toList ∧
    Refuses "@comment(k, a = \"(\")".toList ∧
    Refuses "@misc\x7bk a @misc\x7bb\x7d\x7d".toList := by
  refine ⟨?_, ?_, ?_, ?_⟩ <;> exact refuses_of_source (by decide +kernel)

end Document

end Bibliography
