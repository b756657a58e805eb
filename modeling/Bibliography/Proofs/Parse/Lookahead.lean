import Bibliography.Proofs.Parse.Verbatim

/-!
# Bibliography.Proofs.Parse.Lookahead

What a block needs of the text that follows it.  A block that ends with its
closing bracket needs nothing.  One that has none goes on to the end of the
text, or to an `@` at the start of a line; it is read the same wherever the text
ends after it, or goes on with an `@`.

* `Cursor.ended_of_entry_unclosed` — where an entry without its closing bracket
  ends;
* `Block.ReadsAs.lookahead` — the three kinds of block.
-/

namespace Bibliography

theorem FieldsRead.unclosed_of_toEntry {key : Option Text} {r : FieldsRead} {e : Entry} {p : Cursor}
    (h : r.toEntry key = .unclosed e p) : ∃ fs, r = .unclosed fs p := by
  cases r with
  | unclosed fs q =>
      obtain ⟨-, rfl⟩ := EntryRead.unclosed.inj h
      exact ⟨fs, rfl⟩
  | _ => cases h

namespace Cursor

variable {c p : Cursor} {w : Text} {d : Delimiter}

theorem ended_of_fields_unclosed {fs : List Field} (h : c.fields d.closing = .unclosed fs p) :
    p.Ended := by
  induction c using fields_induction (d := d) generalizing fs with
  | close _ _ _ hf => simp [hf] at h
  | comma _ _ _ hf ih => exact ih (hf ▸ h)
  | ended _ hend hf =>
      rw [hf] at h
      obtain ⟨-, rfl⟩ := FieldsRead.unclosed.inj h
      exact hend
  | noName _ _ _ hf => simp [hf] at h
  | noEquals _ _ _ _ hf => simp [hf] at h
  | malformed _ _ _ _ _ _ _ hf => simp [hf] at h
  | cut _ _ _ _ _ _ hf =>
      rw [hf] at h
      obtain ⟨-, rfl⟩ := FieldsRead.unclosed.inj h
      exact .inl rfl
  | field _ name _ v _ r _ _ _ hf ih =>
      rw [hf] at h
      cases hr : r.fields d.closing with
      | closed _ _ => simp [hr, FieldsRead.cons] at h
      | malformed _ _ => simp [hr, FieldsRead.cons] at h
      | unclosed gs q =>
          rw [hr] at h
          obtain ⟨-, rfl⟩ := FieldsRead.unclosed.inj h
          exact ih hr
  | last _ _ _ _ _ _ _ _ _ hf => simp [hf] at h
  | unclosed _ _ _ _ _ _ _ hend hf =>
      rw [hf] at h
      obtain ⟨-, rfl⟩ := FieldsRead.unclosed.inj h
      exact hend
  | missing _ _ _ _ _ _ _ _ hf => simp [hf] at h

/-- **An entry without its closing bracket** ends with the text, or in front of a block at the
start of a line. -/
theorem ended_of_entry_unclosed {e : Entry} (h : c.entry d.closing = .unclosed e p) : p.Ended := by
  by_cases hk : ∃ key q, c.KeyAt key q
  · obtain ⟨key, q, hkey⟩ := hk
    rw [entry_key hkey, afterKey] at h
    obtain ⟨r, hr⟩ | ⟨r, hr⟩ | hend | hother := separator_cases d q
    · rw [separator_comma _ hr] at h
      obtain ⟨fs, hfs⟩ := FieldsRead.unclosed_of_toEntry h
      exact ended_of_fields_unclosed hfs
    · simp [separator_closing hr] at h
    · rw [separator_ended hend] at h
      obtain ⟨-, rfl⟩ := EntryRead.unclosed.inj h
      exact hend
    · simp [separator_missing hother] at h
  · rw [entry_noKey fun key q hkey => hk ⟨key, q, hkey⟩] at h
    obtain ⟨fs, hfs⟩ := FieldsRead.unclosed_of_toEntry h
    exact ended_of_fields_unclosed hfs

/-- A missing citation key is no recovery. -/
theorem isRecovery_keyCauses (command : Text) (e : Entry) :
    ∀ cause ∈ keyCauses command e, cause.isRecovery = false := by
  unfold keyCauses
  split <;> simp [Cause.isRecovery, Cause.code]

/-- An entry without its closing bracket that ended in front of the end of the stem is read as it
was. -/
theorem entryBlock_unclosed_extend (command : Text) {e : Entry} (hp : p.after ≠ [])
    (he : (c.extend w).entry d.closing = .unclosed e (p.extend w)) (z : Text) :
    (c.extend z).entryBlock command d =
      { (c.extend w).entryBlock command d with rest := p.after ++ z } := by
  have he' : (c.extend z).entry d.closing = .unclosed e (p.extend z) := by
    rw [entry_extend (by rw [he]; rfl) (by rw [he]; exact .inl hp), he]
    rfl
  simp [entryBlock, he, he', blockRead, hp]

end Cursor

namespace Block

variable {b : Block} {causes : List Cause} {s w : Text}

/-- A block is read from the text after its `@`, the text being followed by `rest`. -/
def ReadsAs (b : Block) (s rest : Text) : Prop :=
  ∃ causes, read? (s ++ rest) = some ⟨b, causes, rest⟩

/-- What a block needs of the text `w` after it.  It needs nothing, or that the text ends there,
or that its line does, as the `@` that comes next says: then it can be the `@` of any text. -/
inductive Lookahead (b : Block) (s w : Text) : Prop where
  | closed (h : ∀ z, b.ReadsAs s z)
  | atEnd (h : w = [])
  | atLine (hat : w.head? = some '@') (hline : ('@' :: s).getLast? = some '\n')
      (h : ∀ z, Follows z → b.ReadsAs s z)

/-- A block is read from its source. -/
theorem ReadsAs.source (h : b.ReadsAs s w) : b.source = some ('@' :: s) := by
  obtain ⟨causes, hb⟩ := h
  obtain ⟨t, hsource, ht⟩ := source_append_rest hb
  obtain rfl : t = s := List.append_cancel_right ht
  exact hsource

/-- What was read in front of a text is read at the end. -/
theorem ReadsAs.nil (h : b.ReadsAs s w) : b.ReadsAs s [] := by
  obtain ⟨causes, hb⟩ := h
  obtain ⟨⟨b', causes', rest⟩, hread, ⟨rfl, -⟩, rfl⟩ :=
    read?_extend (z := []) (r := []) hb rfl (.inl rfl)
  exact ⟨causes', hread⟩

/-- A block that was understood up to its closing bracket is read in front of any text. -/
theorem readsAs_of_isClean (hb : read? (s ++ w) = some ⟨b, causes, w⟩)
    (hclean : BlockRead.IsClean ⟨b, causes, w⟩) (z : Text) : b.ReadsAs s z := by
  obtain ⟨⟨b', causes', rest⟩, hread, ⟨rfl, -⟩, rfl⟩ :=
    read?_extend (z := z) (r := []) hb rfl (.inr hclean)
  exact ⟨causes', hread⟩

/-- It needs nothing. -/
theorem lookahead_of_isClean (hb : read? (s ++ w) = some ⟨b, causes, w⟩)
    (hclean : BlockRead.IsClean ⟨b, causes, w⟩) : b.Lookahead s w :=
  .closed (readsAs_of_isClean hb hclean)

/-- A payload without its closing bracket goes on to the end of the text. -/
theorem lookahead_of_payload {c : Cursor} {kind : BlockKind} {command : Text} {d : Delimiter}
    (hb : read? (s ++ w) = some ⟨b, causes, w⟩)
    (hread : c.payloadBlock kind command d = ⟨b, causes, w⟩) : b.Lookahead s w := by
  rw [Cursor.payloadBlock] at hread
  split at hread
  · obtain ⟨-, rfl, -⟩ := BlockRead.mk.inj hread
    exact lookahead_of_isClean hb (List.forall_mem_nil _)
  · obtain ⟨-, -, hrest⟩ := BlockRead.mk.inj hread
    exact .atEnd hrest.symm

/-- An entry without its closing bracket that ended at an `@` ends at any `@` in its place. -/
theorem lookahead_of_unclosed {c place : Cursor} {d : Delimiter} {e : Entry}
    (hb : read? (s ++ w) = some ⟨b, causes, w⟩)
    (hkind : BlockKind.ofCommand ((s ++ w).takeWhile Scan.isCommandChar) = .entry)
    (hne : (s ++ w).takeWhile Scan.isCommandChar ≠ [])
    (hc : ((⟨['@'], s ++ w⟩ : Cursor).skip Scan.isCommandChar).CharAt d.opening c)
    (he : c.entry d.closing = .unclosed e place)
    (hread : c.entryBlock ((s ++ w).takeWhile Scan.isCommandChar) d = ⟨b, causes, w⟩) :
    b.Lookahead s w := by
  have hplace : place.after = w ∧ some place.before.reverse = b.source := by
    rw [Cursor.entryBlock, he] at hread
    obtain ⟨rfl, -, hafter⟩ := BlockRead.mk.inj hread
    exact ⟨hafter, rfl⟩
  obtain ⟨hafter, hsource⟩ := hplace
  obtain hend | hend := Cursor.ended_of_entry_unclosed he
  · exact .atEnd (hafter.symm.trans hend)
  obtain ⟨hline, hat⟩ := Cursor.atLineBlock_iff.1 hend
  rw [hafter] at hat
  have hbefore : place.before.reverse = '@' :: s :=
    Option.some.inj (hsource.trans (ReadsAs.source ⟨causes, hb⟩))
  refine .atLine hat (by rw [← hbefore, List.getLast?_reverse, hline]) fun z hz => ?_
  obtain rfl | hz := hz
  · exact ReadsAs.nil ⟨causes, hb⟩
  obtain ⟨z, rfl⟩ := List.head?_eq_some_iff.1 hz
  obtain ⟨w, rfl⟩ := List.head?_eq_some_iff.1 hat
  -- With the `@` the end of the entry is in the stem.
  have hstem (v : Text) : s ++ '@' :: v = (s ++ ['@']) ++ v := by simp
  obtain ⟨p, rfl, hp⟩ := Cursor.exists_extend_of_after (u := ['@']) hafter
  have hlead : c.Leads (p.extend w) := by
    simpa [he, EntryRead.place] using Cursor.leads_entry d.closing c
  obtain ⟨c, rfl, -⟩ := hlead.exists_extend
  rw [hstem] at hkind hne hc hread
  refine ⟨causes, ?_⟩
  rw [hstem z, read?_of_stem hne hc z, Cursor.blockBody_of_entry hkind,
    Cursor.entryBlock_unclosed_extend _ (by simp [hp]) he, hread, hp]
  rfl

/-- A block that was kept verbatim up to its line is kept up to any line in its place. -/
theorem lookahead_of_verbatim {t : Text} (hb : read? (s ++ w) = some ⟨b, causes, w⟩)
    (hbody : b.body = .verbatim t) : b.Lookahead s w := by
  have hsource := ReadsAs.source ⟨causes, hb⟩
  have hkeep : b.keep ('@' :: s) = b := by
    have ht : t = '@' :: s := Option.some.inj ((source_of_verbatim hb hbody).symm.trans hsource)
    rw [keep, ← ht, ← hbody, ht, ← hsource]
  obtain ⟨-, hkept⟩ | ⟨hrest, -⟩ := read?_kept (w := []) hb hbody rfl (List.forall_mem_nil _)
  · exact .closed fun z => ⟨causes, by rw [hkept z, hkeep]⟩
  obtain hnil | ⟨hat, hline⟩ := hrest
  · exact .atEnd hnil
  rw [List.append_nil, List.head?_reverse] at hline
  refine .atLine hat hline fun z hz => ?_
  -- The end of the line is the gap.
  obtain ⟨u, hu⟩ := List.getLast?_eq_some_iff.1 hline
  cases u with
  | nil => simp at hu
  | cons x u =>
      obtain ⟨-, rfl⟩ : '@' = x ∧ s = u ++ ['\n'] := List.cons.inj hu
      rw [List.append_assoc] at hb
      have hgap : ∀ x ∈ ['\n'], Text.isBlank x = true := by simp [Text.isBlank]
      obtain ⟨hnil, -⟩ | ⟨-, hkept⟩ := read?_kept hb hbody rfl hgap
      · cases hnil
      · refine ⟨causes, ?_⟩
        rw [List.append_assoc, hkept _ z ⟨hgap, hz.imp_right fun h => ⟨h, rfl⟩⟩, hkeep]

/-- **What a block needs of the text after it.** -/
theorem ReadsAs.lookahead (h : b.ReadsAs s w) : b.Lookahead s w := by
  obtain ⟨causes, hb⟩ := h
  obtain ⟨hne, d, c, hc, hread⟩ := read?_eq_some_iff.1 hb
  by_cases hkind : BlockKind.ofCommand ((s ++ w).takeWhile Scan.isCommandChar) = .entry
  · rw [Cursor.blockBody_of_entry hkind] at hread
    cases he : c.entry d.closing with
    | closed e stop =>
        rw [Cursor.entryBlock, he] at hread
        refine lookahead_of_isClean hb ?_
        rw [hread]
        exact Cursor.isRecovery_keyCauses _ e
    | unclosed e place => exact lookahead_of_unclosed hb hkind hne hc he hread.symm
    | malformed reason place =>
        rw [Cursor.entryBlock_malformed he] at hread
        refine lookahead_of_verbatim hb (t := (c.verbatimEnd d place).before.reverse) ?_
        rw [(BlockRead.mk.inj hread).1]
  · rw [Cursor.blockBody_of_ne_entry rfl hkind] at hread
    exact lookahead_of_payload hb hread.symm

end Block

end Bibliography
