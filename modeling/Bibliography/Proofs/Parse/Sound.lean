import Bibliography.Proofs.Parse.BlockEnd

/-!
# Bibliography.Proofs.Parse.Sound

Only well-formed blocks are read.  A block that was understood up to its
closing bracket has the tokens that the scanners read, each to its end, so it
is well-formed; there is a lemma for each reader, from the inside out.
-/

namespace Bibliography

namespace FieldsRead

/-- Fields that are closed after the first one are closed. -/
theorem exists_of_cons_closed {f : Field} {r : FieldsRead} {fs : List Field} {p : Cursor}
    (h : r.cons f = .closed fs p) : ∃ gs, fs = f :: gs ∧ r = .closed gs p := by
  cases r with
  | closed gs q =>
      cases h
      exact ⟨gs, rfl, rfl⟩
  | unclosed gs q => cases h
  | malformed m q => cases h

/-- An entry is closed where its fields are. -/
theorem exists_of_toEntry_closed {key : Option Text} {r : FieldsRead} {e : Entry} {p : Cursor}
    (h : r.toEntry key = .closed e p) : ∃ fs, e = { key, fields := fs } ∧ r = .closed fs p := by
  cases r with
  | closed fs q =>
      cases h
      exact ⟨fs, rfl, rfl⟩
  | unclosed fs q => cases h
  | malformed m q => cases h

end FieldsRead

/-- The citation key of an entry that was read. -/
def EntryRead.key? : EntryRead → Option Text
  | closed e _ | unclosed e _ => e.key
  | malformed _ _ => none

theorem FieldsRead.eq_some_of_key?_toEntry {key : Option Text} {r : FieldsRead} {k : Text}
    (h : (r.toEntry key).key? = some k) : key = some k := by
  cases r with
  | closed fs q | unclosed fs q => exact h
  | malformed m q => cases h

namespace Cursor

variable {c p : Cursor} {d : Delimiter}

/-! ## values -/

theorem isClosed_of_moreSegments {v : Value} (h : c.moreSegments = .read v p) : v.IsClosed := by
  induction c using moreSegments_induction generalizing v with
  | last c _ hm =>
      rw [hm] at h
      cases h
      exact List.forall_mem_nil _
  | noSegment c q _ _ hm | cut c q seg _ _ hm | stray c q r _ _ _ hm =>
      rw [hm] at h
      cases h
  | more c q seg stop _ _ hseg hm ih =>
      rw [hm] at h
      obtain ⟨w, rfl, hw⟩ := cons_eq_read h
      exact List.forall_mem_cons.2 ⟨(segment_eq_read_iff.1 hseg).1, ih hw⟩

/-- The segments of a value that is read are closed. -/
theorem isClosed_of_value {v : Value} (h : c.value = .read v p) : v.IsClosed := by
  by_cases hline : c.skipBlank.atLineBlock = true
  · rw [value_noSegment (.inl hline)] at h
    cases h
    exact List.forall_mem_nil _
  · rw [value_segment (by simpa using hline)] at h
    split at h
    · next seg stop hseg =>
      obtain ⟨w, rfl, hw⟩ := cons_eq_read h
      exact List.forall_mem_cons.2
        ⟨(segment_eq_read_iff.1 hseg).1, isClosed_of_moreSegments hw⟩
    · cases h
      exact List.forall_mem_nil _
    · cases h
    · cases h

/-! ## fields and entries -/

/-- A field name that is read is one. -/
theorem NameAt.isRun {name : Text} (h : c.NameAt name p) : Text.IsRun Scan.isKeyChar name := by
  rw [← h.name]
  exact Text.isRun_takeWhile (h.name ▸ h.ne_nil)

theorem KeyAt.isRun {key : Text} (h : c.KeyAt key p) : Text.IsRun Scan.isKeyChar key := by
  rw [← h.key]
  exact Text.isRun_takeWhile (h.key ▸ h.ne_nil)

/-- Fields that are read up to the closing bracket are well-formed. -/
theorem isWellFormed_of_fields {fs : List Field} (h : c.fields d.closing = .closed fs p) :
    ∀ f ∈ fs, f.IsWellFormed := by
  induction c using fields_induction (d := d) generalizing fs with
  | close c q _ hf =>
      rw [hf] at h
      cases h
      exact List.forall_mem_nil _
  | comma c q _ hf ih =>
      rw [hf] at h
      exact ih h
  | field c name q v stop r hname hv _ hf ih =>
      rw [hf] at h
      obtain ⟨gs, rfl, hgs⟩ := FieldsRead.exists_of_cons_closed h
      exact List.forall_mem_cons.2 ⟨⟨hname.isRun, isClosed_of_value hv⟩, ih hgs⟩
  | last c name q v stop r hname hv _ hf =>
      rw [hf] at h
      cases h
      exact List.forall_mem_singleton.2 ⟨hname.isRun, isClosed_of_value hv⟩
  | ended c _ hf | noName c _ _ hf | noEquals c _ _ _ hf | malformed c name q m r _ _ hf
  | cut c name q v _ _ hf | unclosed c name q v stop _ _ _ hf
  | missing c name q v stop _ _ _ hf =>
      rw [hf] at h
      cases h

/-- What follows a citation key is well-formed with it. -/
theorem isWellFormed_of_afterKey {key : Text} {e : Entry} (hkey : Text.IsRun Scan.isKeyChar key)
    (h : c.afterKey d.closing key = .closed e p) : e.IsWellFormed := by
  have hkeys : ∀ k ∈ some key, Text.IsRun Scan.isKeyChar k := by simpa using hkey
  unfold afterKey at h
  split at h
  · obtain ⟨fs, rfl, hfs⟩ := FieldsRead.exists_of_toEntry_closed h
    exact ⟨hkeys, isWellFormed_of_fields hfs⟩
  · cases h
    exact ⟨hkeys, List.forall_mem_nil _⟩
  · cases h
  · cases h

/-- An entry that is read up to the closing bracket is well-formed. -/
theorem isWellFormed_of_entry {e : Entry} (h : c.entry d.closing = .closed e p) :
    e.IsWellFormed := by
  by_cases hkey : ∃ key q, c.KeyAt key q
  · obtain ⟨key, q, hkey⟩ := hkey
    rw [entry_key hkey] at h
    exact isWellFormed_of_afterKey hkey.isRun h
  · rw [entry_noKey fun key q hk => hkey ⟨key, q, hk⟩] at h
    obtain ⟨fs, rfl, hfs⟩ := FieldsRead.exists_of_toEntry_closed h
    exact ⟨by simp, isWellFormed_of_fields hfs⟩

/-- A citation key that is read is one, also where the entry has no closing bracket. -/
theorem isRun_of_key?_entry {key : Text} (h : (c.entry d.closing).key? = some key) :
    Text.IsRun Scan.isKeyChar key := by
  by_cases hkey : ∃ key q, c.KeyAt key q
  · obtain ⟨k, q, hk⟩ := hkey
    rw [entry_key hk, afterKey] at h
    have hsame : k = key := by
      split at h
      · exact Option.some.inj (FieldsRead.eq_some_of_key?_toEntry h)
      · exact Option.some.inj h
      · exact Option.some.inj h
      · cases h
    exact hsame ▸ hk.isRun
  · rw [entry_noKey fun key q hk => hkey ⟨key, q, hk⟩] at h
    cases FieldsRead.eq_some_of_key?_toEntry h

/-! ## blocks -/

variable {command : Text}

theorem key_entryBlock (command : Text) (d : Delimiter) (c : Cursor) :
    (Block.entry? (c.entryBlock command d).block).bind Entry.key = (c.entry d.closing).key? := by
  unfold entryBlock
  split <;> next h => rw [h]; rfl

theorem entry?_payloadBlock {kind : BlockKind} (hkind : kind ≠ .entry) (command : Text)
    (d : Delimiter) (c : Cursor) : Block.entry? (c.payloadBlock kind command d).block = none := by
  unfold payloadBlock
  cases kind with
  | entry => contradiction
  | comment | preamble | stringDef => split <;> rfl

/-- A body of an entry is well-formed if it was understood. -/
theorem isWellFormed_of_entryBlock (h : (c.entryBlock command d).IsClean) :
    (c.entryBlock command d).block.body.kind? = some .entry ∧
      (c.entryBlock command d).block.body.IsWellFormed d := by
  unfold entryBlock at h ⊢
  split
  · next he => exact ⟨rfl, isWellFormed_of_entry he⟩
  · next e place he =>
    rw [he] at h
    have hcause := h (.unclosedEntry (place.after = [])) (by simp [blockRead])
    simp [Cause.isRecovery, Cause.code] at hcause
  · next he =>
    rw [he] at h
    exact absurd (h _ List.mem_cons_self) (by simp [Cause.isRecovery, Cause.code])

/-- A payload is well-formed if it has its closing bracket. -/
theorem isWellFormed_of_payloadBlock {kind : BlockKind} (hkind : kind ≠ .entry)
    (h : (c.payloadBlock kind command d).IsClean) :
    (c.payloadBlock kind command d).block.body.kind? = some kind ∧
      (c.payloadBlock kind command d).block.body.IsWellFormed d := by
  unfold payloadBlock at h ⊢
  cases hp : Scan.payload d c.after with
  | unclosed n m =>
      rw [hp] at h
      exact absurd (h _ List.mem_cons_self) (by simp [Cause.isRecovery, Cause.code])
  | closed t rest =>
      have ht : Payload.IsWellFormed d { text := t } :=
        Payload.isWellFormed_iff.2 ⟨rfl, (Scan.payload_eq_closed_iff.1 hp).2⟩
      cases kind with
      | entry => contradiction
      | comment => exact ⟨rfl, ht⟩
      | preamble => exact ⟨rfl, ht⟩
      | stringDef => exact ⟨rfl, ht⟩

theorem command_blockBody (command : Text) (d : Delimiter) (c : Cursor) :
    (c.blockBody command d).block.command = command ∧
      (c.blockBody command d).block.delimiter = d := by
  unfold blockBody entryBlock payloadBlock
  split <;> split <;> exact ⟨rfl, rfl⟩

end Cursor

/-- The citation key of a block that is read is one. -/
theorem Block.isRun_key_of_read? {s key : Text} {b : BlockRead} (hb : read? s = some b)
    (hkey : b.block.entry?.bind Entry.key = some key) : Text.IsRun Scan.isKeyChar key := by
  obtain ⟨-, d, p, -, rfl⟩ := read?_eq_some_iff.1 hb
  unfold Cursor.blockBody at hkey
  split at hkey
  · exact Cursor.isRun_of_key?_entry (Cursor.key_entryBlock _ d p ▸ hkey)
  · next hkind =>
    rw [Cursor.entry?_payloadBlock hkind] at hkey
    cases hkey

/-- **Only well-formed blocks are read**, if they are understood up to their
closing bracket. -/
theorem Block.isWellFormed_of_read? {s : Text} {b : BlockRead} (hb : read? s = some b)
    (hclean : b.IsClean) : b.block.IsWellFormed := by
  obtain ⟨hne, d, p, -, rfl⟩ := read?_eq_some_iff.1 hb
  have hcommand := Text.isRun_takeWhile hne
  generalize s.takeWhile Scan.isCommandChar = command at hclean hcommand ⊢
  obtain ⟨hcmd, hdelim⟩ := Cursor.command_blockBody command d p
  have hbody : (p.blockBody command d).block.body.kind? = some (BlockKind.ofCommand command) ∧
      (p.blockBody command d).block.body.IsWellFormed d := by
    unfold Cursor.blockBody at hclean ⊢
    split at hclean
    · next hkind =>
      rw [hkind]
      exact Cursor.isWellFormed_of_entryBlock hclean
    · next hkind => exact Cursor.isWellFormed_of_payloadBlock hkind hclean
  refine ⟨?_, ?_, ?_⟩
  · rw [hcmd]
    exact hcommand
  · rw [hcmd]
    exact hbody.1
  · rw [hdelim]
    exact hbody.2

end Bibliography
