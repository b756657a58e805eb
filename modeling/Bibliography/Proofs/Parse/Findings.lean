import Bibliography.Proofs.Parse.Locality
import Bibliography.Proofs.Parse.Lookahead
import Bibliography.Proofs.Parse.Sound
import Bibliography.Proofs.Tidy.Sources

/-!
# Bibliography.Proofs.Parse.Findings

What is found about a block says how it ends.  A block about which nothing is
found but a missing citation key has its own closing bracket.  A block without
one goes on to the end of the text, or to an `@` at the start of a line.  A
block that could not be understood is kept from its `@`, over the place where
it failed, to one of these three.

* `Cursor.keptFrom_verbatimEnd` — where a block ends that could not be
  understood;
* `Block.isReported_of_read?` — what is found about one block;
* `Document.isReported_parse` — the warnings about a document, block by block.
-/

namespace Bibliography

/-- A text ends after `t`, or a block at the start of a line comes next. -/
def Text.EndsInFront (t rest : Text) : Prop :=
  rest = [] ∨ t.getLast? = some '\n' ∧ rest.head? = some '@'

/-- The codes of what may be found about a block with a body, in their order. -/
def Body.Finds : Body → List String → Prop
  | .verbatim _, codes => codes = ["MALFORMED_BLOCK"]
  | .comment p, codes | .preamble p, codes | .stringDef p, codes =>
    codes = if p.braces ≠ 0 ∨ p.parens ≠ 0 then ["UNTERMINATED_BLOCK"] else []
  | .entry e, codes => ∃ ending, (ending = [] ∨ ending = ["UNTERMINATED_BLOCK"]) ∧
    codes = (if e.key = none ∧ e.fields ≠ [] then ["MISSING_KEY"] else []) ++ ending

namespace Block

/-- The text of a block up to its opening bracket. -/
def IsHead (command : Text) (d : Delimiter) (head : Text) : Prop :=
  ∃ gap, (∀ x ∈ gap, Text.isBlank x = true) ∧ head = '@' :: command ++ gap ++ [d.opening]

/-- How a block ends whose reading failed after `failed` characters.  Its text is `head`, up to the
opening bracket, and `inside`. -/
structure KeptFrom (d : Delimiter) (head inside rest : Text) (failed : Nat) : Prop where
  /-- The failure is in the block. -/
  le_length : failed ≤ (head ++ inside).length
  /-- The block ends with the bracket that closes it, if that stands after the failure. -/
  ends : (∃ t, inside = t ++ [d.closing] ∧ Scan.depth? d.opening d.closing 0 t = some 0 ∧
    failed ≤ (head ++ t).length) ∨ Text.EndsInFront (head ++ inside) rest
  /-- An `@` at the start of a line stands before the failure. -/
  lines : ∀ u v, head ++ inside = u ++ '\n' :: '@' :: v → u.length + 1 < failed

/-- How a block ends that has the source `source` and is followed by `rest`, by the codes of what
was found about it. -/
structure IsReported (b : Block) (codes : List String) (source rest : Text) : Prop where
  source_eq : b.source = some source
  finds : b.body.Finds codes
  /-- Nothing says otherwise, so the block ends with its closing bracket. -/
  closed : "UNTERMINATED_BLOCK" ∉ codes → "MALFORMED_BLOCK" ∉ codes →
    ∃ head inside, IsHead b.command b.delimiter head ∧
      source = head ++ inside ++ [b.delimiter.closing]
  /-- An entry that is not closed ends with the text or its line. -/
  unclosed : "UNTERMINATED_BLOCK" ∈ codes → Text.EndsInFront source rest
  /-- A payload that is not closed ends with the text. -/
  payload : "UNTERMINATED_BLOCK" ∈ codes → b.entry? = none → rest = []
  /-- The body of a block that was not understood is no entry. -/
  malformed : "MALFORMED_BLOCK" ∈ codes → ∃ head inside reason place,
    IsHead b.command b.delimiter head ∧ source = head ++ inside ∧
    (⟨head.reverse, inside ++ rest⟩ : Cursor).entry b.delimiter.closing =
      .malformed reason place ∧
    KeptFrom b.delimiter head inside rest place.before.length

end Block

/-! ## lines -/

namespace Scan

/-- There is no block at the start of a line before the next one. -/
theorem untilLineBlock_ne (s u v : Text) : untilLineBlock s ≠ u ++ '\n' :: '@' :: v := by
  induction s generalizing u with
  | nil => simp [untilLineBlock]
  | cons c s ih =>
      rw [untilLineBlock_cons]
      intro h
      cases u with
      | cons x u =>
          split at h
          · simp at h
          · exact ih u (List.cons.inj h).2
      | nil =>
          obtain ⟨rfl, htail⟩ := List.cons.inj h
          split at htail
          · cases htail
          · next hline =>
            -- What the rest begins with is what its line begins with.
            obtain ⟨w, hw⟩ := untilLineBlock_prefix s
            rw [htail] at hw
            exact hline ⟨rfl, by rw [← hw]; rfl⟩

end Scan

namespace Cursor

variable {c failed : Cursor} {d : Delimiter}

/-- The end of the text and a block at the start of a line, said of the text before the place. -/
theorem ended_iff_endsInFront {p : Cursor} :
    p.Ended ↔ Text.EndsInFront p.before.reverse p.after := by
  unfold Ended Text.EndsInFront
  rw [atLineBlock_iff, List.getLast?_reverse]

/-- What is left of a line, up to the next block at the start of one. -/
def line (failed : Cursor) : Text := failed.after.take failed.lineLength

/-- In what is left of a line there is no block at the start of one. -/
theorem lt_of_line {u v : Text} (h : failed.before.reverse ++ failed.line = u ++ '\n' :: '@' :: v) :
    u.length + 1 < failed.before.length := by
  have hlength := congrArg List.length h
  simp only [List.length_append, List.length_reverse, List.length_cons] at hlength
  by_cases hline : failed.atLineBlock = true
  · have hzero : failed.lineLength = 0 := if_pos hline
    rw [line, hzero, List.take_zero, List.length_nil] at hlength
    omega
  have hrest : failed.line = Scan.untilLineBlock failed.after := by
    rw [line, lineLength, if_neg hline]
    exact (List.prefix_iff_eq_take.1 (Scan.untilLineBlock_prefix _)).symm
  by_contra hle
  rw [hrest] at h
  obtain ⟨w, hw, hu⟩ | ⟨w, hw, hu⟩ := List.append_eq_append_iff.1 h
  · exact Scan.untilLineBlock_ne _ w v hu
  · cases w with
    | nil => exact Scan.untilLineBlock_ne _ [] v hu.symm
    | cons x w =>
        -- The `@` is the first character of the line, and the line feed the last one before it.
        obtain ⟨rfl, hx⟩ := List.cons.inj hu
        cases w with
        | cons y w =>
            have hbefore := congrArg List.length hw
            simp only [List.length_append, List.length_reverse, List.length_cons] at hbefore
            omega
        | nil =>
            obtain ⟨t, ht⟩ := Scan.untilLineBlock_prefix failed.after
            refine hline (atLineBlock_iff.2 ⟨?_, ?_⟩)
            · rw [← List.getLast?_reverse, hw, List.getLast?_concat]
            · have hx : '@' :: v = Scan.untilLineBlock failed.after := hx
              rw [← ht, ← hx]
              rfl

/-- The end of a line is an end. -/
theorem ended_lineEnd (failed : Cursor) :
    (if failed.atLineBlock then failed else failed.toLineBlock).Ended := by
  split
  · next hline => exact .inr hline
  · refine (Scan.ended_untilLineBlock failed.after).imp id fun ⟨hat, hline⟩ => ?_
    refine atLineBlock_iff.2 ⟨?_, hat⟩
    rw [toLineBlock, before_past, List.head?_append, hline]
    rfl

/-- **Where a block ends that could not be understood.** -/
theorem keptFrom_verbatimEnd (d : Delimiter) (hlead : c.Leads failed) :
    ∃ inside, c.after = inside ++ (c.verbatimEnd d failed).after ∧
      (c.verbatimEnd d failed).before.reverse = c.before.reverse ++ inside ∧
      Block.KeptFrom d c.before.reverse inside (c.verbatimEnd d failed).after
        failed.before.length := by
  obtain ⟨a, hafter, hbefore⟩ := hlead
  obtain ⟨hle, hline⟩ := lineEnd_eq hafter hbefore
  have hended := ended_lineEnd failed
  have hend := verbatimEnd_eq d hafter hbefore
  dsimp only at hend
  rw [hline] at hended
  have hfailed : failed.before.length = (c.before.reverse ++ a).length := by
    rw [hbefore, List.length_append, List.length_append, List.length_reverse, List.length_reverse,
      Nat.add_comm]
  -- The text up to the end of the line, of which the block is a beginning.
  have htake : c.before.reverse ++ c.after.take (a.length + failed.lineLength) =
      failed.before.reverse ++ failed.line := by
    rw [hafter, List.take_length_add_append, hbefore, List.reverse_append, List.reverse_reverse,
      List.append_assoc, line]
  generalize hlimit : a.length + failed.lineLength = limit at *
  have hlines (m : Nat) (hm : m ≤ limit) (u v : Text)
      (h : c.before.reverse ++ c.after.take m = u ++ '\n' :: '@' :: v) :
      u.length + 1 < failed.before.length := by
    have hsplit : c.after.take limit = c.after.take m ++ (c.after.drop m).take (limit - m) := by
      rw [← List.take_add, Nat.add_sub_cancel' hm]
    refine lt_of_line (v := v ++ (c.after.drop m).take (limit - m)) ?_
    rw [← htake, hsplit, ← List.append_assoc, h]
    simp
  by_cases hcloses : ∃ t, ClosesAt d a.length limit c.after t
  · obtain ⟨t, ht⟩ := hcloses
    obtain ⟨hlt, hinside⟩ := ht.take_eq
    rw [ht.length_eq] at hend
    rw [hend]
    have hfail : failed.before.length ≤ (c.before.reverse ++ t).length := by
      have := ht.1
      simp only [List.length_append] at hfailed ⊢
      omega
    refine ⟨c.after.take (t.length + 1), (List.take_append_drop _ _).symm, by simp, ?_, ?_, ?_⟩
    · refine Nat.le_trans hfail ?_
      rw [hinside, ← List.append_assoc]
      exact (List.prefix_append _ _).length_le
    · have hne : d.opening ≠ d.closing := by cases d <;> decide
      obtain ⟨-, r, hb⟩ := ht
      exact .inl ⟨t, hinside, ((Scan.balanced_eq_closed_iff hne).1 hb).2, hfail⟩
    · exact hlines _ hlt
  · rw [verbatimLength_of_not_closesAt fun t ht => hcloses ⟨t, ht⟩] at hend
    rw [hend]
    refine ⟨c.after.take limit, (List.take_append_drop _ _).symm, by simp, ?_, ?_, ?_⟩
    · rw [hfailed, List.length_append, List.length_append, List.length_take,
        Nat.min_eq_left hle]
      omega
    · refine .inr ?_
      rw [ended_iff_endsInFront] at hended
      simpa using hended
    · exact hlines _ (Nat.le_refl limit)

end Cursor

/-! ## one block -/

namespace Block

variable {b : Block} {codes : List String} {t head inside rest : Text}

/-- A block that has its closing bracket. -/
theorem isReported_closed (hsource : b.source = some (head ++ inside ++ [b.delimiter.closing]))
    (hfinds : b.body.Finds codes) (hhead : IsHead b.command b.delimiter head)
    (hcodes : ∀ code ∈ codes, code = "MISSING_KEY") :
    b.IsReported codes (head ++ inside ++ [b.delimiter.closing]) rest where
  source_eq := hsource
  finds := hfinds
  closed _ _ := ⟨head, inside, hhead, rfl⟩
  unclosed hmem := absurd (hcodes _ hmem) (by decide)
  payload hmem := absurd (hcodes _ hmem) (by decide)
  malformed hmem := absurd (hcodes _ hmem) (by decide)

/-- A block that has none. -/
theorem isReported_unclosed (hsource : b.source = some t) (hfinds : b.body.Finds codes)
    (hmem : "UNTERMINATED_BLOCK" ∈ codes) (hmalformed : "MALFORMED_BLOCK" ∉ codes)
    (hends : Text.EndsInFront t rest) (hpayload : b.entry? = none → rest = []) :
    b.IsReported codes t rest where
  source_eq := hsource
  finds := hfinds
  closed hnot := absurd hmem hnot
  unclosed _ := hends
  payload _ := hpayload
  malformed h := absurd h hmalformed

/-- A block that could not be understood. -/
theorem isReported_malformed {place : Cursor} {u : Text} (reason : Malformation)
    (hsource : b.source = some (head ++ inside)) (hbody : b.body = .verbatim u)
    (hhead : IsHead b.command b.delimiter head)
    (hentry : (⟨head.reverse, inside ++ rest⟩ : Cursor).entry b.delimiter.closing =
      .malformed reason place)
    (hkept : KeptFrom b.delimiter head inside rest place.before.length) :
    b.IsReported ["MALFORMED_BLOCK"] (head ++ inside) rest where
  source_eq := hsource
  finds := by rw [hbody]; rfl
  closed _ hnot := absurd List.mem_cons_self hnot
  unclosed hmem := absurd hmem (by decide)
  payload hmem := absurd hmem (by decide)
  malformed _ := ⟨head, inside, reason, place, hhead, rfl, hentry, hkept⟩

end Block

/-- What was found about a block says how it ends. -/
def BlockRead.IsReported (r : BlockRead) : Prop :=
  ∃ source, r.block.IsReported (r.causes.map Cause.code) source r.rest

namespace Cursor

variable {p : Cursor} {command : Text} {d : Delimiter}

theorem isHead_of_charAt {s : Text}
    (hp : ((⟨['@'], s⟩ : Cursor).skip Scan.isCommandChar).CharAt d.opening p) :
    Block.IsHead (s.takeWhile Scan.isCommandChar) d p.before.reverse := by
  obtain ⟨r, -, rfl⟩ := hp
  refine ⟨(s.dropWhile Scan.isCommandChar).takeWhile Text.isBlank,
    fun x => Text.mem_takeWhile, ?_⟩
  simp [skipBlank, skip]

/-- **What is found about a payload** is whether it is closed. -/
theorem isReported_payloadBlock {kind : BlockKind} (hkind : kind ≠ .entry)
    (h : Block.IsHead command d p.before.reverse) :
    (p.payloadBlock kind command d).IsReported := by
  unfold payloadBlock
  cases hp : Scan.payload d p.after with
  | closed t rest =>
      refine ⟨p.before.reverse ++ t ++ [d.closing], Block.isReported_closed ?_ ?_ h ?_⟩
      · simp [blockRead]
      · cases kind with
        | entry => contradiction
        | _ => simp [blockRead, Body.ofPayload, Body.Finds]
      · exact List.forall_mem_nil _
  | unclosed braces parens =>
      have hopen := Scan.ne_zero_of_unclosed hp
      refine ⟨_, Block.isReported_unclosed rfl ?_ List.mem_cons_self ?_ (.inl rfl)
        fun _ => rfl⟩
      · cases kind with
        | entry => contradiction
        | _ => exact (if_pos hopen).symm
      · simp [blockRead, Cause.code]

/-- The closing bracket stands where fields are closed. -/
theorem exists_charAt_of_fields {c : Cursor} {fs : List Field}
    (h : c.fields d.closing = .closed fs p) : ∃ q, c.Leads q ∧ q.CharAt d.closing p := by
  induction c using fields_induction (d := d) generalizing fs with
  | close c _ hclose hf =>
      rw [hf] at h
      obtain ⟨-, rfl⟩ := FieldsRead.closed.inj h
      exact ⟨c, .refl c, hclose⟩
  | comma _ _ hcomma hf ih =>
      obtain ⟨q, hq, hclose⟩ := ih (hf ▸ h)
      exact ⟨q, hcomma.leads.trans hq, hclose⟩
  | field _ name _ v _ r hname hv hcomma hf ih =>
      rw [hf] at h
      cases hr : r.fields d.closing with
      | closed gs q =>
          rw [hr] at h
          obtain ⟨-, rfl⟩ := FieldsRead.closed.inj h
          obtain ⟨q', hq, hclose⟩ := ih hr
          exact ⟨q', hname.leads.trans ((leads_of_value_read hv).trans (hcomma.leads.trans hq)),
            hclose⟩
      | unclosed _ _ => simp [hr, FieldsRead.cons] at h
      | malformed _ _ => simp [hr, FieldsRead.cons] at h
  | last _ _ _ _ stop _ hname hv hclose hf =>
      rw [hf] at h
      obtain ⟨-, rfl⟩ := FieldsRead.closed.inj h
      exact ⟨stop, hname.leads.trans (leads_of_value_read hv), hclose⟩
  | ended _ _ hf => simp [hf] at h
  | noName _ _ _ hf => simp [hf] at h
  | noEquals _ _ _ _ hf => simp [hf] at h
  | malformed _ _ _ _ _ _ _ hf => simp [hf] at h
  | cut _ _ _ _ _ _ hf => simp [hf] at h
  | unclosed _ _ _ _ _ _ _ _ hf => simp [hf] at h
  | missing _ _ _ _ _ _ _ _ hf => simp [hf] at h

/-- The closing bracket stands where an entry is closed. -/
theorem exists_charAt_of_entry {c : Cursor} {e : Entry} (h : c.entry d.closing = .closed e p) :
    ∃ q, c.Leads q ∧ q.CharAt d.closing p := by
  by_cases hk : ∃ key q, c.KeyAt key q
  · obtain ⟨key, q, hkey⟩ := hk
    have hlead : c.Leads q := by
      rw [hkey.place]
      exact (leads_skipBlank c).trans (leads_skip _ _)
    rw [entry_key hkey, afterKey] at h
    obtain ⟨r, hr⟩ | ⟨r, hr⟩ | hend | hother := separator_cases d q
    · rw [separator_comma _ hr] at h
      obtain ⟨fs, -, hfs⟩ := FieldsRead.exists_of_toEntry_closed h
      obtain ⟨q', hq, hclose⟩ := exists_charAt_of_fields hfs
      exact ⟨q', hlead.trans (hr.leads.trans hq), hclose⟩
    · rw [separator_closing hr] at h
      obtain ⟨-, rfl⟩ := EntryRead.closed.inj h
      exact ⟨q, hlead, hr⟩
    · simp [separator_ended hend] at h
    · simp [separator_missing hother] at h
  · rw [entry_noKey fun key q hkey => hk ⟨key, q, hkey⟩] at h
    obtain ⟨fs, -, hfs⟩ := FieldsRead.exists_of_toEntry_closed h
    exact exists_charAt_of_fields hfs

/-- What was read ends with the character that was found. -/
theorem Leads.before_of_charAt {c q : Cursor} {x : Char} (h : c.Leads q) (hp : q.CharAt x p) :
    ∃ t, p.before.reverse = c.before.reverse ++ t ++ [x] := by
  obtain ⟨s, -, rfl⟩ := hp
  obtain ⟨t, -, ht⟩ := h.trans (leads_skipBlank q)
  exact ⟨t, by rw [before_past, ht]; simp⟩

theorem map_code_keyCauses (command : Text) (e : Entry) :
    (keyCauses command e).map Cause.code =
      if e.key = none ∧ e.fields ≠ [] then ["MISSING_KEY"] else [] := by
  unfold keyCauses
  split <;> rfl

/-- **What is found about an entry**: a missing citation key, and how it ends. -/
theorem isReported_entryBlock (h : Block.IsHead command d p.before.reverse) :
    (p.entryBlock command d).IsReported := by
  have hlead := leads_entry d.closing p
  unfold entryBlock
  cases he : p.entry d.closing with
  | closed e stop =>
      obtain ⟨q, hq, hclose⟩ := exists_charAt_of_entry he
      obtain ⟨inside, hinside⟩ := hq.before_of_charAt hclose
      refine ⟨p.before.reverse ++ inside ++ [d.closing], Block.isReported_closed ?_ ?_ h ?_⟩
      · simp [blockRead, hinside]
      · exact ⟨[], .inl rfl, by rw [List.append_nil]; exact map_code_keyCauses command e⟩
      · intro code hcode
        have hcode : code ∈ (keyCauses command e).map Cause.code := hcode
        rw [map_code_keyCauses] at hcode
        split at hcode
        · exact List.mem_singleton.1 hcode
        · cases hcode
  | unclosed e place =>
      refine ⟨_, Block.isReported_unclosed rfl ?_ ?_ ?_
        (ended_iff_endsInFront.1 (ended_of_entry_unclosed he)) ?_⟩
      · exact ⟨_, .inr rfl, by rw [← map_code_keyCauses command e]; simp [blockRead, Cause.code]⟩
      · simp [blockRead, Cause.code]
      · intro hmem
        obtain ⟨cause, hcause, hcode⟩ := List.mem_map.1 hmem
        obtain hcause | hcause := List.mem_append.1 hcause
        · have hnot := isRecovery_keyCauses command e cause hcause
          simp [Cause.isRecovery, hcode] at hnot
        · obtain rfl := List.mem_singleton.1 hcause
          simp [Cause.code] at hcode
      · intro hentry
        cases hentry
  | malformed reason place =>
      rw [he] at hlead
      have hlead : p.Leads place := hlead
      obtain ⟨inside, hafter, hbefore, hkept⟩ := keptFrom_verbatimEnd d hlead
      refine ⟨p.before.reverse ++ inside,
        Block.isReported_malformed reason ?_ rfl h ?_ hkept⟩
      · simp [blockRead, hbefore]
      · rw [List.reverse_reverse]
        have hp : (⟨p.before, inside ++ (p.verbatimEnd d place).after⟩ : Cursor) = p := by
          rw [← hafter]
        exact (congrArg _ hp).trans he

end Cursor

/-- **What is found about a block** says how it ends. -/
theorem Block.isReported_of_read? {s : Text} {r : BlockRead} (h : Block.read? s = some r) :
    r.IsReported := by
  obtain ⟨-, d, p, hp, rfl⟩ := Block.read?_eq_some_iff.1 h
  have hhead := Cursor.isHead_of_charAt hp
  by_cases hkind : BlockKind.ofCommand (s.takeWhile Scan.isCommandChar) = .entry
  · rw [Cursor.blockBody_of_entry hkind]
    exact Cursor.isReported_entryBlock hhead
  · rw [Cursor.blockBody_of_ne_entry rfl hkind]
    exact Cursor.isReported_payloadBlock hkind hhead

/-! ## all blocks -/

/-- The warnings about the node of a handle. -/
def Warning.about (ws : List Warning) (id : NodeId) : List Warning :=
  ws.filter fun w => w.entry.map EntryRef.node = some id

namespace Piece

theorem eq_block_of_node {p : Piece} {b : Block} (h : p.node = .block b) :
    ∃ causes, p = .block b causes := by
  cases p with
  | text t => cases h
  | block b' causes =>
      cases h
      exact ⟨causes, rfl⟩

/-- A warning is about a block among the pieces. -/
theorem exists_of_mem_warningsFrom {ps : List Piece} {id : NodeId} {w : Warning}
    (h : w ∈ warningsFrom ps id) : ∃ as b causes bs, ps = as ++ .block b causes :: bs ∧
      w.entry = some ⟨id + as.length, b.entry?.bind Entry.key⟩ ∧ w.earlier = none := by
  induction ps generalizing id with
  | nil => cases h
  | cons p ps ih =>
      obtain h | h := List.mem_append.1 (warningsFrom_append [p] ps id ▸ h)
      · cases p with
        | text t => simp [warningsFrom, warnings] at h
        | block b causes =>
            obtain ⟨cause, -, rfl⟩ := List.mem_map.1
              (show w ∈ causes.map _ by simpa [warningsFrom, warnings] using h)
            exact ⟨[], b, causes, ps, rfl, rfl, rfl⟩
      · obtain ⟨as, b, causes, bs, rfl, hw, hearlier⟩ := ih h
        refine ⟨p :: as, b, causes, bs, rfl, ?_, hearlier⟩
        rw [hw, List.length_singleton, List.length_cons, Nat.add_assoc, Nat.add_comm 1]

/-- The node of a warning is one of the pieces. -/
theorem mem_range_of_mem_warningsFrom {ps : List Piece} {id : NodeId} {w : Warning}
    (h : w ∈ warningsFrom ps id) :
    ∃ n, w.entry.map EntryRef.node = some n ∧ id ≤ n ∧ n < id + ps.length := by
  obtain ⟨as, b, causes, bs, rfl, hw, -⟩ := exists_of_mem_warningsFrom h
  refine ⟨id + as.length, by rw [hw]; rfl, Nat.le_add_right _ _, ?_⟩
  rw [List.length_append, List.length_cons]
  exact Nat.add_lt_add_left (Nat.lt_add_of_pos_right (Nat.succ_pos _)) id

/-- The warnings about a block are those that were found when it was read. -/
theorem about_warningsFrom (as bs : List Piece) (b : Block) (causes : List Cause) (id : NodeId) :
    Warning.about (warningsFrom (as ++ .block b causes :: bs) id) (id + as.length) =
      (block b causes).warnings (id + as.length) := by
  have hother {ps : List Piece} {n : NodeId}
      (hn : ¬ (n ≤ id + as.length ∧ id + as.length < n + ps.length)) :
      Warning.about (warningsFrom ps n) (id + as.length) = [] := by
    refine List.filter_eq_nil_iff.2 fun w hw hid => ?_
    obtain ⟨m, hm, hle, hlt⟩ := mem_range_of_mem_warningsFrom hw
    rw [hm, decide_eq_true_eq] at hid
    obtain rfl := Option.some.inj hid
    exact hn ⟨hle, hlt⟩
  have hself : Warning.about ((block b causes).warnings (id + as.length)) (id + as.length) =
      (block b causes).warnings (id + as.length) := by
    refine List.filter_eq_self.2 fun w hw => ?_
    obtain ⟨cause, -, rfl⟩ := List.mem_map.1 hw
    simp
  have happend (ws ws' : List Warning) (n : NodeId) :
      Warning.about (ws ++ ws') n = Warning.about ws n ++ Warning.about ws' n :=
    List.filter_append ..
  have hone : warningsFrom [block b causes] (id + as.length) =
      (block b causes).warnings (id + as.length) := List.append_nil _
  have hafter : ¬ (id + as.length + [block b causes].length ≤ id + as.length ∧
      id + as.length < id + as.length + [block b causes].length + bs.length) :=
    fun h => Nat.not_succ_le_self _ h.1
  rw [← List.singleton_append, warningsFrom_append, warningsFrom_append, happend, happend, hone,
    hself, hother fun h => Nat.lt_irrefl _ h.2, hother hafter,
    List.nil_append, List.append_nil]

theorem pairwise_warningsFrom (ps : List Piece) (id : NodeId) :
    (warningsFrom ps id).Pairwise fun w w' =>
      ∀ r ∈ w.entry, ∀ r' ∈ w'.entry, r.node ≤ r'.node := by
  induction ps generalizing id with
  | nil => exact .nil
  | cons p ps ih =>
      have hnode {qs : List Piece} {n : NodeId} {w : Warning} (hw : w ∈ warningsFrom qs n)
          {r : EntryRef} (hr : r ∈ w.entry) : n ≤ r.node ∧ r.node < n + qs.length := by
        obtain ⟨m, hm, hrange⟩ := mem_range_of_mem_warningsFrom hw
        rw [hr, Option.map_some] at hm
        exact Option.some.inj hm ▸ hrange
      rw [← List.singleton_append, warningsFrom_append]
      refine List.pairwise_append.2 ⟨?_, ih _, fun w hw w' hw' r hr r' hr' => ?_⟩
      · refine List.Pairwise.imp_of_mem (fun hw hw' _ r hr r' hr' => ?_)
          (List.pairwise_of_forall fun _ _ => trivial)
        exact Nat.le_trans (Nat.le_of_lt_succ (hnode hw hr).2) (hnode hw' hr').1
      · exact Nat.le_trans (Nat.le_of_lt (hnode hw hr).2) (hnode hw' hr').1

end Piece

namespace Document

/-- The warnings about a piece are what was found when it was read. -/
theorem codes_about {s : Text} {as bs : List Piece} {b : Block} {causes : List Cause}
    (h : Piece.ofText s = as ++ .block b causes :: bs) :
    (Warning.about (parse s).2 as.length).map Warning.code = causes.map Cause.code := by
  have habout := Piece.about_warningsFrom as bs b causes 0
  rw [Nat.zero_add, ← h] at habout
  rw [warnings_parse, habout, Piece.warnings, List.map_map]
  rfl

/-- A block of a document was read where it stands. -/
theorem exists_read {s : Text} {ms ns : List Node} {b : Block}
    (h : (parse s).1.nodes = ms ++ .block b :: ns) :
    ∃ u causes, Block.read? u = some ⟨b, causes, ns.flatMap Node.original⟩ ∧
      (Warning.about (parse s).2 ms.length).map Warning.code = causes.map Cause.code := by
  obtain ⟨as, rs, hps, rfl, hrs⟩ := List.map_eq_append_iff.1 h
  obtain ⟨p, bs, rfl, hp, rfl⟩ := List.map_eq_cons_iff.1 hrs
  obtain ⟨causes, rfl⟩ := Piece.eq_block_of_node hp
  have hcut := Piece.cut_ofText s
  rw [hps] at hcut
  obtain ⟨u, hread⟩ := hcut.read_at
  rw [List.length_map, codes_about hps, Piece.flatMap_original]
  exact ⟨u, causes, hread, rfl⟩

/-- **Warnings are exact.**  They stand in the order of the blocks that they are about, and are
about blocks of the document only.  What is found about a block is settled by its body, and says
how the block ends in front of the nodes that follow it. -/
theorem isReported_parse (s : Text) :
    let d := (parse s).1
    let ws := (parse s).2
    (ws.Pairwise fun w w' => ∀ r ∈ w.entry, ∀ r' ∈ w'.entry, r.node ≤ r'.node) ∧
    (∀ w ∈ ws, ∃ ms b ns, d.nodes = ms ++ .block b :: ns ∧
      w.entry = some ⟨ms.length, b.entry?.bind Entry.key⟩ ∧ w.earlier = none) ∧
    ∀ ms b ns, d.nodes = ms ++ .block b :: ns →
      ∃ source, b.IsReported ((Warning.about ws ms.length).map Warning.code) source
        (ns.flatMap Node.original) := by
  refine ⟨Piece.pairwise_warningsFrom _ 0, fun w hw => ?_, fun ms b ns hnodes => ?_⟩
  · obtain ⟨as, b, causes, bs, hps, hentry, hearlier⟩ :=
      Piece.exists_of_mem_warningsFrom (warnings_parse s ▸ hw)
    refine ⟨as.map Piece.node, b, bs.map Piece.node, ?_, ?_, hearlier⟩
    · rw [nodes_parse, hps, List.map_append, List.map_cons]
      rfl
    · rw [hentry, Nat.zero_add, List.length_map]
  · obtain ⟨u, causes, hread, hcodes⟩ := exists_read hnodes
    obtain ⟨source, h⟩ := Block.isReported_of_read? hread
    exact ⟨source, hcodes ▸ h⟩

/-- A block that failed ends with its line, and the next one is read as if it stood alone. -/
example : (parse "@a\x7bb c\n@d\x7be".toList).2.map (fun w => (w.code, w.entry.map EntryRef.node)) =
    [("MALFORMED_BLOCK", some 0), ("UNTERMINATED_BLOCK", some 1)] := by
  decide +kernel

end Document

end Bibliography
