import Bibliography.Proofs.Parse.Extension

/-!
# Bibliography.Proofs.Parse.Gap

Blanks in front of a failure.  A block that failed where the text ends, or in
front of an `@` at the start of a line, fails with other blanks there too: what
was found before the blanks is of the stem, and the failure only sees that
nothing follows that the entry could go on with.

* `Cursor.Leads.exists_extend_of_gap` — a place before the blanks is of the stem;
* `Cursor.entry_malformed_gap` — an entry that failed in front of a gap fails in
  front of any gap;
* `Cursor.stops_of_entry_malformed` — no entry fails in front of a blank.
-/

namespace Bibliography

theorem FieldsRead.eq_of_cons_malformed {f : Field} {r : FieldsRead} {m : Malformation}
    {p : Cursor} (h : r.cons f = .malformed m p) : r = .malformed m p := by
  cases r <;> cases h
  rfl

theorem EntryRead.eq_of_toEntry {key : Option Text} {r : FieldsRead} {m : Malformation}
    {p : Cursor} (h : r.toEntry key = .malformed m p) : r = .malformed m p := by
  cases r <;> cases h
  rfl

namespace Cursor

variable {c k p q : Cursor} {y z : Text} {d : Delimiter}

/-- What can follow an item is not where a text or its line ends. -/
theorem Other.not_ended (h : c.Other d) : ¬ c.Ended := by
  obtain ⟨hline, x, s, hs, -⟩ := h
  rintro (hend | hend)
  · simp [hs] at hend
  · simp [hline] at hend

theorem Ended.noSegment (h : c.Ended) : c.atLineBlock = true ∨ c.NoSegment := by
  refine h.symm.imp_right fun hend x hx => ?_
  simp [hend] at hx

/-! ## the stem and the gap after it -/

/-- What ends with something else than a blank ends in the stem. -/
theorem Leads.exists_extend_of_gap (hp : p.after = []) (h : q.Leads (p.extend y).skipBlank)
    (hq : Text.Stops Text.isBlank q.before) : ∃ r : Cursor, q = r.extend y ∧ r.Leads p := by
  obtain ⟨t, hafter, hbefore⟩ := h
  have hy : y.takeWhile Text.isBlank ++ y.dropWhile Text.isBlank = y :=
    List.takeWhile_append_dropWhile
  have hgap : ∀ x ∈ y.takeWhile Text.isBlank, Text.isBlank x = true := fun x => Text.mem_takeWhile
  rw [after_skipBlank, after_extend, hp, List.nil_append] at hafter
  have hskip : (p.extend y).skipBlank.before = (y.takeWhile Text.isBlank).reverse ++ p.before := by
    unfold skipBlank skip
    rw [before_past, after_extend, hp, List.nil_append, before_extend]
  rw [hskip] at hbefore
  generalize y.takeWhile Text.isBlank = w at hy hgap hbefore
  generalize y.dropWhile Text.isBlank = rest at hy hafter
  have hstem : ∃ u, t.reverse = w.reverse ++ u ∧ p.before = u ++ q.before := by
    obtain hu | ⟨u, hw, hu⟩ := List.append_eq_append_iff.1 hbefore
    · exact hu
    · cases u with
      | nil => exact ⟨[], by simpa using hw.symm, hu.symm⟩
      | cons x u =>
          -- The place would stand behind a blank of the gap.
          have hx : Text.isBlank x = true := hgap x (List.mem_reverse.1 (by simp [hw]))
          rw [hu, List.cons_append, Text.stops_cons] at hq
          simp [hx] at hq
  obtain ⟨u, ht, hbefore⟩ := hstem
  have ht : t = u.reverse ++ w := by simpa using congrArg List.reverse ht
  refine ⟨⟨q.before, u.reverse⟩, ?_, u.reverse, by simp [hp], by simpa using hbefore⟩
  cases q
  simp_all [extend]

/-- Where only blanks stand up to the end of the stem, the gap begins. -/
theorem skipBlank_gap (hp : p.after = []) (h : k.Leads p)
    (hk : (k.extend y).skipBlank = (p.extend y).skipBlank) :
    (k.extend z).skipBlank = (p.extend z).skipBlank := by
  obtain ⟨t, hafter, hbefore⟩ := h
  rw [hp, List.append_nil] at hafter
  have hblank : ∀ x ∈ t, Text.isBlank x = true := by
    have hdrop := congrArg after hk
    rw [after_skipBlank, after_skipBlank, after_extend, after_extend, hp, List.nil_append,
      hafter] at hdrop
    exact Text.forall_of_dropWhile_append hdrop
  unfold skipBlank skip past
  rw [after_extend, after_extend, before_extend, before_extend, hp, hafter, List.nil_append,
    List.takeWhile_append_of_pos hblank, List.dropWhile_append_of_pos hblank, hbefore]
  simp

/-! ## values -/

/-- A segment ends with something else than a blank. -/
theorem stops_of_segment_read {seg : Segment} (h : c.segment = .read seg q) :
    Text.Stops Text.isBlank q.before := by
  obtain ⟨hseg, r, -, -, rfl⟩ := segment_eq_read_iff.1 h
  rw [before_past]
  cases seg with
  | literal t =>
      have hrun : Text.IsRun Scan.isLiteralChar t.reverse :=
        ⟨by simpa using hseg.1, fun x hx => hseg.2 x (List.mem_reverse.1 hx)⟩
      exact hrun.stops Scan.isBlank_of_isLiteralChar _
  | braced t | quoted t =>
      rw [Segment.written, List.reverse_append]
      exact Text.stops_cons.2 rfl

theorem CharAt.stops {x : Char} (h : c.CharAt x q) (hx : Text.isBlank x = false) :
    Text.Stops Text.isBlank q.before := by
  obtain ⟨s, -, rfl⟩ := h
  exact Text.stops_cons.2 hx

/-- A stray brace stands at no end. -/
theorem not_ended_of_segment_stray (h : c.segment = .stray q) : ¬ q.Ended := by
  obtain ⟨t, r, -, -, rfl⟩ := segment_eq_stray_iff.1 h
  rintro (hend | hend)
  · cases hend
  · simp [atLineBlock_iff] at hend

theorem moreSegments_malformed_gap {m : Malformation} (hp : p.after = [])
    (hy : (p.extend y).skipBlank.Ended) (hz : (p.extend z).skipBlank.Ended)
    (h : (c.extend y).moreSegments = .malformed m (p.extend y).skipBlank) :
    c.after ≠ [] ∧ (c.extend z).moreSegments = .malformed m (p.extend z).skipBlank := by
  generalize he : c.extend y = e at h
  induction e using moreSegments_induction generalizing c with
  | noSegment e q hq hsegment hm =>
      subst he
      rw [hm] at h
      obtain ⟨rfl, hn⟩ := ValueRead.malformed.inj h
      obtain ⟨q, rfl, hqp⟩ :=
        Leads.exists_extend_of_gap hp (hn ▸ leads_skipBlank q) (hq.stops (by decide))
      have hn' := skipBlank_gap (z := z) hp hqp hn
      have hsettled : c.Settled ['#'] := hq.settled
      refine ⟨hsettled.resolve_right (by simp), ?_⟩
      rw [moreSegments_noSegment hq.extend (by rw [hn']; exact hz.noSegment), hn']
  | stray e q place hq hline hseg hm =>
      subst he
      rw [hm] at h
      obtain ⟨rfl, rfl⟩ := ValueRead.malformed.inj h
      exact absurd hy (not_ended_of_segment_stray hseg)
  | more e q seg stop hq hline hseg hm ih =>
      subst he
      rw [hm] at h
      have hu := eq_of_cons_malformed h
      have hlead := leads_of_moreSegments_malformed hu
      obtain ⟨stop, rfl, hstop⟩ :=
        Leads.exists_extend_of_gap hp hlead (stops_of_segment_read hseg)
      obtain ⟨hne, hmore⟩ := ih rfl hu
      obtain ⟨q, rfl, -⟩ := ((leads_skipBlank q).trans (leads_of_segment_read hseg)).exists_extend
      have hsettled : c.Settled ['#'] := hq.settled
      refine ⟨hsettled.resolve_right (by simp), ?_⟩
      rw [moreSegments_more_extend hq hline hseg (.inl hne), hmore]
      rfl
  | last e _ hm => simp [hm] at h
  | cut e q _ _ _ hm => simp [hm] at h

/-- A value fails in front of any gap. -/
theorem value_malformed_gap {m : Malformation} (hp : p.after = [])
    (hy : (p.extend y).skipBlank.Ended) (hz : (p.extend z).skipBlank.Ended)
    (h : (c.extend y).value = .malformed m (p.extend y).skipBlank) :
    (c.extend z).value = .malformed m (p.extend z).skipBlank := by
  by_cases hn : (c.extend y).skipBlank.atLineBlock = true ∨ (c.extend y).skipBlank.NoSegment
  · simp [value_noSegment hn] at h
  · obtain ⟨hline, habsent⟩ := not_or.1 hn
    have hline : (c.extend y).skipBlank.atLineBlock = false := by simpa using hline
    rw [value_segment hline] at h
    cases hseg : (c.extend y).skipBlank.segment with
    | absent => exact absurd (segment_eq_absent_iff.1 hseg) habsent
    | cut seg => simp [hseg] at h
    | stray q =>
        rw [hseg] at h
        obtain ⟨rfl, rfl⟩ := ValueRead.malformed.inj h
        exact absurd hy (not_ended_of_segment_stray hseg)
    | read seg stop =>
        rw [hseg] at h
        have hu := eq_of_cons_malformed h
        obtain ⟨stop, rfl, -⟩ := Leads.exists_extend_of_gap hp (leads_of_moreSegments_malformed hu)
          (stops_of_segment_read hseg)
        obtain ⟨hne, hmore⟩ := moreSegments_malformed_gap hp hy hz hu
        rw [value_first_extend hline hseg (.inl hne), hmore]
        rfl

/-! ## fields and entries -/

/-- A name at the end of the stem does not go on in a gap. -/
theorem stops_gap (hp : p.after = []) (hz : (p.extend z).skipBlank.Ended) (hkp : k.Leads p)
    (hlast : Text.Stops Text.isBlank k.before)
    (hstops : Text.Stops Scan.isKeyChar (k.extend y).after) :
    Text.Stops Scan.isKeyChar (k.extend z).after := by
  cases hka : k.after with
  | cons x r => simpa [hka] using hstops
  | nil =>
      intro x hx
      refine Bool.eq_false_iff.2 fun hkey => ?_
      have hz' : (p.extend z).skipBlank = p.extend z := by
        refine skipBlank_eq_self fun v hv => ?_
        obtain rfl : x = v := Option.mem_unique (by simpa [hka] using hx) (by simpa [hp] using hv)
        exact Scan.isBlank_of_isKeyChar x hkey
      rw [hz'] at hz
      obtain hend | hline := hz
      · obtain ⟨-, rfl⟩ := List.append_eq_nil_iff.1 hend
        simp [hka] at hx
      · -- The name would end with a line feed.
        obtain ⟨t, ht, hbefore⟩ := hkp
        obtain ⟨rfl, -⟩ := List.append_eq_nil_iff.1 (ht.symm.trans hka)
        have hfeed := (atLineBlock_iff.1 hline).1
        rw [before_extend, hbefore] at hfeed
        exact absurd (hlast _ hfeed) (by decide)

/-- A name that nothing follows but a gap is found in front of any gap. -/
theorem noEquals_gap (hp : p.after = []) (hz : (p.extend z).skipBlank.Ended)
    (hline : (c.extend y).skipBlank.atLineBlock = false)
    (hname : (c.extend y).skipBlank.after.takeWhile Scan.isKeyChar ≠ [])
    (hplace : ((c.extend y).skipBlank.skip Scan.isKeyChar).skipBlank = (p.extend y).skipBlank) :
    (c.extend z).skipBlank.atLineBlock = false ∧
      (c.extend z).skipBlank.after.takeWhile Scan.isKeyChar ≠ [] ∧
      ((c.extend z).skipBlank.skip Scan.isKeyChar).skipBlank = (p.extend z).skipBlank := by
  have hrun : Text.IsRun Scan.isKeyChar
      ((c.extend y).skipBlank.after.takeWhile Scan.isKeyChar).reverse :=
    ⟨by simpa using hname, fun x hx => Text.mem_takeWhile (List.mem_reverse.1 hx)⟩
  -- Blanks end at `n` and the name at `k`, which are of the stem.
  have hlast : Text.Stops Text.isBlank ((c.extend y).skipBlank.skip Scan.isKeyChar).before :=
    hrun.stops Scan.isBlank_of_isKeyChar _
  obtain ⟨k, hk, hkp⟩ := Leads.exists_extend_of_gap hp (hplace ▸ leads_skipBlank _) hlast
  obtain ⟨n, hn, hnk⟩ := (hk ▸ leads_skip Scan.isKeyChar (c.extend y).skipBlank).exists_extend
  rw [hk] at hplace hlast
  rw [hn] at hline hname hk
  have hgap := skipBlank_gap (z := z) hp hkp hplace
  have hns : n.Settled z := by
    obtain ⟨t, hafter, hbefore⟩ := hnk
    have hbefore' : ((n.extend y).after.takeWhile Scan.isKeyChar).reverse ++ n.before = k.before :=
      congrArg before hk
    have ht := List.append_cancel_right (hbefore'.trans hbefore)
    rw [List.reverse_inj] at ht
    refine .inl ?_
    rw [hafter, ← ht]
    exact List.append_ne_nil_of_left_ne_nil hname _
  have hstops : Text.Stops Scan.isKeyChar (k.extend y).after := by
    rw [← hk]
    exact Text.stops_dropWhile _ _
  have hn' := skipBlank_extend hn hns
  obtain ⟨hk', hname'⟩ := skip_extend_of_stops hk (stops_gap hp hz hkp hlast hstops)
  refine ⟨?_, ?_, ?_⟩
  · rw [hn']
    exact hns.atLineBlock hline
  · rw [hn', hname']
    exact hname
  · rw [hn', hk', hgap]

/-- Fields fail in front of any gap. -/
theorem fields_malformed_gap {m : Malformation} (hp : p.after = [])
    (hy : (p.extend y).skipBlank.Ended) (hz : (p.extend z).skipBlank.Ended)
    (h : (c.extend y).fields d.closing = .malformed m (p.extend y).skipBlank) :
    (c.extend z).fields d.closing = .malformed m (p.extend z).skipBlank := by
  generalize he : c.extend y = e at h
  induction e using fields_induction (d := d) generalizing c with
  | comma e q hq hf ih =>
      subst he
      rw [hf] at h
      obtain ⟨q, rfl, -⟩ := Leads.exists_extend_of_gap hp
        (by simpa [h, FieldsRead.place] using leads_fields d.closing q) (hq.stops (by decide))
      rw [fields_comma hq.extend]
      exact ih rfl h
  | noName e hother hname hf =>
      subst he
      rw [hf] at h
      obtain ⟨-, hplace⟩ := FieldsRead.malformed.inj h
      exact absurd (hplace ▸ hy) hother.not_ended
  | noEquals e hline hname hequals hf =>
      subst he
      rw [hf] at h
      obtain ⟨rfl, hplace⟩ := FieldsRead.malformed.inj h
      obtain ⟨hline', hname', hplace'⟩ := noEquals_gap hp hz hline hname hplace
      have hequals' : (p.extend z).skipBlank.after.head? ≠ some '=' := by
        obtain hz | hz := hz
        · simp [hz]
        · simp [(atLineBlock_iff.1 hz).2]
      rw [fields_noEquals hline' hname' (by rw [hplace']; exact hequals'), hplace']
  | malformed e name q m r hq hv hf =>
      subst he
      rw [hf] at h
      obtain ⟨rfl, rfl⟩ := FieldsRead.malformed.inj h
      obtain ⟨q, rfl, -⟩ := Leads.exists_extend_of_gap hp (leads_of_value_malformed hv)
        (hq.equals.stops (by decide))
      rw [fields_name hq.extend, valueAndFields, value_malformed_gap hp hy hz hv]
  | field e name q v stop r hq hv hr hf ih =>
      subst he
      rw [hf] at h
      have hr' := FieldsRead.eq_of_cons_malformed h
      obtain ⟨r, rfl, -⟩ := Leads.exists_extend_of_gap hp
        (by simpa [hr', FieldsRead.place] using leads_fields d.closing r) (hr.stops (by decide))
      obtain ⟨stop, rfl, -⟩ := hr.leads.exists_extend
      obtain ⟨q, rfl, -⟩ := (leads_of_value_read hv).exists_extend
      rw [fields_name hq.extend, valueAndFields, value_read_extend_of_charAt hv hr]
      dsimp only
      rw [separator_comma _ hr.extend]
      dsimp only
      rw [ih rfl hr']
      rfl
  | missing e name q v stop hq hv hother hf =>
      subst he
      rw [hf] at h
      obtain ⟨-, hplace⟩ := FieldsRead.malformed.inj h
      exact absurd (hplace ▸ hy) hother.not_ended
  | close e q hq hf => simp [hf] at h
  | ended e hend hf => simp [hf] at h
  | cut e name q v hq hv hf => simp [hf] at h
  | last e name q v stop r hq hv hr hf => simp [hf] at h
  | unclosed e name q v stop hq hv hend hf => simp [hf] at h

/-- Where there was no citation key in front of a gap, there is none in front of another. -/
theorem not_keyAt_gap {m : Malformation} (hp : p.after = []) (hy : (p.extend y).skipBlank.Ended)
    (hk : ∀ key q, ¬ (c.extend y).KeyAt key q)
    (h : (c.extend y).fields d.closing = .malformed m (p.extend y).skipBlank) (key : Text)
    (q : Cursor) : ¬ (c.extend z).KeyAt key q := by
  have hplace : ((c.extend y).fields d.closing).place = (p.extend y).skipBlank := by rw [h]; rfl
  obtain ⟨r, hr⟩ | ⟨r, hr⟩ | hend | ⟨hother, hname⟩ | ⟨hline, hname, hequals⟩ | ⟨name, r, hr⟩ :=
    fields_cases d (c.extend y)
  · simp [fields_close hr] at h
  · rw [fields_comma hr] at hplace
    obtain ⟨r, rfl, -⟩ := Leads.exists_extend_of_gap hp (hplace ▸ leads_fields d.closing r)
      (hr.stops (by decide))
    obtain ⟨s, hs, -⟩ := hr.extend (z := z)
    exact not_keyAt_of_stops (by rw [hs, Text.stops_cons]; rfl)
  · simp [fields_ended hend] at h
  · rw [fields_noName hother hname] at hplace
    have hplace : (c.extend y).skipBlank = (p.extend y).skipBlank := hplace
    exact absurd (hplace ▸ hy) hother.not_ended
  · exact absurd ⟨hline, hname, rfl, rfl, hequals⟩ (hk _ _)
  · rw [fields_name hr] at hplace
    obtain ⟨r, rfl, -⟩ := Leads.exists_extend_of_gap hp
      (hplace ▸ leads_valueAndFields d.closing name r) (hr.equals.stops (by decide))
    exact hr.extend.not_keyAt

/-- **An entry fails in front of any gap.** -/
theorem entry_malformed_gap {m : Malformation} (hp : p.after = [])
    (hy : (p.extend y).skipBlank.Ended) (hz : (p.extend z).skipBlank.Ended)
    (h : (c.extend y).entry d.closing = .malformed m (p.extend y).skipBlank) :
    (c.extend z).entry d.closing = .malformed m (p.extend z).skipBlank := by
  by_cases hk : ∃ key q, (c.extend y).KeyAt key q
  · obtain ⟨key, q, hkey⟩ := hk
    rw [entry_key hkey] at h
    unfold afterKey at h
    obtain ⟨r, hr⟩ | ⟨r, hr⟩ | hend | hother := separator_cases d q
    · rw [separator_comma _ hr] at h
      have hf := EntryRead.eq_of_toEntry h
      obtain ⟨r, rfl, -⟩ := Leads.exists_extend_of_gap hp
        (by simpa [hf, FieldsRead.place] using leads_fields d.closing r) (hr.stops (by decide))
      obtain ⟨q, rfl, -⟩ := hr.leads.exists_extend
      rw [entry_key (hkey.extend_of_charAt hr), afterKey, separator_comma _ hr.extend]
      dsimp only
      rw [fields_malformed_gap hp hy hz hf]
      rfl
    · rw [separator_closing hr] at h
      cases h
    · rw [separator_ended hend] at h
      cases h
    · rw [separator_missing hother] at h
      obtain ⟨-, hplace⟩ := EntryRead.malformed.inj h
      exact absurd (hplace ▸ hy) hother.not_ended
  · have hk : ∀ key q, ¬ (c.extend y).KeyAt key q := fun key q hkey => hk ⟨key, q, hkey⟩
    rw [entry_noKey hk] at h
    have hf := EntryRead.eq_of_toEntry h
    rw [entry_noKey (not_keyAt_gap hp hy hk hf), fields_malformed_gap hp hy hz hf]
    rfl

/-! ## no failure stands before a blank -/

theorem stops_of_segment_stray (h : c.segment = .stray q) : Text.Stops Text.isBlank q.after := by
  obtain ⟨t, r, -, -, rfl⟩ := segment_eq_stray_iff.1 h
  exact Text.stops_cons.2 rfl

theorem stops_skipBlank (c : Cursor) : Text.Stops Text.isBlank c.skipBlank.after :=
  Text.stops_dropWhile _ _

theorem stops_of_moreSegments_malformed {m : Malformation} (h : c.moreSegments = .malformed m q) :
    Text.Stops Text.isBlank q.after := by
  induction c using moreSegments_induction with
  | noSegment c p _ _ hm =>
      obtain ⟨-, rfl⟩ := ValueRead.malformed.inj (hm.symm.trans h)
      exact stops_skipBlank p
  | stray c p r _ _ hseg hm =>
      obtain ⟨-, rfl⟩ := ValueRead.malformed.inj (hm.symm.trans h)
      exact stops_of_segment_stray hseg
  | more c p seg stop _ _ _ hm ih => exact ih (eq_of_cons_malformed (hm.symm.trans h))
  | last c _ hm => simp [hm] at h
  | cut c p seg _ _ hm => simp [hm] at h

theorem stops_of_value_malformed {m : Malformation} (h : c.value = .malformed m q) :
    Text.Stops Text.isBlank q.after := by
  unfold value at h
  dsimp only at h
  split at h
  · cases h
  · split at h
    · exact stops_of_moreSegments_malformed (eq_of_cons_malformed h)
    · cases h
    · cases h
    · next hseg =>
      cases h
      exact stops_of_segment_stray hseg

theorem stops_of_fields_malformed {m : Malformation} (h : c.fields d.closing = .malformed m q) :
    Text.Stops Text.isBlank q.after := by
  induction c using fields_induction (d := d) with
  | comma c p _ hf ih => exact ih (hf ▸ h)
  | noName c _ _ hf | noEquals c _ _ _ hf | missing c _ _ _ _ _ _ _ hf =>
      obtain ⟨-, rfl⟩ := FieldsRead.malformed.inj (hf.symm.trans h)
      exact stops_skipBlank _
  | malformed c name r m p _ hv hf =>
      obtain ⟨-, rfl⟩ := FieldsRead.malformed.inj (hf.symm.trans h)
      exact stops_of_value_malformed hv
  | field c name r v stop p _ _ _ hf ih =>
      exact ih (FieldsRead.eq_of_cons_malformed (hf.symm.trans h))
  | close c p _ hf => simp [hf] at h
  | ended c _ hf => simp [hf] at h
  | cut c name r v _ _ hf => simp [hf] at h
  | last c name r v stop p _ _ _ hf => simp [hf] at h
  | unclosed c name r v stop _ _ _ hf => simp [hf] at h

theorem stops_of_entry_malformed {m : Malformation} (h : c.entry d.closing = .malformed m q) :
    Text.Stops Text.isBlank q.after := by
  by_cases hk : ∃ key r, c.KeyAt key r
  · obtain ⟨key, r, hkey⟩ := hk
    rw [entry_key hkey] at h
    unfold afterKey at h
    obtain ⟨n, hn⟩ | ⟨n, hn⟩ | hend | hother := separator_cases d r
    · rw [separator_comma _ hn] at h
      exact stops_of_fields_malformed (EntryRead.eq_of_toEntry h)
    · rw [separator_closing hn] at h
      cases h
    · rw [separator_ended hend] at h
      cases h
    · rw [separator_missing hother] at h
      cases h
      exact stops_skipBlank r
  · rw [entry_noKey fun key r hkey => hk ⟨key, r, hkey⟩] at h
    exact stops_of_fields_malformed (EntryRead.eq_of_toEntry h)

end Cursor

end Bibliography
