import Bibliography.Proofs.Parse.Reading

/-!
# Bibliography.Proofs.Parse.Extension

What is read does not depend on what comes after it.  Each reader is run on a
text that goes on with `w`, and stops in front of `w` or earlier; then it reads
the same, and stops at the same place, if the text goes on with `z` instead.

Where the reader has looked at the first character of `w` before it stopped,
this holds only if the text ends there, that is, if `z` is empty: the place is
then said to be *settled* for `z`.  A block that has its closing bracket stops
just after it, so that nothing has to be known of `z` (`read?_of_closed`).  A
block without one stops at the end of the text, or before an `@` at the start of
a line, and is read the same if the text ends where it stopped.
-/

namespace Bibliography

namespace Cursor

variable {c p n b : Cursor} {w z : Text} {x : Char} {d : Delimiter}

/-! ## texts that go on -/

/-- The same place in a text that goes on with `w`. -/
def extend (w : Text) (c : Cursor) : Cursor := ⟨c.before, c.after ++ w⟩

@[simp] theorem before_extend (w : Text) (c : Cursor) : (c.extend w).before = c.before := rfl

@[simp] theorem after_extend (w : Text) (c : Cursor) : (c.extend w).after = c.after ++ w := rfl

@[simp] theorem extend_nil (c : Cursor) : c.extend [] = c := by
  simp [extend]

theorem extend_injective (h : c.extend w = p.extend w) : c = p := by
  cases c
  cases p
  simpa [extend] using h

/-- A place that is not after the stem is a place of the stem. -/
theorem Leads.exists_extend (h : n.Leads (p.extend w)) : ∃ m : Cursor, n = m.extend w ∧ m.Leads p := by
  obtain ⟨t, ht, hb⟩ := h
  refine ⟨⟨n.before, t ++ p.after⟩, ?_, t, rfl, hb⟩
  cases n
  simpa [extend] using ht

theorem leads_of_extend (h : (c.extend w).Leads (p.extend w)) : c.Leads p := by
  obtain ⟨t, ht, hb⟩ := h
  refine ⟨t, ?_, hb⟩
  rw [after_extend, after_extend, ← List.append_assoc] at ht
  exact List.append_cancel_right ht

/-- What is read up to a place stays the same if the text goes on with `w`
after the stem. -/
def Settled (w : Text) (c : Cursor) : Prop := c.after ≠ [] ∨ w = []

theorem Settled.of_leads (hp : p.Settled w) (h : c.Leads p) : c.Settled w := by
  obtain hp | hp := hp
  · obtain ⟨t, ht, -⟩ := h
    exact .inl (by simp [ht, hp])
  · exact .inr hp

/-- At a settled place, what comes next came next before. -/
theorem Settled.mem_head? (h : p.Settled z) (hx : x ∈ (p.extend z).after.head?) :
    x ∈ (p.extend w).after.head? := by
  obtain h | rfl := h
  · cases ha : p.after with
    | nil => contradiction
    | cons y s => simpa [ha] using hx
  · cases ha : p.after with
    | nil => simp [ha] at hx
    | cons y s => simpa [ha] using hx

theorem Settled.stops {q : Char → Bool} (h : p.Settled z) (hs : Text.Stops q (p.extend w).after) :
    Text.Stops q (p.extend z).after :=
  fun x hx => hs x (h.mem_head? hx)

theorem Settled.head?_ne (h : p.Settled z) (hx : (p.extend w).after.head? ≠ some x) :
    (p.extend z).after.head? ≠ some x :=
  fun hx' => hx (h.mem_head? hx')

theorem Settled.atLineBlock (h : p.Settled z) (hline : (p.extend w).atLineBlock = false) :
    (p.extend z).atLineBlock = false := by
  refine Bool.eq_false_iff.2 fun hline' => Bool.eq_false_iff.1 hline ?_
  obtain ⟨hbefore, hafter⟩ := atLineBlock_iff.1 hline'
  exact atLineBlock_iff.2 ⟨hbefore, h.mem_head? hafter⟩

/-- At a settled place, what ended there ends there. -/
theorem Settled.ended (h : p.Settled z) (he : (p.extend w).Ended) : (p.extend z).Ended := by
  cases ha : p.after with
  | nil =>
      obtain h | rfl := h
      · contradiction
      · exact .inl (by simp [ha])
  | cons y s =>
      obtain he | he := he
      · simp [ha] at he
      · have hline := atLineBlock_iff.1 he
        exact .inr (atLineBlock_iff.2 (by simpa [ha] using hline))

theorem Other.extend (h : (p.extend w).Other d) (hp : p.after ≠ []) : (p.extend z).Other d := by
  obtain ⟨hline, x, s, hs, hx⟩ := h
  refine ⟨Settled.atLineBlock (.inl hp) hline, ?_⟩
  cases ha : p.after with
  | nil => contradiction
  | cons y t =>
      obtain ⟨rfl, -⟩ : y = x ∧ t ++ w = s := by simpa [ha] using hs
      exact ⟨y, t ++ z, by simp [ha], hx⟩

/-! ## runs and tokens -/

/-- A run ends where it ended, if what follows there does not go on with it. -/
theorem skip_extend_of_stops {q : Char → Bool} (h : (c.extend w).skip q = p.extend w)
    (hp : Text.Stops q (p.extend z).after) :
    (c.extend z).skip q = p.extend z ∧
      (c.extend z).after.takeWhile q = (c.extend w).after.takeWhile q := by
  have hafter : (c.after ++ w).dropWhile q = p.after ++ w := congrArg after h
  have hbefore : ((c.after ++ w).takeWhile q).reverse ++ c.before = p.before := congrArg before h
  generalize ht : (c.after ++ w).takeWhile q = t at hbefore
  have hrun : ∀ x ∈ t, q x = true := fun x hx => Text.mem_takeWhile (ht ▸ hx)
  have hstem : c.after = t ++ p.after := by
    have happ : c.after ++ w = t ++ p.after ++ w := by
      rw [List.append_assoc, ← hafter, ← ht, List.takeWhile_append_dropWhile]
    exact List.append_cancel_right happ
  have htake : (c.after ++ z).takeWhile q = t := by
    rw [hstem, List.append_assoc]
    exact Text.takeWhile_append_of_run hrun hp
  have hdrop : (c.after ++ z).dropWhile q = p.after ++ z := by
    rw [hstem, List.append_assoc]
    exact Text.dropWhile_append_of_run hrun hp
  refine ⟨?_, by rw [after_extend, after_extend, htake, ht]⟩
  unfold skip past
  rw [after_extend, htake, hdrop, before_extend, hbefore]
  rfl

/-- A run ends where it ended, if that place is settled. -/
theorem skip_extend {q : Char → Bool} (h : (c.extend w).skip q = p.extend w) (hp : p.Settled z) :
    (c.extend z).skip q = p.extend z ∧
      (c.extend z).after.takeWhile q = (c.extend w).after.takeWhile q := by
  refine skip_extend_of_stops h (hp.stops (w := w) ?_)
  rw [← h]
  exact Text.stops_dropWhile q _

theorem skipBlank_extend (h : (c.extend w).skipBlank = p.extend w) (hp : p.Settled z) :
    (c.extend z).skipBlank = p.extend z :=
  (skip_extend h hp).1

/-- Before a character that is read, everything is settled. -/
theorem CharAt.settled (h : (c.extend w).CharAt x (p.extend w)) : c.Settled z := by
  refine .inl fun hc => ?_
  have hlt := h.length_lt
  simp only [after_extend, hc, List.length_append, List.length_nil] at hlt
  omega

/-- The blanks before a character that is read are of the stem. -/
theorem CharAt.exists_skipBlank (h : (c.extend w).CharAt x (p.extend w)) :
    ∃ b : Cursor, (c.extend w).skipBlank = b.extend w ∧ b.after = x :: p.after ∧
      p.before = x :: b.before := by
  obtain ⟨s, hs, hp⟩ := h
  have hafter : p.after ++ w = s := congrArg after hp
  have hbefore : p.before = x :: (c.extend w).skipBlank.before := congrArg before hp
  have hlead : (c.extend w).skipBlank.Leads (p.extend w) := by
    rw [hp]
    exact leads_past (by rw [hs]; rfl)
  obtain ⟨b, hb, -⟩ := hlead.exists_extend
  refine ⟨b, hb, ?_, by rw [hbefore, hb, before_extend]⟩
  have happ : b.after ++ w = (x :: p.after) ++ w := by
    rw [List.cons_append, hafter, ← hs, hb, after_extend]
  exact List.append_cancel_right happ

theorem CharAt.extend (h : (c.extend w).CharAt x (p.extend w)) :
    (c.extend z).CharAt x (p.extend z) := by
  obtain ⟨b, hb, hx, hbefore⟩ := h.exists_skipBlank
  have hb' : (c.extend z).skipBlank = b.extend z := skipBlank_extend hb (.inl (by simp [hx]))
  refine ⟨p.after ++ z, by rw [hb', after_extend, hx, List.cons_append], ?_⟩
  rw [hb', past]
  simp [Cursor.extend, hbefore]

theorem NameAt.extend {name : Text} (h : (c.extend w).NameAt name (p.extend w)) :
    (c.extend z).NameAt name (p.extend z) := by
  obtain ⟨hline, hne, hname, hequals⟩ := h
  obtain ⟨k, hk, -⟩ := hequals.leads.exists_extend
  have hlead : (c.extend w).skipBlank.Leads (k.extend w) := by
    rw [← hk]
    exact leads_skip _ _
  obtain ⟨b, hb, hbk⟩ := hlead.exists_extend
  rw [hb] at hline hname hk
  rw [hb, hk] at hequals
  have hks : k.Settled z := hequals.settled
  have hbs : b.Settled z := hks.of_leads hbk
  have hb' := skipBlank_extend hb hbs
  obtain ⟨hk', hname'⟩ := skip_extend hk hks
  refine ⟨?_, hne, ?_, ?_⟩
  · rw [hb']
    exact hbs.atLineBlock hline
  · rw [hb', hname', hname]
  · rw [hb', hk']
    exact hequals.extend

theorem KeyAt.extend {key : Text} (h : (c.extend w).KeyAt key (p.extend w))
    (hb : (p.extend w).skipBlank = b.extend w) (hs : b.Settled z) :
    (c.extend z).KeyAt key (p.extend z) := by
  obtain ⟨hline, hne, hkey, hplace, hequals⟩ := h
  have hps : p.Settled z := hs.of_leads (leads_of_extend (hb ▸ leads_skipBlank _))
  have hlead : (c.extend w).skipBlank.Leads (p.extend w) := by
    rw [hplace]
    exact leads_skip _ _
  obtain ⟨n, hn, hnp⟩ := hlead.exists_extend
  rw [hn] at hline hkey hplace
  rw [hb] at hequals
  have hns : n.Settled z := hps.of_leads hnp
  have hn' := skipBlank_extend hn hns
  obtain ⟨hp', hkey'⟩ := skip_extend hplace.symm hps
  refine ⟨?_, hne, ?_, ?_, ?_⟩
  · rw [hn']
    exact hns.atLineBlock hline
  · rw [hn', hkey', hkey]
  · rw [hn', hp']
  · rw [skipBlank_extend hb hs]
    exact hs.head?_ne hequals

/-- A citation key stands where it stood if a character that is read follows. -/
theorem KeyAt.extend_of_charAt {key : Text} {q : Cursor} (h : (c.extend w).KeyAt key (p.extend w))
    (hx : (p.extend w).CharAt x (q.extend w)) : (c.extend z).KeyAt key (p.extend z) := by
  obtain ⟨b, hb, hbx, -⟩ := hx.exists_skipBlank
  exact h.extend hb (.inl (by simp [hbx]))

/-! ## values -/

theorem segment_read_extend {s : Segment} (h : (c.extend w).segment = .read s (p.extend w))
    (hp : p.Settled z) : (c.extend z).segment = .read s (p.extend z) := by
  obtain ⟨hs, r, hafter, hr, hplace⟩ := segment_eq_read_iff.1 h
  have hpr : p.after ++ w = r := congrArg after hplace
  have hpb : p.before = s.written.reverse ++ c.before := congrArg before hplace
  have hc : c.after = s.written ++ p.after := by
    rw [after_extend, ← hpr, ← List.append_assoc] at hafter
    exact List.append_cancel_right hafter
  refine segment_eq_read_iff.2 ⟨hs, p.after ++ z, ?_, ?_, ?_⟩
  · rw [after_extend, hc, List.append_assoc]
  · cases s with
    | literal t =>
        rw [← hpr] at hr
        exact hp.stops (w := w) hr
    | braced t => trivial
    | quoted t => trivial
  · simp [Cursor.extend, past, hpb]

/-- Where no segment began, none begins. -/
theorem Settled.noSegment (hp : p.Settled z)
    (h : (p.extend w).atLineBlock = true ∨ (p.extend w).NoSegment) :
    (p.extend z).atLineBlock = true ∨ (p.extend z).NoSegment := by
  obtain h | h := h
  · obtain h | h := hp.ended (.inr h)
    · exact .inr (by rw [NoSegment, h]; simp)
    · exact .inl h
  · exact .inr fun x hx => h x (hp.mem_head? hx)

/-- A failure at a place stays one if the text goes on with `z`: there is more
of the stem, or the text ends where a block at the start of a line followed. -/
def Held (w z : Text) (p : Cursor) : Prop :=
  p.after ≠ [] ∨ z = [] ∧ (p.extend w).atLineBlock = true

theorem Held.settled (h : p.Held w z) : p.Settled z := h.imp_right And.left

/-- Where something else than a block at the start of a line comes next, it is of
the stem. -/
theorem Held.ne_nil (h : p.Held w z) (hx : (p.extend w).atLineBlock = false) : p.after ≠ [] := by
  obtain h | ⟨-, h⟩ := h
  · exact h
  · simp [h] at hx

theorem segment_stray_extend (h : (c.extend w).segment = .stray (p.extend w))
    (hp : p.Held w z) : (c.extend z).segment = .stray (p.extend z) := by
  obtain ⟨t, r, hafter, ht, hplace⟩ := segment_eq_stray_iff.1 h
  have hpr : p.after ++ w = '}' :: r := congrArg after hplace
  have hpb : p.before = ('"' :: t).reverse ++ c.before := congrArg before hplace
  have hne : p.after ≠ [] := hp.ne_nil (atLineBlock_of_after (by simp [hpr]))
  cases hpa : p.after with
  | nil => contradiction
  | cons y r' =>
      rw [hpa] at hpr
      obtain ⟨rfl, rfl⟩ := List.cons.inj hpr
      have hc : c.after = '"' :: t ++ '}' :: r' := by
        have happ : c.after ++ w = ('"' :: t ++ '}' :: r') ++ w := by
          rw [← after_extend, hafter]
          simp
        exact List.append_cancel_right happ
      refine segment_eq_stray_iff.2 ⟨t, r' ++ z, ?_, ht, ?_⟩
      · rw [after_extend, hc]
        simp
      · simp [Cursor.extend, past, hpb, hpa]

theorem cons_eq_read {seg : Segment} {r : ValueRead} {v : Value} (h : r.cons seg = .read v p) :
    ∃ u, v = seg :: u ∧ r = .read u p := by
  cases r with
  | read u q =>
      cases h
      exact ⟨u, rfl, rfl⟩
  | cut u => cases h
  | malformed m q => cases h

/-- A segment after a `#` is read where it was. -/
theorem moreSegments_more_extend {q stop : Cursor} {seg : Segment}
    (hq : (c.extend w).CharAt '#' q) (hline : q.skipBlank.atLineBlock = false)
    (hseg : q.skipBlank.segment = .read seg (stop.extend w)) (hs : stop.Settled z) :
    (c.extend z).moreSegments = (stop.extend z).moreSegments.cons seg := by
  obtain ⟨n, hn, hnstop⟩ := (leads_of_segment_read hseg).exists_extend
  have hqn : q.Leads (n.extend w) := hn ▸ leads_skipBlank q
  obtain ⟨q, rfl, -⟩ := hqn.exists_extend
  have hns : n.Settled z := hs.of_leads hnstop
  rw [hn] at hline hseg
  rw [moreSegments_hash hq.extend, skipBlank_extend hn hns,
    if_neg (by simp [hns.atLineBlock hline]), segment_read_extend hseg hs]

theorem moreSegments_read_extend {v : Value} (h : (c.extend w).moreSegments = .read v (p.extend w))
    (hb : (p.extend w).skipBlank = b.extend w) (hs : b.Settled z) :
    (c.extend z).moreSegments = .read v (p.extend z) := by
  have hps : p.Settled z := hs.of_leads (leads_of_extend (hb ▸ leads_skipBlank _))
  generalize he : c.extend w = e at h
  induction e using moreSegments_induction generalizing c v with
  | last e hhash hm =>
      subst he
      rw [hm] at h
      obtain ⟨rfl, hplace⟩ := ValueRead.read.inj h
      obtain rfl := extend_injective hplace
      apply moreSegments_end
      rw [skipBlank_extend hb hs]
      rw [hb] at hhash
      exact hs.head?_ne hhash
  | more e q seg stop hq hline hseg hm ih =>
      subst he
      rw [hm] at h
      obtain ⟨u, rfl, hu⟩ := cons_eq_read h
      obtain ⟨stop, rfl, hstop⟩ := (leads_of_moreSegments_read hu).exists_extend
      rw [moreSegments_more_extend hq hline hseg (hps.of_leads hstop), ih rfl hu]
      rfl
  | noSegment e q _ _ hm => simp [hm] at h
  | cut e q _ _ _ hm => simp [hm] at h
  | stray e q r _ _ _ hm => simp [hm] at h

theorem moreSegments_malformed_extend {m : Malformation}
    (h : (c.extend w).moreSegments = .malformed m (p.extend w)) (hp : p.Held w z) :
    (c.extend z).moreSegments = .malformed m (p.extend z) := by
  generalize he : c.extend w = e at h
  induction e using moreSegments_induction generalizing c with
  | noSegment e q hq hsegment hm =>
      subst he
      rw [hm] at h
      obtain ⟨rfl, hn⟩ := ValueRead.malformed.inj h
      have hqp : q.Leads (p.extend w) := hn ▸ leads_skipBlank q
      obtain ⟨q, rfl, -⟩ := hqp.exists_extend
      have hn' := skipBlank_extend hn hp.settled
      rw [hn] at hsegment
      rw [moreSegments_noSegment hq.extend (by rw [hn']; exact hp.settled.noSegment hsegment), hn']
  | stray e q place hq hline hseg hm =>
      subst he
      rw [hm] at h
      obtain ⟨rfl, rfl⟩ := ValueRead.malformed.inj h
      obtain ⟨n, hn, hnp⟩ := (leads_of_segment_stray hseg).exists_extend
      have hqn : q.Leads (n.extend w) := hn ▸ leads_skipBlank q
      obtain ⟨q, rfl, -⟩ := hqn.exists_extend
      have hns : n.Settled z := hp.settled.of_leads hnp
      rw [hn] at hline hseg
      rw [moreSegments_hash hq.extend, skipBlank_extend hn hns,
        if_neg (by simp [hns.atLineBlock hline]), segment_stray_extend hseg hp]
  | more e q seg stop hq hline hseg hm ih =>
      subst he
      rw [hm] at h
      have hu := eq_of_cons_malformed h
      obtain ⟨stop, rfl, hstop⟩ := (leads_of_moreSegments_malformed hu).exists_extend
      rw [moreSegments_more_extend hq hline hseg (hp.settled.of_leads hstop), ih rfl hu]
      rfl
  | last e _ hm => simp [hm] at h
  | cut e q _ _ _ hm => simp [hm] at h

/-- The first segment of a value is read where it was. -/
theorem value_first_extend {stop : Cursor} {seg : Segment}
    (hline : (c.extend w).skipBlank.atLineBlock = false)
    (hseg : (c.extend w).skipBlank.segment = .read seg (stop.extend w)) (hs : stop.Settled z) :
    (c.extend z).value = (stop.extend z).moreSegments.cons seg := by
  obtain ⟨n, hn, hnstop⟩ := (leads_of_segment_read hseg).exists_extend
  have hns : n.Settled z := hs.of_leads hnstop
  have hn' := skipBlank_extend hn hns
  rw [hn] at hline hseg
  rw [value_segment (by rw [hn']; exact hns.atLineBlock hline), hn', segment_read_extend hseg hs]

theorem value_read_extend {v : Value} (h : (c.extend w).value = .read v (p.extend w))
    (hb : (p.extend w).skipBlank = b.extend w) (hs : b.Settled z) :
    (c.extend z).value = .read v (p.extend z) := by
  have hps : p.Settled z := hs.of_leads (leads_of_extend (hb ▸ leads_skipBlank _))
  by_cases hn : (c.extend w).skipBlank.atLineBlock = true ∨ (c.extend w).skipBlank.NoSegment
  · rw [value_noSegment hn] at h
    obtain ⟨rfl, hplace⟩ := ValueRead.read.inj h
    have hplace' := skipBlank_extend hplace hps
    rw [hplace] at hn
    rw [value_noSegment (by rw [hplace']; exact hps.noSegment hn), hplace']
  · obtain ⟨hline, habsent⟩ := not_or.1 hn
    have hline : (c.extend w).skipBlank.atLineBlock = false := by simpa using hline
    rw [value_segment hline] at h
    cases hseg : (c.extend w).skipBlank.segment with
    | absent => exact absurd (segment_eq_absent_iff.1 hseg) habsent
    | cut seg => simp [hseg] at h
    | stray q => simp [hseg] at h
    | read seg stop =>
        rw [hseg] at h
        obtain ⟨u, rfl, hu⟩ := cons_eq_read h
        obtain ⟨stop, rfl, hstop⟩ := (leads_of_moreSegments_read hu).exists_extend
        rw [value_first_extend hline hseg (hps.of_leads hstop),
          moreSegments_read_extend hu hb hs]
        rfl

/-- A value is read as it was if a character that is read follows. -/
theorem value_read_extend_of_charAt {v : Value} {q : Cursor}
    (h : (c.extend w).value = .read v (p.extend w)) (hx : (p.extend w).CharAt x (q.extend w)) :
    (c.extend z).value = .read v (p.extend z) := by
  obtain ⟨b, hb, hbx, -⟩ := hx.exists_skipBlank
  exact value_read_extend h hb (.inl (by simp [hbx]))

theorem value_malformed_extend {m : Malformation}
    (h : (c.extend w).value = .malformed m (p.extend w)) (hp : p.Held w z) :
    (c.extend z).value = .malformed m (p.extend z) := by
  by_cases hn : (c.extend w).skipBlank.atLineBlock = true ∨ (c.extend w).skipBlank.NoSegment
  · simp [value_noSegment hn] at h
  · obtain ⟨hline, habsent⟩ := not_or.1 hn
    have hline : (c.extend w).skipBlank.atLineBlock = false := by simpa using hline
    rw [value_segment hline] at h
    cases hseg : (c.extend w).skipBlank.segment with
    | absent => exact absurd (segment_eq_absent_iff.1 hseg) habsent
    | cut seg => simp [hseg] at h
    | stray q =>
        rw [hseg] at h
        obtain ⟨rfl, rfl⟩ := ValueRead.malformed.inj h
        obtain ⟨n, hn, hnp⟩ := (leads_of_segment_stray hseg).exists_extend
        have hns : n.Settled z := hp.settled.of_leads hnp
        have hn' := skipBlank_extend hn hns
        rw [hn] at hline hseg
        rw [value_segment (by rw [hn']; exact hns.atLineBlock hline), hn',
          segment_stray_extend hseg hp]
    | read seg stop =>
        rw [hseg] at h
        have hu := eq_of_cons_malformed h
        obtain ⟨stop, rfl, hstop⟩ := (leads_of_moreSegments_malformed hu).exists_extend
        rw [value_first_extend hline hseg (hp.settled.of_leads hstop),
          moreSegments_malformed_extend hu hp]
        rfl

/-! ## separators -/

theorem separator_ended_extend (h : (c.extend w).skipBlank = p.extend w)
    (hend : (p.extend w).Ended) (hp : p.Settled z) :
    (c.extend z).separator d.closing = .ended (p.extend z) := by
  have h' := skipBlank_extend h hp
  rw [separator_ended (by rw [h']; exact hp.ended hend), h']

theorem separator_missing_extend (h : (c.extend w).skipBlank = p.extend w)
    (hother : (p.extend w).Other d) (hp : p.Held w z) :
    (c.extend z).separator d.closing = .missing (p.extend z) := by
  have h' := skipBlank_extend h hp.settled
  rw [separator_missing (by rw [h']; exact hother.extend (hp.ne_nil hother.1)), h']

end Cursor

/-! ## fields and entries -/

namespace FieldsRead

/-- The same reading, stopped at another place. -/
def moved (p : Cursor) : FieldsRead → FieldsRead
  | closed fs _ => closed fs p
  | unclosed fs _ => unclosed fs p
  | malformed m _ => malformed m p

/-- A reading that stopped at a place, and does so if the text goes on with
`z`.  After the closing bracket, nothing is asked. -/
def Held (w z : Text) (p : Cursor) : FieldsRead → Prop
  | closed _ _ => True
  | unclosed _ _ => p.Settled z
  | malformed _ _ => p.Held w z

@[simp] theorem moved_cons (f : Field) (r : FieldsRead) (p : Cursor) :
    (r.cons f).moved p = (r.moved p).cons f := by
  cases r <;> rfl

@[simp] theorem held_cons {w z : Text} {p : Cursor} (f : Field) (r : FieldsRead) :
    (r.cons f).Held w z p ↔ r.Held w z p := by
  cases r <;> rfl

end FieldsRead

namespace EntryRead

/-- The same reading, stopped at another place. -/
def moved (p : Cursor) : EntryRead → EntryRead
  | closed e _ => closed e p
  | unclosed e _ => unclosed e p
  | malformed m _ => malformed m p

/-- A reading that stopped at a place, and does so if the text goes on with
`z`. -/
def Held (w z : Text) (p : Cursor) : EntryRead → Prop
  | closed _ _ => True
  | unclosed _ _ => p.Settled z
  | malformed _ _ => p.Held w z

@[simp] theorem moved_toEntry (k : Option Text) (r : FieldsRead) (p : Cursor) :
    (r.toEntry k).moved p = (r.moved p).toEntry k := by
  cases r <;> rfl

@[simp] theorem held_toEntry {w z : Text} {p : Cursor} (k : Option Text) (r : FieldsRead) :
    (r.toEntry k).Held w z p ↔ r.Held w z p := by
  cases r <;> rfl

end EntryRead

namespace Cursor

variable {c p n b : Cursor} {w z : Text} {x : Char} {d : Delimiter}

/-- A name without an equals sign is found where it was. -/
theorem fields_noEquals_extend (hline : (c.extend w).skipBlank.atLineBlock = false)
    (hname : (c.extend w).skipBlank.after.takeWhile Scan.isKeyChar ≠ [])
    (hequals : ((c.extend w).skipBlank.skip Scan.isKeyChar).skipBlank.after.head? ≠ some '=')
    (hp : ((c.extend w).skipBlank.skip Scan.isKeyChar).skipBlank = p.extend w)
    (hs : p.Settled z) :
    (c.extend z).fields d.closing = .malformed .equalsAfterName (p.extend z) := by
  -- Blanks end at `n`, the name at `k`, and the blanks after it at `p`.
  obtain ⟨k, hk, hkp⟩ := (hp ▸ leads_skipBlank _).exists_extend
  obtain ⟨n, hn, hnk⟩ := (hk ▸ leads_skip _ _).exists_extend
  rw [hk] at hp
  rw [hn] at hk hline hname
  rw [hn, hk, hp] at hequals
  have hks : k.Settled z := hs.of_leads hkp
  have hns : n.Settled z := hks.of_leads hnk
  have hn' := skipBlank_extend hn hns
  obtain ⟨hk', hname'⟩ := skip_extend hk hks
  have hp' := skipBlank_extend hp hs
  rw [fields_noEquals (by rw [hn']; exact hns.atLineBlock hline) (by rw [hn', hname']; exact hname)
    (by rw [hn', hk', hp']; exact hs.head?_ne hequals), hn', hk', hp']

/-- **Fields are read as they were.** -/
theorem fields_extend (hp : ((c.extend w).fields d.closing).place = p.extend w)
    (h : ((c.extend w).fields d.closing).Held w z p) :
    (c.extend z).fields d.closing = ((c.extend w).fields d.closing).moved (p.extend z) := by
  generalize he : c.extend w = e at hp h ⊢
  induction e using fields_induction (d := d) generalizing c with
  | close e q hq hf =>
      subst he
      rw [hf] at hp ⊢
      obtain rfl : q = p.extend w := hp
      rw [fields_close hq.extend]
      rfl
  | comma e q hq hf ih =>
      subst he
      rw [hf] at hp h ⊢
      obtain ⟨q, rfl, -⟩ := (hp ▸ leads_fields d.closing q).exists_extend
      rw [fields_comma hq.extend]
      exact ih rfl hp h
  | ended e hend hf =>
      subst he
      rw [hf] at hp h ⊢
      have hplace : (c.extend w).skipBlank = p.extend w := hp
      have hs : p.Settled z := h
      have hplace' := skipBlank_extend hplace hs
      rw [hplace] at hend
      rw [fields_ended (by rw [hplace']; exact hs.ended hend), hplace']
      rfl
  | noName e hother hname hf =>
      subst he
      rw [hf] at hp h ⊢
      have hplace : (c.extend w).skipBlank = p.extend w := hp
      have hs : p.Held w z := h
      rw [hplace] at hother hname
      have hplace' := skipBlank_extend hplace hs.settled
      rw [fields_noName (by rw [hplace']; exact hother.extend (hs.ne_nil hother.1))
        (by rw [hplace']; exact hs.settled.stops hname), hplace']
      rfl
  | noEquals e hline hname hequals hf =>
      subst he
      rw [hf] at hp h ⊢
      rw [fields_noEquals_extend hline hname hequals hp (Held.settled h)]
      rfl
  | malformed e name q m r hq hv hf =>
      subst he
      rw [hf] at hp h ⊢
      obtain rfl : r = p.extend w := hp
      obtain ⟨q, rfl, -⟩ := (leads_of_value_malformed hv).exists_extend
      rw [fields_name hq.extend, valueAndFields, value_malformed_extend hv h]
      rfl
  | cut e name q v hq hv hf =>
      subst he
      rw [hf] at hp h ⊢
      have hafter : [] = p.after ++ w := congrArg after hp
      obtain ⟨hnil, rfl⟩ := List.append_eq_nil_iff.1 hafter.symm
      obtain rfl : z = [] := h.resolve_left (by simp [hnil])
      rw [hf]
      have hplace : q.atEnd = p.extend [] := hp
      rw [hplace]
      rfl
  | field e name q v stop r hq hv hr hf ih =>
      subst he
      rw [hf] at hp h ⊢
      rw [FieldsRead.place_cons] at hp
      rw [FieldsRead.held_cons] at h
      obtain ⟨r, rfl, -⟩ := (hp ▸ leads_fields d.closing r).exists_extend
      obtain ⟨stop, rfl, -⟩ := hr.leads.exists_extend
      obtain ⟨q, rfl, -⟩ := (leads_of_value_read hv).exists_extend
      rw [fields_name hq.extend, valueAndFields, value_read_extend_of_charAt hv hr]
      dsimp only
      rw [separator_comma _ hr.extend]
      dsimp only
      rw [ih rfl hp h, FieldsRead.moved_cons]
  | last e name q v stop r hq hv hr hf =>
      subst he
      rw [hf] at hp h ⊢
      obtain rfl : r = p.extend w := hp
      obtain ⟨stop, rfl, -⟩ := hr.leads.exists_extend
      obtain ⟨q, rfl, -⟩ := (leads_of_value_read hv).exists_extend
      rw [fields_name hq.extend, valueAndFields, value_read_extend_of_charAt hv hr]
      dsimp only
      rw [separator_closing hr.extend]
      rfl
  | unclosed e name q v stop hq hv hend hf =>
      subst he
      rw [hf] at hp h ⊢
      have hplace : stop.skipBlank = p.extend w := hp
      have hs : p.Settled z := h
      obtain ⟨stop, rfl, -⟩ := (hplace ▸ leads_skipBlank stop).exists_extend
      obtain ⟨q, rfl, -⟩ := (leads_of_value_read hv).exists_extend
      rw [fields_name hq.extend, valueAndFields, value_read_extend hv hplace hs]
      dsimp only
      rw [separator_ended_extend hplace (hplace ▸ hend) hs]
      rfl
  | missing e name q v stop hq hv hother hf =>
      subst he
      rw [hf] at hp h ⊢
      have hplace : stop.skipBlank = p.extend w := hp
      have hs : p.Held w z := h
      obtain ⟨stop, rfl, -⟩ := (hplace ▸ leads_skipBlank stop).exists_extend
      obtain ⟨q, rfl, -⟩ := (leads_of_value_read hv).exists_extend
      rw [fields_name hq.extend, valueAndFields, value_read_extend hv hplace hs.settled]
      dsimp only
      rw [separator_missing_extend hplace (hplace ▸ hother) hs]
      rfl

/-- Where there was no citation key, there is none. -/
theorem not_keyAt_extend (hk : ∀ key q, ¬ (c.extend w).KeyAt key q)
    (hp : ((c.extend w).fields d.closing).place = p.extend w)
    (h : ((c.extend w).fields d.closing).Held w z p) (key : Text) (q : Cursor) :
    ¬ (c.extend z).KeyAt key q := by
  obtain ⟨r, hr⟩ | ⟨r, hr⟩ | hend | ⟨hother, hname⟩ | ⟨hline, hname, hequals⟩ | ⟨name, r, hr⟩ :=
    fields_cases d (c.extend w)
  · rw [fields_close hr] at hp
    obtain rfl : r = p.extend w := hp
    obtain ⟨s, hs, -⟩ := hr.extend (z := z)
    exact not_keyAt_of_stops (by rw [hs, Text.stops_cons, d.isKeyChar_closing])
  · rw [fields_comma hr] at hp
    obtain ⟨r, rfl, -⟩ := (hp ▸ leads_fields d.closing r).exists_extend
    obtain ⟨s, hs, -⟩ := hr.extend (z := z)
    exact not_keyAt_of_stops (by rw [hs, Text.stops_cons]; rfl)
  · rw [fields_ended hend] at hp h
    have hplace : (c.extend w).skipBlank = p.extend w := hp
    have hs : p.Settled z := h
    rw [hplace] at hend
    have hplace' := skipBlank_extend hplace hs
    obtain hend | hend := hs.ended hend
    · exact not_keyAt_of_stops (by rw [hplace', hend]; exact Text.stops_nil)
    · intro hkey
      have hline := hkey.line
      rw [hplace', hend] at hline
      cases hline
  · rw [fields_noName hother hname] at hp h
    have hplace : (c.extend w).skipBlank = p.extend w := hp
    have hs : p.Settled z := Held.settled h
    rw [hplace] at hname
    exact not_keyAt_of_stops (by rw [skipBlank_extend hplace hs]; exact hs.stops hname)
  · exact absurd ⟨hline, hname, rfl, rfl, hequals⟩ (hk _ _)
  · rw [fields_name hr] at hp
    obtain ⟨r, rfl, -⟩ := (hp ▸ leads_valueAndFields d.closing name r).exists_extend
    exact hr.extend.not_keyAt

/-- **An entry is read as it was.** -/
theorem entry_extend (hp : ((c.extend w).entry d.closing).place = p.extend w)
    (h : ((c.extend w).entry d.closing).Held w z p) :
    (c.extend z).entry d.closing = ((c.extend w).entry d.closing).moved (p.extend z) := by
  by_cases hk : ∃ key q, (c.extend w).KeyAt key q
  · obtain ⟨key, q, hkey⟩ := hk
    rw [entry_key hkey] at hp h ⊢
    unfold afterKey at hp h ⊢
    obtain ⟨r, hr⟩ | ⟨r, hr⟩ | hend | hother := separator_cases d q
    · rw [separator_comma _ hr] at hp h ⊢
      dsimp only at hp h ⊢
      rw [EntryRead.place_toEntry] at hp
      rw [EntryRead.held_toEntry] at h
      obtain ⟨r, rfl, -⟩ := (hp ▸ leads_fields d.closing r).exists_extend
      obtain ⟨q, rfl, -⟩ := hr.leads.exists_extend
      rw [entry_key (hkey.extend_of_charAt hr), afterKey, separator_comma _ hr.extend]
      dsimp only
      rw [fields_extend hp h, EntryRead.moved_toEntry]
    · rw [separator_closing hr] at hp ⊢
      obtain rfl : r = p.extend w := hp
      obtain ⟨q, rfl, -⟩ := hr.leads.exists_extend
      rw [entry_key (hkey.extend_of_charAt hr), afterKey, separator_closing hr.extend]
      rfl
    · rw [separator_ended hend] at hp h ⊢
      have hplace : q.skipBlank = p.extend w := hp
      have hs : p.Settled z := h
      obtain ⟨q, rfl, -⟩ := (hplace ▸ leads_skipBlank q).exists_extend
      rw [entry_key (hkey.extend hplace hs), afterKey,
        separator_ended_extend hplace (hplace ▸ hend) hs]
      rfl
    · rw [separator_missing hother] at hp h ⊢
      have hplace : q.skipBlank = p.extend w := hp
      have hs : p.Held w z := h
      obtain ⟨q, rfl, -⟩ := (hplace ▸ leads_skipBlank q).exists_extend
      rw [entry_key (hkey.extend hplace hs.settled), afterKey,
        separator_missing_extend hplace (hplace ▸ hother) hs]
      rfl
  · have hk : ∀ key q, ¬ (c.extend w).KeyAt key q := fun key q hkey => hk ⟨key, q, hkey⟩
    rw [entry_noKey hk] at hp h ⊢
    rw [EntryRead.place_toEntry] at hp
    rw [EntryRead.held_toEntry] at h
    rw [entry_noKey (not_keyAt_extend hk hp h), fields_extend hp h, EntryRead.moved_toEntry]

end Cursor

end Bibliography
