import Bibliography.Parse.Cursor
import Bibliography.Warning

/-!
# Bibliography.Parse.Value

Reading a field value: segments with `#` between them.  No segment at all is
the empty value.  A segment without its closing delimiter runs to the end of
the input.
-/

namespace Bibliography

/-- What stands where a segment may begin. -/
inductive SegmentRead where
  /-- A segment that ends at a place. -/
  | read (segment : Segment) (stop : Cursor)
  /-- No segment. -/
  | absent
  /-- A segment that runs to the end of the input. -/
  | cut (segment : Segment)
  /-- A quoted segment closes a brace at a place that it did not open. -/
  | stray (place : Cursor)

/-- What stands where a value may begin. -/
inductive ValueRead where
  /-- A value that ends at a place. -/
  | read (value : Value) (stop : Cursor)
  /-- A value that runs to the end of the input. -/
  | cut (value : Value)
  | malformed (reason : Malformation) (place : Cursor)

/-- A value with one segment more in front. -/
def ValueRead.cons (s : Segment) : ValueRead → ValueRead
  | read v c => read (s :: v) c
  | cut v => cut (s :: v)
  | malformed m c => malformed m c

namespace Cursor

/-- Read a segment. -/
def segment (c : Cursor) : SegmentRead :=
  match c.after with
  | '{' :: s =>
    match Scan.balanced '{' '}' s with
    | .closed t rest => .read (.braced t) (c.past ('{' :: t ++ ['}']) rest)
    | _ => .cut (.braced s)
  | '"' :: s =>
    match Scan.quoted s with
    | .closed t rest => .read (.quoted t) (c.past ('"' :: t ++ ['"']) rest)
    | .stray t rest => .stray (c.past ('"' :: t) rest)
    | .unclosed _ => .cut (.quoted s)
  | s =>
    match s.takeWhile Scan.isLiteralChar with
    | [] => .absent
    | w => .read (.literal w) (c.past w (s.dropWhile Scan.isLiteralChar))

theorem leads_of_segment_read {c c' : Cursor} {s : Segment} (h : c.segment = .read s c') :
    c.Leads c' := by
  unfold segment at h
  split at h
  · next s' hs =>
    split at h
    · next t rest hb =>
      cases h
      exact leads_past (by simp [hs, Scan.eq_of_balanced_closed hb])
    · cases h
  · next s' hs =>
    split at h
    · next t rest hb =>
      cases h
      exact leads_past (by simp [hs, Scan.eq_of_quoted_closed hb])
    · cases h
    · cases h
  · split at h
    · cases h
    · cases h
      exact leads_past (List.takeWhile_append_dropWhile).symm

theorem leads_of_segment_stray {c c' : Cursor} (h : c.segment = .stray c') : c.Leads c' := by
  unfold segment at h
  split at h
  · split at h <;> cases h
  · next s' hs =>
    split at h
    · cases h
    · next t rest hb =>
      cases h
      exact leads_past (by simp [hs, Scan.eq_of_quotedFrom_stray hb])
    · cases h
  · split at h <;> cases h

/-- Read the segments that follow one that ends here, each after a `#`. -/
def moreSegments (c : Cursor) : ValueRead :=
  match _ : c.skipBlank.after with
  | '#' :: s =>
    let n := (c.skipBlank.past ['#'] s).skipBlank
    if n.atLineBlock then .malformed .segmentAfterHash n
    else match _ : n.segment with
      | .read seg stop => (moreSegments stop).cons seg
      | .absent => .malformed .segmentAfterHash n
      | .cut seg => .cut [seg]
      | .stray place => .malformed .strayBrace place
  | _ => .read [] c
termination_by c.after.length
decreasing_by
  have h1 : stop.after.length ≤ n.after.length := (leads_of_segment_read ‹_›).length_le
  have h2 : n.after.length ≤ s.length := (leads_skipBlank (c.skipBlank.past ['#'] s)).length_le
  have h3 := (leads_skipBlank c).length_le
  rw [‹c.skipBlank.after = _›, List.length_cons] at h3
  omega

/-- Read a value. -/
def value (c : Cursor) : ValueRead :=
  let n := c.skipBlank
  if n.atLineBlock then .read [] n
  else match n.segment with
    | .read seg stop => (moreSegments stop).cons seg
    | .absent => .read [] n
    | .cut seg => .cut [seg]
    | .stray place => .malformed .strayBrace place

/-! ## a value ends later on in the same text -/

theorem leads_of_cons_read {seg : Segment} {r : ValueRead} {v : Value} {c : Cursor}
    (h : r.cons seg = .read v c) : ∃ w, r = .read w c := by
  cases r <;> simp_all [ValueRead.cons]

theorem eq_of_cons_malformed {seg : Segment} {r : ValueRead} {m : Malformation} {c : Cursor}
    (h : r.cons seg = .malformed m c) : r = .malformed m c := by
  cases r <;> simp_all [ValueRead.cons]

theorem leads_hash {c : Cursor} {s : Text} (h : c.skipBlank.after = '#' :: s) :
    c.Leads (c.skipBlank.past ['#'] s).skipBlank :=
  (leads_skipBlank c).trans ((leads_past (by simp [h])).trans (leads_skipBlank _))

theorem leads_of_moreSegments_read {c c' : Cursor} {v : Value}
    (h : c.moreSegments = .read v c') : c.Leads c' := by
  fun_induction moreSegments c generalizing v with
  | case2 _ _ hs _ _ _ _ hr =>
    next ih =>
    obtain ⟨w, hw⟩ := leads_of_cons_read h
    exact (leads_hash hs).trans ((leads_of_segment_read hr).trans (ih hw))
  | case6 =>
    cases h
    exact Leads.refl _
  | _ => cases h

theorem leads_of_moreSegments_malformed {c c' : Cursor} {m : Malformation}
    (h : c.moreSegments = .malformed m c') : c.Leads c' := by
  fun_induction moreSegments c with
  | case1 _ _ hs =>
    obtain ⟨-, rfl⟩ := ValueRead.malformed.inj h
    exact leads_hash hs
  | case2 _ _ hs _ _ _ _ hr ih =>
    exact (leads_hash hs).trans ((leads_of_segment_read hr).trans (ih (eq_of_cons_malformed h)))
  | case3 _ _ hs =>
    obtain ⟨-, rfl⟩ := ValueRead.malformed.inj h
    exact leads_hash hs
  | case5 _ _ hs _ _ _ hr =>
    cases h
    exact (leads_hash hs).trans (leads_of_segment_stray hr)
  | _ => cases h

/-- A value that was read ends later on. -/
theorem leads_of_value_read {c c' : Cursor} {v : Value} (h : c.value = .read v c') :
    c.Leads c' := by
  unfold value at h
  refine (leads_skipBlank c).trans ?_
  dsimp only at h
  split at h
  · cases h
    exact Leads.refl _
  · split at h
    · next hr =>
      obtain ⟨w, hw⟩ := leads_of_cons_read h
      exact (leads_of_segment_read hr).trans (leads_of_moreSegments_read hw)
    · cases h
      exact Leads.refl _
    · cases h
    · cases h

/-- A malformed value fails later on. -/
theorem leads_of_value_malformed {c c' : Cursor} {m : Malformation}
    (h : c.value = .malformed m c') : c.Leads c' := by
  unfold value at h
  refine (leads_skipBlank c).trans ?_
  dsimp only at h
  split at h
  · cases h
  · split at h
    · next hr =>
      exact (leads_of_segment_read hr).trans
        (leads_of_moreSegments_malformed (eq_of_cons_malformed h))
    · cases h
    · cases h
    · next hr =>
      cases h
      exact leads_of_segment_stray hr

end Cursor

end Bibliography
