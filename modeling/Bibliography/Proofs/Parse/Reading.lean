import Bibliography.Parse.Block
import Bibliography.Proofs.WellFormed

/-!
# Bibliography.Proofs.Parse.Reading

What each reader finds, said by the text at its place.  A segment is read
exactly where its delimiters say (`segment_eq_read_iff`).  The readers of
values, fields and entries repeat themselves; for each of their steps there is
an equation, and nothing outside of this module opens their definitions.
-/

namespace Bibliography

namespace Scan

theorem isBlank_of_isKeyChar (x : Char) (h : isKeyChar x = true) : Text.isBlank x = false := by
  unfold isKeyChar at h
  simp only [Bool.and_eq_true, Bool.not_eq_true'] at h
  exact h.1

theorem isBlank_of_isLiteralChar (x : Char) (h : isLiteralChar x = true) :
    Text.isBlank x = false := by
  unfold isLiteralChar at h
  simp only [Bool.and_eq_true, Bool.not_eq_true'] at h
  exact h.1

end Scan

namespace Delimiter

theorem closing_ne_comma (d : Delimiter) : d.closing ≠ ',' := by cases d <;> decide

theorem closing_ne_at (d : Delimiter) : d.closing ≠ '@' := by cases d <;> decide

theorem isKeyChar_closing (d : Delimiter) : Scan.isKeyChar d.closing = false := by
  cases d <;> decide

theorem isLiteralChar_closing (d : Delimiter) : Scan.isLiteralChar d.closing = false := by
  cases d <;> decide

theorem isBlank_closing (d : Delimiter) : Text.isBlank d.closing = false := by
  cases d <;> decide

end Delimiter

namespace Cursor

variable {c p : Cursor}

/-! ## places -/

@[simp] theorem after_past (t rest : Text) (c : Cursor) : (c.past t rest).after = rest := rfl

@[simp] theorem before_past (t rest : Text) (c : Cursor) :
    (c.past t rest).before = t.reverse ++ c.before := rfl

theorem after_skip (q : Char → Bool) (c : Cursor) :
    (c.skip q).after = c.after.dropWhile q := rfl

theorem after_skipBlank (c : Cursor) :
    c.skipBlank.after = c.after.dropWhile Text.isBlank := rfl

/-- Nothing is skipped where the class does not begin. -/
theorem skip_eq_self {q : Char → Bool} (h : Text.Stops q c.after) : c.skip q = c := by
  unfold skip past
  rw [h.takeWhile_eq, h.dropWhile_eq, List.reverse_nil, List.nil_append]

@[simp] theorem skipBlank_skipBlank (c : Cursor) : c.skipBlank.skipBlank = c.skipBlank :=
  skip_eq_self (Text.stops_dropWhile _ _)

theorem skipBlank_eq_self (h : Text.Stops Text.isBlank c.after) : c.skipBlank = c := skip_eq_self h

/-- The place after blanks that are all there. -/
theorem skipBlank_of_after {t r : Text} (h : c.after = t ++ r)
    (ht : ∀ x ∈ t, Text.isBlank x = true) (hr : Text.Stops Text.isBlank r) :
    c.skipBlank = c.past t r := by
  unfold skipBlank skip
  rw [h, Text.takeWhile_append_of_run ht hr, Text.dropWhile_append_of_run ht hr]

/-- A character stands after the blanks; `p` is the place after it. -/
def CharAt (c : Cursor) (x : Char) (p : Cursor) : Prop :=
  ∃ s, c.skipBlank.after = x :: s ∧ p = c.skipBlank.past [x] s

theorem CharAt.leads {x : Char} (h : c.CharAt x p) : c.Leads p := by
  obtain ⟨s, hs, rfl⟩ := h
  exact (leads_skipBlank c).trans (leads_past (by rw [hs]; rfl))

theorem CharAt.length_lt {x : Char} (h : c.CharAt x p) : p.after.length < c.after.length := by
  obtain ⟨s, hs, rfl⟩ := h
  have hle := (leads_skipBlank c).length_le
  rw [hs, List.length_cons] at hle
  exact hle

/-- The end of the text, or a block at the start of a line. -/
def Ended (c : Cursor) : Prop := c.after = [] ∨ c.atLineBlock = true

/-- None of the places where an item of an entry can end. -/
def Other (d : Delimiter) (c : Cursor) : Prop :=
  c.atLineBlock = false ∧ ∃ x s, c.after = x :: s ∧ x ≠ ',' ∧ x ≠ d.closing

theorem atLineBlock_iff :
    c.atLineBlock = true ↔ c.before.head? = some '\n' ∧ c.after.head? = some '@' := by
  unfold atLineBlock
  simp only [Bool.and_eq_true, decide_eq_true_eq]

theorem atLineBlock_of_before (h : c.before.head? ≠ some '\n') : c.atLineBlock = false :=
  Bool.eq_false_iff.2 fun hline => h (atLineBlock_iff.1 hline).1

theorem atLineBlock_of_after (h : c.after.head? ≠ some '@') : c.atLineBlock = false :=
  Bool.eq_false_iff.2 fun hline => h (atLineBlock_iff.1 hline).2

end Cursor

/-! ## segments -/

/-- What follows a segment does not go on with it. -/
def Segment.EndsAt : Segment → Text → Prop
  | literal _, r => Text.Stops Scan.isLiteralChar r
  | braced _, _ | quoted _, _ => True

namespace Cursor

variable {c p : Cursor}

/-- No delimiter and no bare token stands here. -/
def NoSegment (c : Cursor) : Prop :=
  ∀ x ∈ c.after.head?, Scan.isLiteralChar x = false ∧ x ≠ '{' ∧ x ≠ '"'

theorem segment_braced {s : Text} (h : c.after = '{' :: s) :
    c.segment = match Scan.balanced '{' '}' s with
      | .closed t rest => .read (.braced t) (c.past ('{' :: t ++ ['}']) rest)
      | _ => .cut (.braced s) := by
  unfold segment
  rw [h]
  rfl

theorem segment_quoted {s : Text} (h : c.after = '"' :: s) :
    c.segment = match Scan.quoted s with
      | .closed t rest => .read (.quoted t) (c.past ('"' :: t ++ ['"']) rest)
      | .stray t rest => .stray (c.past ('"' :: t) rest)
      | .unclosed _ => .cut (.quoted s) := by
  unfold segment
  rw [h]
  rfl

/-- Without a delimiter, a segment is the run of its characters. -/
theorem segment_bare (hb : c.after.head? ≠ some '{') (hq : c.after.head? ≠ some '"') :
    c.segment = match c.after.takeWhile Scan.isLiteralChar with
      | [] => .absent
      | w => .read (.literal w) (c.past w (c.after.dropWhile Scan.isLiteralChar)) := by
  unfold segment
  split
  · next s hs => simp [hs] at hb
  · next s hs => simp [hs] at hq
  · rfl

/-- **A segment is read** where it stands as it is written, its text closed, and
what follows does not go on with it. -/
theorem segment_eq_read_iff {s : Segment} :
    c.segment = .read s p ↔
      s.IsClosed ∧ ∃ r, c.after = s.written ++ r ∧ s.EndsAt r ∧ p = c.past s.written r := by
  constructor
  · intro h
    unfold segment at h
    split at h
    · next s' hs =>
      split at h
      · next t rest hb =>
        cases h
        obtain ⟨rfl, ht⟩ := (Scan.balanced_eq_closed_iff (by decide)).1 hb
        exact ⟨ht, rest, by simp [hs, Segment.written], trivial, rfl⟩
      · cases h
    · next s' hs =>
      split at h
      · next t rest hq =>
        cases h
        obtain ⟨rfl, ht⟩ := Scan.quoted_eq_closed_iff.1 hq
        exact ⟨Segment.isClosed_quoted_iff.2 ht, rest, by simp [hs, Segment.written], trivial, rfl⟩
      · cases h
      · cases h
    · split at h
      · cases h
      · next w hw =>
        cases h
        refine ⟨Text.isRun_takeWhile hw, _, ?_, Text.stops_dropWhile _ _, rfl⟩
        exact List.takeWhile_append_dropWhile.symm
  · rintro ⟨hs, r, hafter, hr, rfl⟩
    cases s with
    | braced t =>
        have hb : Scan.balanced '{' '}' (t ++ '}' :: r) = .closed t r :=
          (Scan.balanced_eq_closed_iff (by decide)).2 ⟨rfl, hs⟩
        rw [segment_braced (s := t ++ '}' :: r) (by simpa [Segment.written] using hafter), hb]
        rfl
    | quoted t =>
        have hq : Scan.quoted (t ++ '"' :: r) = .closed t r :=
          Scan.quoted_eq_closed_iff.2 ⟨rfl, Segment.isClosed_quoted_iff.1 hs⟩
        rw [segment_quoted (s := t ++ '"' :: r) (by simpa [Segment.written] using hafter), hq]
        rfl
    | literal t =>
        obtain ⟨hne, ht⟩ := hs
        have hhead : ∀ x ∈ c.after.head?, Scan.isLiteralChar x = true := by
          intro x hx
          cases t with
          | nil => contradiction
          | cons y t =>
              obtain rfl : y = x := by simpa [hafter, Segment.written] using hx
              exact ht y List.mem_cons_self
        have htake : c.after.takeWhile Scan.isLiteralChar = t := by
          rw [hafter]
          exact Text.takeWhile_append_of_run ht hr
        have hdrop : c.after.dropWhile Scan.isLiteralChar = r := by
          rw [hafter]
          exact Text.dropWhile_append_of_run ht hr
        rw [segment_bare (fun h => absurd (hhead _ h) (by decide))
          (fun h => absurd (hhead _ h) (by decide)), htake, hdrop]
        cases t with
        | nil => contradiction
        | cons y t => rfl

theorem segment_written {s : Segment} {r : Text} (hs : s.IsClosed) (h : c.after = s.written ++ r)
    (hr : s.EndsAt r) : c.segment = .read s (c.past s.written r) :=
  segment_eq_read_iff.2 ⟨hs, r, h, hr, rfl⟩

theorem segment_eq_absent_iff : c.segment = .absent ↔ c.NoSegment := by
  constructor
  · intro h x hx
    unfold segment at h
    split at h
    · split at h <;> cases h
    · split at h <;> cases h
    · next s hb hq =>
      split at h
      · next hw =>
        cases hc : c.after with
        | nil => simp [hc] at hx
        | cons y r =>
            obtain rfl : y = x := by simpa [hc] using hx
            rw [hc, List.takeWhile_cons] at hw
            refine ⟨?_, ?_, ?_⟩
            · by_cases hy : Scan.isLiteralChar y = true
              · simp [hy] at hw
              · simpa using hy
            · rintro rfl
              exact hb r hc
            · rintro rfl
              exact hq r hc
      · cases h
  · intro h
    have hstops : Text.Stops Scan.isLiteralChar c.after := fun x hx => (h x hx).1
    rw [segment_bare (fun hb => (h _ hb).2.1 rfl) (fun hq => (h _ hq).2.2 rfl),
      hstops.takeWhile_eq]

theorem segment_eq_stray_iff :
    c.segment = .stray p ↔ ∃ t r, c.after = '"' :: t ++ '}' :: r ∧
      (∃ q, Scan.pass? Scan.Quotation.after? .bare t = some q ∧ q.depth = 0) ∧
      p = c.past ('"' :: t) ('}' :: r) := by
  constructor
  · intro h
    unfold segment at h
    split at h
    · split at h <;> cases h
    · next s hs =>
      split at h
      · cases h
      · next t rest hq =>
        cases h
        obtain ⟨⟨r, rfl⟩, rfl, ht⟩ := Scan.quoted_eq_stray_iff.1 hq
        exact ⟨t, r, hs, ht, rfl⟩
      · cases h
    · split at h <;> cases h
  · rintro ⟨t, r, hafter, ht, rfl⟩
    have hq : Scan.quoted (t ++ '}' :: r) = .stray t ('}' :: r) :=
      Scan.quoted_eq_stray_iff.2 ⟨⟨r, rfl⟩, rfl, ht⟩
    rw [segment_quoted (s := t ++ '}' :: r) hafter, hq]

/-! ## values -/

/-- No segment follows where no `#` does. -/
theorem moreSegments_end (h : c.skipBlank.after.head? ≠ some '#') :
    c.moreSegments = .read [] c := by
  rw [moreSegments]
  split
  · next s hs => simp [hs] at h
  · rfl

/-- After a `#` there has to be a segment. -/
theorem moreSegments_hash (h : c.CharAt '#' p) :
    c.moreSegments =
      if p.skipBlank.atLineBlock then .malformed .segmentAfterHash p.skipBlank
      else match p.skipBlank.segment with
        | .read seg stop => stop.moreSegments.cons seg
        | .absent => .malformed .segmentAfterHash p.skipBlank
        | .cut seg => .cut [seg]
        | .stray place => .malformed .strayBrace place := by
  obtain ⟨s, hs, rfl⟩ := h
  rw [moreSegments]
  split
  · next s' hs' =>
    obtain ⟨-, rfl⟩ := List.cons.inj (hs.symm.trans hs')
    dsimp only
    split
    · rfl
    · split <;> next hseg => rw [hseg]
  · next hne => exact absurd hs (hne s)

/-- Nor is there one at the start of a line, or where none begins. -/
theorem moreSegments_noSegment (h : c.CharAt '#' p)
    (hp : p.skipBlank.atLineBlock = true ∨ p.skipBlank.NoSegment) :
    c.moreSegments = .malformed .segmentAfterHash p.skipBlank := by
  rw [moreSegments_hash h]
  obtain hp | hp := hp
  · rw [if_pos hp]
  · rw [segment_eq_absent_iff.2 hp, ite_self]

/-- **Induction over the segments after the first**, by what stands after each
`#`. -/
theorem moreSegments_induction {P : Cursor → Prop}
    (last : ∀ c : Cursor, c.skipBlank.after.head? ≠ some '#' → c.moreSegments = .read [] c → P c)
    (noSegment : ∀ c p : Cursor, c.CharAt '#' p →
      p.skipBlank.atLineBlock = true ∨ p.skipBlank.NoSegment →
      c.moreSegments = .malformed .segmentAfterHash p.skipBlank → P c)
    (cut : ∀ (c p : Cursor) seg, c.CharAt '#' p → p.skipBlank.segment = .cut seg →
      c.moreSegments = .cut [seg] → P c)
    (stray : ∀ c p q : Cursor, c.CharAt '#' p → p.skipBlank.atLineBlock = false →
      p.skipBlank.segment = .stray q → c.moreSegments = .malformed .strayBrace q → P c)
    (more : ∀ (c p : Cursor) seg stop, c.CharAt '#' p → p.skipBlank.atLineBlock = false →
      p.skipBlank.segment = .read seg stop → c.moreSegments = stop.moreSegments.cons seg →
      P stop → P c)
    (c : Cursor) : P c := by
  induction hn : c.after.length using Nat.strongRecOn generalizing c with
  | ind n ih =>
      subst hn
      by_cases hhash : c.skipBlank.after.head? = some '#'
      · obtain ⟨s, hs⟩ := List.head?_eq_some_iff.1 hhash
        have h : c.CharAt '#' (c.skipBlank.past ['#'] s) := ⟨s, hs, rfl⟩
        generalize c.skipBlank.past ['#'] s = p at h
        have hm := moreSegments_hash h
        by_cases hline : p.skipBlank.atLineBlock = true
        · rw [if_pos hline] at hm
          exact noSegment c p h (.inl hline) hm
        · rw [if_neg hline] at hm
          have hline : p.skipBlank.atLineBlock = false := by simpa using hline
          cases hseg : p.skipBlank.segment with
          | read seg stop =>
              rw [hseg] at hm
              have hlt : stop.after.length < c.after.length :=
                Nat.lt_of_le_of_lt
                  ((leads_skipBlank p).trans (leads_of_segment_read hseg)).length_le h.length_lt
              exact more c p seg stop h hline hseg hm (ih _ hlt stop rfl)
          | absent =>
              rw [hseg] at hm
              exact noSegment c p h (.inr (segment_eq_absent_iff.1 hseg)) hm
          | cut seg =>
              rw [hseg] at hm
              exact cut c p seg h hseg hm
          | stray q =>
              rw [hseg] at hm
              exact stray c p q h hline hseg hm
      · exact last c hhash (moreSegments_end hhash)

/-- Where no segment begins, there is the empty value. -/
theorem value_noSegment (h : c.skipBlank.atLineBlock = true ∨ c.skipBlank.NoSegment) :
    c.value = .read [] c.skipBlank := by
  unfold value
  dsimp only
  obtain h | h := h
  · rw [if_pos h]
  · rw [segment_eq_absent_iff.2 h, ite_self]

/-- A value begins with its first segment. -/
theorem value_segment (h : c.skipBlank.atLineBlock = false) :
    c.value = match c.skipBlank.segment with
      | .read seg stop => stop.moreSegments.cons seg
      | .absent => .read [] c.skipBlank
      | .cut seg => .cut [seg]
      | .stray place => .malformed .strayBrace place := by
  unfold value
  dsimp only
  exact if_neg (by simp [h])

/-! ## separators -/

section

variable {d : Delimiter}

theorem separator_comma (close : Char) (h : c.CharAt ',' p) : c.separator close = .comma p := by
  obtain ⟨s, hs, rfl⟩ := h
  unfold separator
  dsimp only
  rw [hs]
  dsimp only
  rw [if_pos rfl]

theorem separator_closing (h : c.CharAt d.closing p) : c.separator d.closing = .closing p := by
  obtain ⟨s, hs, rfl⟩ := h
  unfold separator
  dsimp only
  rw [hs]
  dsimp only
  rw [if_neg d.closing_ne_comma, if_pos rfl]

theorem separator_ended (h : c.skipBlank.Ended) : c.separator d.closing = .ended c.skipBlank := by
  unfold separator
  dsimp only
  split
  · rfl
  · next x r hs =>
    obtain h | h := h
    · simp [hs] at h
    · obtain rfl : x = '@' := by simpa [hs] using (atLineBlock_iff.1 h).2
      rw [if_neg (by decide), if_neg d.closing_ne_at.symm, if_pos h]

theorem separator_missing (h : c.skipBlank.Other d) :
    c.separator d.closing = .missing c.skipBlank := by
  obtain ⟨hline, x, s, hs, hcomma, hclose⟩ := h
  unfold separator
  dsimp only
  rw [hs]
  dsimp only
  rw [if_neg hcomma, if_neg hclose, if_neg (by simp [hline])]

/-- There are four separators, and one of them stands after the blanks. -/
theorem separator_cases (d : Delimiter) (c : Cursor) :
    (∃ p, c.CharAt ',' p) ∨ (∃ p, c.CharAt d.closing p) ∨ c.skipBlank.Ended ∨
      c.skipBlank.Other d := by
  cases hs : c.skipBlank.after with
  | nil => exact .inr (.inr (.inl (.inl hs)))
  | cons x s =>
      by_cases hcomma : x = ','
      · subst hcomma
        exact .inl ⟨_, s, hs, rfl⟩
      by_cases hclose : x = d.closing
      · subst hclose
        exact .inr (.inl ⟨_, s, hs, rfl⟩)
      by_cases hline : c.skipBlank.atLineBlock = true
      · exact .inr (.inr (.inl (.inr hline)))
      · exact .inr (.inr (.inr ⟨by simpa using hline, x, s, hs, hcomma, hclose⟩))

end

/-! ## fields -/

/-- A field name and its equals sign stand here; `p` is the place after them. -/
structure NameAt (c : Cursor) (name : Text) (p : Cursor) : Prop where
  line : c.skipBlank.atLineBlock = false
  ne_nil : name ≠ []
  name : c.skipBlank.after.takeWhile Scan.isKeyChar = name
  equals : (c.skipBlank.skip Scan.isKeyChar).CharAt '=' p

theorem NameAt.leads {name : Text} (h : c.NameAt name p) : c.Leads p :=
  (leads_skipBlank c).trans ((leads_skip _ _).trans h.equals.leads)

/-- Read the value of a field, and the fields after it. -/
def valueAndFields (close : Char) (name : Text) (c : Cursor) : FieldsRead :=
  match c.value with
  | .malformed m place => .malformed m place
  | .cut v => .unclosed [⟨name, v⟩] c.atEnd
  | .read v stop =>
    match stop.separator close with
    | .comma next => (next.fields close).cons ⟨name, v⟩
    | .closing stop => .closed [⟨name, v⟩] stop
    | .ended place => .unclosed [⟨name, v⟩] place
    | .missing place => .malformed .commaAfterValue place

theorem leads_valueAndFields (close : Char) (name : Text) (c : Cursor) :
    c.Leads (c.valueAndFields close name).place := by
  unfold valueAndFields
  split
  · next hv => exact leads_of_value_malformed hv
  · exact leads_atEnd c
  · next v stop hv =>
    have hsep := leads_separator close stop
    refine (leads_of_value_read hv).trans ?_
    split
    · next next hs =>
      rw [FieldsRead.place_cons]
      exact (leads_of_separator_comma hs).1.trans (leads_fields close next)
    all_goals
      next hs =>
        rw [hs] at hsep
        exact hsep

theorem exists_of_takeWhile_ne_nil {q : Char → Bool} {s : Text} (h : s.takeWhile q ≠ []) :
    ∃ x r, s = x :: r ∧ q x = true := by
  cases s with
  | nil => contradiction
  | cons x r =>
      by_cases hx : q x = true
      · exact ⟨x, r, rfl, hx⟩
      · rw [List.takeWhile_cons_of_neg hx] at h
        contradiction

section

variable {d : Delimiter}

/-- Fields end at the closing bracket. -/
theorem fields_close (h : c.CharAt d.closing p) : c.fields d.closing = .closed [] p := by
  obtain ⟨s, hs, rfl⟩ := h
  rw [fields]
  split
  · next hs' => simp [hs] at hs'
  · next x r hs' =>
    obtain ⟨rfl, rfl⟩ := List.cons.inj (hs.symm.trans hs')
    rw [if_pos rfl]

/-- A comma before a field does not count. -/
theorem fields_comma (h : c.CharAt ',' p) : c.fields d.closing = p.fields d.closing := by
  obtain ⟨s, hs, rfl⟩ := h
  rw [fields]
  split
  · next hs' => simp [hs] at hs'
  · next x r hs' =>
    obtain ⟨rfl, rfl⟩ := List.cons.inj (hs.symm.trans hs')
    rw [if_neg d.closing_ne_comma.symm, if_pos rfl]

/-- Fields end without a closing bracket where the text or the line does. -/
theorem fields_ended (h : c.skipBlank.Ended) : c.fields d.closing = .unclosed [] c.skipBlank := by
  rw [fields]
  split
  · rfl
  · next x r hs =>
    obtain h | h := h
    · simp [hs] at h
    · obtain rfl : x = '@' := by simpa [hs] using (atLineBlock_iff.1 h).2
      rw [if_neg d.closing_ne_at.symm, if_neg (by decide), if_pos h]

/-- Anything else that is no name is malformed. -/
theorem fields_noName (h : c.skipBlank.Other d)
    (hname : Text.Stops Scan.isKeyChar c.skipBlank.after) :
    c.fields d.closing = .malformed .fieldName c.skipBlank := by
  obtain ⟨hline, x, s, hs, hcomma, hclose⟩ := h
  rw [fields]
  split
  · next hs' => simp [hs] at hs'
  · next y r hs' =>
    obtain ⟨rfl, rfl⟩ := List.cons.inj (hs.symm.trans hs')
    rw [if_neg hclose, if_neg hcomma, if_neg (by simp [hline])]
    dsimp only
    rw [if_pos hname.takeWhile_eq]

/-- A name without an equals sign is malformed. -/
theorem fields_noEquals (hline : c.skipBlank.atLineBlock = false)
    (hname : c.skipBlank.after.takeWhile Scan.isKeyChar ≠ [])
    (hequals : (c.skipBlank.skip Scan.isKeyChar).skipBlank.after.head? ≠ some '=') :
    c.fields d.closing =
      .malformed .equalsAfterName (c.skipBlank.skip Scan.isKeyChar).skipBlank := by
  obtain ⟨x, r, hs, hx⟩ := exists_of_takeWhile_ne_nil hname
  rw [fields]
  split
  · next hs' => simp [hs] at hs'
  · next y t hs' =>
    obtain ⟨rfl, rfl⟩ := List.cons.inj (hs.symm.trans hs')
    rw [if_neg (by rintro rfl; simp [d.isKeyChar_closing] at hx),
      if_neg (by rintro rfl; exact absurd hx (by decide)), if_neg (by simp [hline])]
    dsimp only
    rw [if_neg hname]
    split
    · next r' hr' => simp [hr'] at hequals
    · rfl

/-- A field is read, and the fields after it. -/
theorem fields_name {name : Text} (h : c.NameAt name p) :
    c.fields d.closing = p.valueAndFields d.closing name := by
  obtain ⟨hline, hne, rfl, r, hr, rfl⟩ := h
  obtain ⟨x, s, hs, hx⟩ := exists_of_takeWhile_ne_nil hne
  rw [fields]
  split
  · next hs' => simp [hs] at hs'
  · next y t hs' =>
    obtain ⟨rfl, rfl⟩ := List.cons.inj (hs.symm.trans hs')
    rw [if_neg (by rintro rfl; simp [d.isKeyChar_closing] at hx),
      if_neg (by rintro rfl; exact absurd hx (by decide)), if_neg (by simp [hline])]
    dsimp only
    rw [if_neg hne]
    split
    · next r' hr' =>
      obtain ⟨-, rfl⟩ := List.cons.inj (hr.symm.trans hr')
      unfold valueAndFields
      split
      · next hv => rw [hv]
      · next hv =>
        rw [hv]
        simp [atEnd, past, hr]
      · next hv =>
        rw [hv]
        dsimp only
        split <;> next hsep => rw [hsep]
    · next hne' => exact absurd hr (hne' r)

/-- There are six ways in which fields go on, one for each of the equations. -/
theorem fields_cases (d : Delimiter) (c : Cursor) :
    (∃ p, c.CharAt d.closing p) ∨ (∃ p, c.CharAt ',' p) ∨ c.skipBlank.Ended ∨
      (c.skipBlank.Other d ∧ Text.Stops Scan.isKeyChar c.skipBlank.after) ∨
      (c.skipBlank.atLineBlock = false ∧ c.skipBlank.after.takeWhile Scan.isKeyChar ≠ [] ∧
        (c.skipBlank.skip Scan.isKeyChar).skipBlank.after.head? ≠ some '=') ∨
      ∃ name p, c.NameAt name p := by
  obtain h | h | h | h := separator_cases d c
  · exact .inr (.inl h)
  · exact .inl h
  · exact .inr (.inr (.inl h))
  · by_cases hname : c.skipBlank.after.takeWhile Scan.isKeyChar = []
    · exact .inr (.inr (.inr (.inl ⟨h, Text.takeWhile_eq_nil_iff.1 hname⟩)))
    · cases hs : (c.skipBlank.skip Scan.isKeyChar).skipBlank.after with
      | nil => exact .inr (.inr (.inr (.inr (.inl ⟨h.1, hname, by simp⟩))))
      | cons x s =>
          by_cases hx : x = '='
          · subst hx
            exact .inr (.inr (.inr (.inr (.inr ⟨_, _, h.1, hname, rfl, s, hs, rfl⟩))))
          · exact .inr (.inr (.inr (.inr (.inl ⟨h.1, hname, by simpa using hx⟩))))

/-- **Induction over fields**, by the ways in which they go on.  Each case has
the equation of what is read. -/
theorem fields_induction {P : Cursor → Prop}
    (close : ∀ (c p : Cursor), c.CharAt d.closing p → c.fields d.closing = .closed [] p → P c)
    (comma : ∀ (c p : Cursor), c.CharAt ',' p → c.fields d.closing = p.fields d.closing → P p → P c)
    (ended : ∀ c : Cursor, c.skipBlank.Ended → c.fields d.closing = .unclosed [] c.skipBlank → P c)
    (noName : ∀ c : Cursor, c.skipBlank.Other d → Text.Stops Scan.isKeyChar c.skipBlank.after →
      c.fields d.closing = .malformed .fieldName c.skipBlank → P c)
    (noEquals : ∀ c : Cursor, c.skipBlank.atLineBlock = false →
      c.skipBlank.after.takeWhile Scan.isKeyChar ≠ [] →
      (c.skipBlank.skip Scan.isKeyChar).skipBlank.after.head? ≠ some '=' →
      c.fields d.closing =
        .malformed .equalsAfterName (c.skipBlank.skip Scan.isKeyChar).skipBlank → P c)
    (malformed : ∀ (c : Cursor) name q m p, c.NameAt name q → q.value = .malformed m p →
      c.fields d.closing = .malformed m p → P c)
    (cut : ∀ (c : Cursor) name q v, c.NameAt name q → q.value = .cut v →
      c.fields d.closing = .unclosed [⟨name, v⟩] q.atEnd → P c)
    (field : ∀ (c : Cursor) name q v stop p, c.NameAt name q → q.value = .read v stop →
      stop.CharAt ',' p → c.fields d.closing = (p.fields d.closing).cons ⟨name, v⟩ → P p → P c)
    (last : ∀ (c : Cursor) name q v stop p, c.NameAt name q → q.value = .read v stop →
      stop.CharAt d.closing p → c.fields d.closing = .closed [⟨name, v⟩] p → P c)
    (unclosed : ∀ (c : Cursor) name q v stop, c.NameAt name q → q.value = .read v stop →
      stop.skipBlank.Ended → c.fields d.closing = .unclosed [⟨name, v⟩] stop.skipBlank → P c)
    (missing : ∀ (c : Cursor) name q v stop, c.NameAt name q → q.value = .read v stop →
      stop.skipBlank.Other d →
      c.fields d.closing = .malformed .commaAfterValue stop.skipBlank → P c)
    (c : Cursor) : P c := by
  induction hn : c.after.length using Nat.strongRecOn generalizing c with
  | ind n ih =>
      subst hn
      obtain ⟨p, h⟩ | ⟨p, h⟩ | h | ⟨h, hname⟩ | ⟨hline, hname, hequals⟩ | ⟨name, q, h⟩ :=
        fields_cases d c
      · exact close c p h (fields_close h)
      · exact comma c p h (fields_comma h) (ih _ h.length_lt p rfl)
      · exact ended c h (fields_ended h)
      · exact noName c h hname (fields_noName h hname)
      · exact noEquals c hline hname hequals (fields_noEquals hline hname hequals)
      · have hf := fields_name (d := d) h
        unfold valueAndFields at hf
        cases hv : q.value with
        | malformed m p =>
            rw [hv] at hf
            exact malformed c name q m p h hv hf
        | cut v =>
            rw [hv] at hf
            exact cut c name q v h hv hf
        | read v stop =>
            rw [hv] at hf
            dsimp only at hf
            obtain ⟨p, hp⟩ | ⟨p, hp⟩ | hp | hp := separator_cases d stop
            · rw [separator_comma _ hp] at hf
              have hlt : p.after.length < c.after.length :=
                Nat.lt_of_lt_of_le hp.length_lt
                  (h.leads.trans (leads_of_value_read hv)).length_le
              exact field c name q v stop p h hv hp hf (ih _ hlt p rfl)
            · rw [separator_closing hp] at hf
              exact last c name q v stop p h hv hp hf
            · rw [separator_ended hp] at hf
              exact unclosed c name q v stop h hv hp hf
            · rw [separator_missing hp] at hf
              exact missing c name q v stop h hv hp hf

/-- Blanks before fields do not count. -/
@[simp] theorem fields_skipBlank (close : Char) (c : Cursor) :
    c.skipBlank.fields close = c.fields close := by
  rw [fields.eq_def close c.skipBlank, fields.eq_def close c, skipBlank_skipBlank]

/-! ## entries -/

/-- A citation key stands here; `p` is the place after it. -/
structure KeyAt (c : Cursor) (key : Text) (p : Cursor) : Prop where
  line : c.skipBlank.atLineBlock = false
  ne_nil : key ≠ []
  key : c.skipBlank.after.takeWhile Scan.isKeyChar = key
  place : p = c.skipBlank.skip Scan.isKeyChar
  noEquals : p.skipBlank.after.head? ≠ some '='

/-- Read what follows a citation key. -/
def afterKey (close : Char) (key : Text) (c : Cursor) : EntryRead :=
  match c.separator close with
  | .comma next => (next.fields close).toEntry (some key)
  | .closing stop => .closed { key := some key } stop
  | .ended place => .unclosed { key := some key } place
  | .missing place => .malformed .commaAfterKey place

/-- There is no citation key where there is no name. -/
theorem not_keyAt_of_stops {key : Text} (h : Text.Stops Scan.isKeyChar c.skipBlank.after) :
    ¬ c.KeyAt key p :=
  fun hk => hk.ne_nil (hk.key.symm.trans h.takeWhile_eq)

/-- A name with an equals sign after it is no citation key. -/
theorem NameAt.not_keyAt {name key : Text} {q : Cursor} (h : c.NameAt name p) : ¬ c.KeyAt key q := by
  intro hk
  obtain ⟨s, hs, -⟩ := h.equals
  have hne := hk.noEquals
  rw [hk.place, hs] at hne
  exact hne rfl

/-- Where there is a citation key, fields are malformed. -/
theorem not_keyAt_of_fields {key : Text} {fs : List Field} {q : Cursor}
    (h : c.fields d.closing = .closed fs p) : ¬ c.KeyAt key q := by
  rintro ⟨hline, hne, rfl, rfl, hequals⟩
  rw [fields_noEquals hline hne hequals] at h
  cases h

theorem entry_key {key : Text} (h : c.KeyAt key p) :
    c.entry d.closing = p.afterKey d.closing key := by
  obtain ⟨hline, hne, rfl, rfl, heq⟩ := h
  unfold entry
  dsimp only
  rw [if_neg (by simp [hline]), if_neg hne, if_neg heq]
  rfl

/-- Without a citation key, an entry is its fields. -/
theorem entry_noKey (h : ∀ key p, ¬ c.KeyAt key p) :
    c.entry d.closing = (c.fields d.closing).toEntry none := by
  unfold entry
  dsimp only
  split
  · next hline =>
    rw [fields_ended (.inr hline)]
    rfl
  · next hline =>
    split
    · split
      · next s hs => rw [fields_comma ⟨s, hs, rfl⟩]
      · rw [fields_skipBlank]
    · next hname =>
      split
      · rw [fields_skipBlank]
      · next heq => exact absurd ⟨by simpa using hline, hname, rfl, rfl, heq⟩ (h _ _)

end

end Cursor

end Bibliography
