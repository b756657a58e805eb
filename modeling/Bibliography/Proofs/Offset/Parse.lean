import Bibliography.Offset.Parse
import Bibliography.Proofs.Offset.Scan
import Bibliography.Proofs.Parse.Cut
import Bibliography.Proofs.Parse.Reading

/-!
# Bibliography.Proofs.Offset.Parse

Reading by offsets is reading by cursors.  A cursor stands in the whole text after
the text in front of its block, and its offset counts both (`Cursor.StandsIn`,
`Cursor.offset`).  Every reader that goes from offset to offset finds what its
counterpart finds, with each place as its offset; so all its slices exist.

* `StandsIn.segment`, `StandsIn.value`, `StandsIn.separator`, `StandsIn.fields`,
  `StandsIn.entry` — the readers, from the segment to the entry.
-/

namespace Bibliography

/-! ## places -/

namespace Cursor

variable {s front t rest : Text} {c p : Cursor} {q : Char → Bool}

/-- The offset of a place in a text with `front` in front of the block. -/
def offset (front : Text) (c : Cursor) : Nat := Text.utf8Size (front ++ c.before.reverse)

/-- The place is in a text, after `front` and at least the first character of a block. -/
structure StandsIn (c : Cursor) (s front : Text) : Prop where
  text_eq : s = front ++ c.text
  before_ne : c.before ≠ []

theorem offset_past (front t rest : Text) (c : Cursor) :
    (c.past t rest).offset front = c.offset front + t.utf8Size := by
  simp [offset, past, Text.utf8Size_append, Nat.add_assoc]

namespace StandsIn

theorem eq_append (h : c.StandsIn s front) : s = (front ++ c.before.reverse) ++ c.after := by
  rw [h.text_eq, text, List.append_assoc]

theorem leads (h : c.StandsIn s front) (hl : c.Leads p) : p.StandsIn s front := by
  refine ⟨by rw [hl.text_eq, h.text_eq], ?_⟩
  obtain ⟨t, -, hbefore⟩ := hl
  rw [hbefore]
  exact List.append_ne_nil_of_right_ne_nil _ h.before_ne

theorem past (h : c.StandsIn s front) (ht : c.after = t ++ rest) :
    (c.past t rest).StandsIn s front := h.leads (leads_past ht)

theorem skipBlank (h : c.StandsIn s front) : c.skipBlank.StandsIn s front :=
  h.leads (leads_skipBlank c)

/-! ### what stands at a place -/

theorem octet? (h : c.StandsIn s front) :
    s.octets[c.offset front]? = c.after.head?.map Text.lead := by
  rw [h.eq_append]
  exact Offset.getElem?_size _ _

theorem octet?_eq_iff (h : c.StandsIn s front) {x : Char} (hx : x.toNat < 128) :
    s.octets[c.offset front]? = some x ↔ c.after.head? = some x := by
  rw [h.eq_append]
  exact Offset.getElem?_size_eq_iff hx

theorem length_eq (h : c.StandsIn s front) :
    s.octets.length = c.offset front + c.after.utf8Size := by
  rw [h.eq_append, Text.length_octets, Text.utf8Size_append]
  rfl

theorem offset_atEnd (h : c.StandsIn s front) : c.atEnd.offset front = s.octets.length := by
  rw [h.length_eq, atEnd, offset_past]

theorem offset_of_after (h : c.StandsIn s front) (hafter : c.after = []) :
    c.offset front = s.octets.length := by
  rw [h.length_eq, hafter]
  rfl

theorem offset_eq_length_iff (h : c.StandsIn s front) :
    c.offset front = s.octets.length ↔ c.after = [] := by
  refine ⟨fun heq => ?_, h.offset_of_after⟩
  cases hafter : c.after with
  | nil => rfl
  | cons x r =>
      have hpos := Char.utf8Size_pos x
      rw [h.length_eq, hafter, Text.utf8Size] at heq
      omega

/-- A place that is reached by passing something is further on. -/
theorem isOnward (h : c.StandsIn s front) (hl : c.Leads p)
    (hlt : p.after.length < c.after.length) :
    Offset.IsOnward s.octets.length (c.offset front) (p.offset front) := by
  have hle := (h.leads hl).length_eq
  obtain ⟨t, hafter, hbefore⟩ := hl
  have ht : t ≠ [] := by
    rintro rfl
    rw [hafter] at hlt
    exact absurd hlt (Nat.lt_irrefl _)
  have hpos := mt Text.utf8Size_eq_zero_iff.1 ht
  have hoffset : p.offset front = c.offset front + t.utf8Size := by
    rw [offset, hbefore, List.reverse_append, List.reverse_reverse, ← List.append_assoc,
      Text.utf8Size_append, offset]
  rw [Offset.IsOnward]
  omega

theorem slice? (h : c.StandsIn s front) (ht : c.after = t ++ rest) :
    Offset.slice? s (c.offset front) (c.offset front + t.utf8Size) = some t := by
  rw [h.eq_append, ht]
  exact Offset.slice?_append _ _ _

theorem sliceFrom? (h : c.StandsIn s front) :
    Offset.sliceFrom? s (c.offset front) = some c.after := by
  rw [h.eq_append]
  exact Offset.sliceFrom?_append _ _

theorem isLineBlock? (h : c.StandsIn s front) :
    Offset.isLineBlock? s.octets (c.offset front) = some c.atLineBlock := by
  obtain ⟨x, before, hbefore⟩ := List.exists_cons_of_ne_nil h.before_ne
  have hreverse : front ++ c.before.reverse = (front ++ before.reverse) ++ [x] := by
    rw [hbefore, List.reverse_cons, List.append_assoc]
  rw [h.eq_append, offset, hreverse, Offset.isLineBlock?_octets, atLineBlock, hbefore]
  simp

/-! ### scans from a place -/

theorem skip (h : c.StandsIn s front) (hq : Text.IsOctetClass q) :
    Offset.skip q s.octets (c.offset front) = (c.skip q).offset front := by
  rw [h.eq_append, Cursor.skip, offset_past]
  exact Offset.skip_octets hq _ _

theorem skipBlank_eq (h : c.StandsIn s front) :
    Offset.skipBlank s.octets (c.offset front) = c.skipBlank.offset front :=
  h.skip Text.isAsciiClass_isBlank.isOctetClass

/-- A run of a class is a slice. -/
theorem slice?_skip (h : c.StandsIn s front) (q : Char → Bool) :
    Offset.slice? s (c.offset front) ((c.skip q).offset front) = some (c.after.takeWhile q) := by
  rw [Cursor.skip, offset_past]
  exact h.slice? (List.takeWhile_append_dropWhile).symm

theorem balanced (h : c.StandsIn s front) (d : Delimiter) :
    Offset.balanced d.opening d.closing s.octets (c.offset front) =
      some ((Scan.balanced d.opening d.closing c.after).located (c.offset front)) := by
  rw [h.eq_append]
  exact Offset.balanced_octets d.toNat_opening_lt d.toNat_closing_lt _ _

theorem quoted (h : c.StandsIn s front) :
    Offset.quoted s.octets (c.offset front) =
      some ((Scan.quoted c.after).located (c.offset front)) := by
  rw [h.eq_append]
  exact Offset.quoted_octets _ _

theorem payload (h : c.StandsIn s front) (d : Delimiter) :
    Offset.payload d.closing s.octets (c.offset front) =
      some ((Scan.payload d c.after).located s.octets.length (c.offset front)) := by
  rw [Text.length_octets, h.eq_append]
  exact Offset.payload_octets d _ _

theorem lineBlock? (h : c.StandsIn s front) :
    Offset.lineBlock? s.octets (c.offset front) = some (c.toLineBlock.offset front) := by
  rw [toLineBlock, offset_past, h.eq_append]
  exact Offset.lineBlock?_octets _ _

end StandsIn

end Cursor

/-! ## segments -/

/-- A segment that was read, with its places as offsets. -/
def SegmentRead.located (front : Text) : SegmentRead → Offset.SegmentFound
  | read seg stop => .read seg (stop.offset front)
  | absent => .absent
  | cut seg => .cut seg
  | stray place => .malformed ⟨place.offset front, .strayBrace⟩

namespace Cursor.StandsIn

variable {s front : Text} {c p : Cursor} {d : Delimiter}

theorem offset_past_ascii {x : Char} (hx : x.toNat < 128) (r : Text) :
    (c.past [x] r).offset front = c.offset front + 1 := by
  rw [offset_past, Text.utf8Size, Text.utf8Size_of_ascii hx]
  rfl

/-- The place after a text and the two characters around it. -/
theorem offset_past_enclosed {x y : Char} (hx : x.toNat < 128) (hy : y.toNat < 128)
    (t rest : Text) :
    (c.past (x :: t ++ [y]) rest).offset front = c.offset front + 1 + t.utf8Size + 1 := by
  rw [offset_past, Text.utf8Size_append, Text.utf8Size, Text.utf8Size, Text.utf8Size,
    Text.utf8Size_of_ascii hx, Text.utf8Size_of_ascii hy]
  omega

theorem segment_braced (h : c.StandsIn s front) (d : Delimiter) {r : Text}
    (hafter : c.after = '{' :: r) :
    Offset.segment s d.closing (c.offset front) = some (c.segment.located front) := by
  have hinside : (c.past ['{'] r).StandsIn s front := h.past (by rw [hafter]; rfl)
  have hstart : (c.past ['{'] r).offset front = c.offset front + 1 :=
    offset_past_ascii (by decide) r
  have hscan : Offset.balanced '{' '}' _ _ = _ := hinside.balanced .brace
  have hrest := hinside.sliceFrom?
  rw [after_past, hstart] at hscan hrest
  rw [Offset.segment, h.octet?, hafter, Cursor.segment_braced hafter]
  simp only [List.head?_cons, Option.map_some, if_pos (show Text.lead '{' = '{' by decide), hscan,
    hrest, Option.bind_eq_bind, Option.bind_some, Delimiter.opening, Delimiter.closing]
  cases hr : Scan.balanced '{' '}' r with
  | closed t rest =>
      have hslice := hinside.slice? (Scan.eq_of_balanced_closed hr)
      rw [hstart] at hslice
      simp only [Scan.Closing.located, hslice, Option.bind_some]
      rw [SegmentRead.located, offset_past_enclosed (by decide) (by decide)]
      rfl
  | stray t rest => rfl
  | unclosed depth => rfl

theorem segment_quoted (h : c.StandsIn s front) (d : Delimiter) {r : Text}
    (hafter : c.after = '"' :: r) :
    Offset.segment s d.closing (c.offset front) = some (c.segment.located front) := by
  have hinside : (c.past ['"'] r).StandsIn s front := h.past (by rw [hafter]; rfl)
  have hstart : (c.past ['"'] r).offset front = c.offset front + 1 :=
    offset_past_ascii (by decide) r
  have hscan := hinside.quoted
  have hrest := hinside.sliceFrom?
  rw [after_past, hstart] at hscan hrest
  rw [Offset.segment, h.octet?, hafter, Cursor.segment_quoted hafter]
  simp only [List.head?_cons, Option.map_some, if_neg (show Text.lead '"' ≠ '{' by decide),
    if_pos (show Text.lead '"' = '"' by decide), hscan, hrest, Option.bind_eq_bind,
    Option.bind_some]
  cases hr : Scan.quoted r with
  | closed t rest =>
      have hslice := hinside.slice? (Scan.eq_of_quoted_closed hr)
      rw [hstart] at hslice
      simp only [Scan.Closing.located, hslice, Option.bind_some]
      rw [SegmentRead.located, offset_past_enclosed (by decide) (by decide)]
      rfl
  | stray t rest =>
      simp only [Scan.Closing.located, SegmentRead.located]
      rw [offset_past, Text.utf8Size, Text.utf8Size_of_ascii (by decide), Nat.add_assoc]
      rfl
  | unclosed depth => rfl

theorem segment_bare (h : c.StandsIn s front) (d : Delimiter) {x : Char} {r : Text}
    (hafter : c.after = x :: r) (hbrace : x ≠ '{') (hmark : x ≠ '"') :
    Offset.segment s d.closing (c.offset front) = some (c.segment.located front) := by
  have hstop := h.skip Text.isOctetClass_isLiteralChar
  have hslice := h.slice? (List.takeWhile_append_dropWhile (p := Scan.isLiteralChar)).symm
  have hbare := Cursor.segment_bare (c := c) (by simp [hafter, hbrace]) (by simp [hafter, hmark])
  rw [Cursor.skip, offset_past] at hstop
  rw [Offset.segment, h.octet?, hafter, hbare]
  simp only [List.head?_cons, Option.map_some, Text.lead_eq_iff (c := x) (x := '{') (by decide),
    Text.lead_eq_iff (c := x) (x := '"') (by decide), Text.lead_eq_iff d.toNat_closing_lt,
    if_neg hbrace, if_neg hmark, hstop]
  by_cases hclose : x = d.closing
  · have hstops : c.after.takeWhile Scan.isLiteralChar = [] := by
      rw [hafter, List.takeWhile_cons_of_neg]
      rw [hclose, d.isLiteralChar_closing]
      decide
    rw [if_pos hclose, hstops]
    rfl
  · rw [if_neg hclose]
    cases hw : c.after.takeWhile Scan.isLiteralChar with
    | nil => simp [Text.utf8Size, SegmentRead.located]
    | cons y w =>
        rw [hw] at hslice
        have hpos := Char.utf8Size_pos y
        rw [if_neg (by rw [Text.utf8Size]; omega), hslice]
        simp only [Option.bind_eq_bind, Option.bind_some, SegmentRead.located, offset_past]
        rfl

/-- **A segment** is found where it is read. -/
theorem segment (h : c.StandsIn s front) (d : Delimiter) :
    Offset.segment s d.closing (c.offset front) = some (c.segment.located front) := by
  cases hafter : c.after with
  | nil =>
      have habsent : c.segment = .absent := segment_eq_absent_iff.2 (by simp [NoSegment, hafter])
      rw [Offset.segment, h.octet?, hafter, habsent]
      rfl
  | cons x r =>
      by_cases hbrace : x = '{'
      · exact h.segment_braced d (hbrace ▸ hafter)
      · by_cases hmark : x = '"'
        · exact h.segment_quoted d (hmark ▸ hafter)
        · exact h.segment_bare d hafter hbrace hmark

end Cursor.StandsIn

/-! ## values -/

/-- A value that was read after the segments of `v`, with its places as offsets. -/
def ValueRead.located (s front : Text) (v : Value) :
    ValueRead → Except Offset.Malformed Offset.ValueFound
  | read w stop => .ok ⟨stop.offset front, v ++ w, true⟩
  | cut w => .ok ⟨s.octets.length, v ++ w, false⟩
  | malformed reason place => .error ⟨place.offset front, reason⟩

theorem ValueRead.located_cons (s front : Text) (v : Value) (seg : Segment) (r : ValueRead) :
    (r.cons seg).located s front v = r.located s front (v ++ [seg]) := by
  cases r <;> simp [cons, located]

namespace Cursor.StandsIn

variable {s front : Text} {c p : Cursor} {d : Delimiter}

/-- The place after the blanks that follow a character. -/
theorem charAt (h : c.StandsIn s front) {x : Char} (hx : x.toNat < 128) (hp : c.CharAt x p) :
    p.StandsIn s front ∧ c.skipBlank.after.head? = some x ∧
      c.skipBlank.offset front + 1 = p.offset front := by
  obtain ⟨r, hr, rfl⟩ := hp
  exact ⟨h.skipBlank.past (by rw [hr]; rfl), by rw [hr]; rfl, (offset_past_ascii hx r).symm⟩

/-- A loop over segments, at a place where the next one would begin. -/
theorem valueLoop (h : c.StandsIn s front) (d : Delimiter) (v : Value) :
    Offset.valueLoop s d.closing v (c.offset front) =
      if c.atLineBlock then some (Offset.withoutSegment v (c.offset front))
      else match c.segment with
        | .absent => some (Offset.withoutSegment v (c.offset front))
        | .cut seg => some (.ok ⟨s.octets.length, v ++ [seg], false⟩)
        | .stray place => some (.error ⟨place.offset front, .strayBrace⟩)
        | .read seg stop =>
          if stop.skipBlank.after.head? = some '#' then
            Offset.valueLoop s d.closing (v ++ [seg])
              (Offset.skipBlank s.octets (stop.skipBlank.offset front + 1))
          else some (.ok ⟨stop.offset front, v ++ [seg], true⟩) := by
  rw [Offset.valueLoop, h.isLineBlock?, h.segment d]
  simp only [Option.bind_eq_bind, Option.bind_some]
  split
  · rfl
  · cases hseg : c.segment with
    | absent => rfl
    | cut seg => rfl
    | stray place => rfl
    | read seg stop =>
        have hstop := h.leads (leads_of_segment_read hseg)
        simp only [SegmentRead.located, hstop.skipBlank_eq,
          hstop.skipBlank.octet?_eq_iff (x := '#') (by decide)]
        split
        · next hhash =>
          obtain ⟨r, hr⟩ := List.head?_eq_some_iff.1 hhash
          have hp : stop.CharAt '#' (stop.skipBlank.past ['#'] r) := ⟨r, hr, rfl⟩
          obtain ⟨hstands, -, hoffset⟩ := hstop.charAt (by decide) hp
          have hl := (leads_of_segment_read hseg).trans (hp.leads.trans (leads_skipBlank _))
          have hlt := Nat.lt_of_le_of_lt (leads_skipBlank _).length_le
            (Nat.lt_of_lt_of_le hp.length_lt (leads_of_segment_read hseg).length_le)
          rw [hoffset, hstands.skipBlank_eq, dif_pos (h.isOnward hl hlt)]
        · rfl

/-- **The segments after a first one** are found where they are read. -/
theorem moreSegments (h : c.StandsIn s front) (d : Delimiter) {v : Value} (hv : v ≠ []) :
    (if c.skipBlank.after.head? = some '#' then
      Offset.valueLoop s d.closing v (Offset.skipBlank s.octets (c.skipBlank.offset front + 1))
    else some (.ok ⟨c.offset front, v, true⟩)) = some (c.moreSegments.located s front v) := by
  have hash {c p : Cursor} (h : c.StandsIn s front) (hp : c.CharAt '#' p) (v : Value) :
      (if c.skipBlank.after.head? = some '#' then
        Offset.valueLoop s d.closing v (Offset.skipBlank s.octets (c.skipBlank.offset front + 1))
      else some (.ok ⟨c.offset front, v, true⟩)) =
        Offset.valueLoop s d.closing v (p.skipBlank.offset front) := by
    obtain ⟨hstands, hhead, hoffset⟩ := h.charAt (by decide) hp
    rw [if_pos hhead, hoffset, hstands.skipBlank_eq]
  induction c using moreSegments_induction generalizing v with
  | last c hhash hm => rw [if_neg hhash, hm, ValueRead.located, List.append_nil]
  | noSegment c p hp hnone hm =>
      obtain ⟨hstands, -, -⟩ := h.charAt (by decide) hp
      have hwithout (pos : Nat) :
          Offset.withoutSegment v pos = .error ⟨pos, .segmentAfterHash⟩ := if_neg hv
      rw [hash h hp, hstands.skipBlank.valueLoop, hm, ValueRead.located, hwithout]
      obtain hline | hnone := hnone
      · rw [if_pos hline]
      · rw [segment_eq_absent_iff.2 hnone, ite_self]
  | cut c p seg hp hseg hm =>
      obtain ⟨hstands, -, -⟩ := h.charAt (by decide) hp
      have hline : ¬ p.skipBlank.atLineBlock = true := by
        intro hline
        rw [moreSegments_noSegment hp (.inl hline)] at hm
        cases hm
      rw [hash h hp, hstands.skipBlank.valueLoop, if_neg hline, hseg, hm]
      rfl
  | stray c p q hp hline hseg hm =>
      obtain ⟨hstands, -, -⟩ := h.charAt (by decide) hp
      rw [hash h hp, hstands.skipBlank.valueLoop, if_neg (by simp [hline]), hseg, hm]
      rfl
  | more c p seg stop hp hline hseg hm ih =>
      obtain ⟨hstands, -, -⟩ := h.charAt (by decide) hp
      have hstop := hstands.skipBlank.leads (leads_of_segment_read hseg)
      rw [hash h hp, hstands.skipBlank.valueLoop, if_neg (by simp [hline]), hseg, hm,
        ValueRead.located_cons]
      exact ih hstop (by simp)

/-- **A value** is found where it is read. -/
theorem value (h : c.StandsIn s front) (d : Delimiter) :
    Offset.value s d.closing (c.offset front) = some (c.value.located s front []) := by
  rw [Offset.value, h.skipBlank_eq, h.skipBlank.valueLoop]
  by_cases hline : c.skipBlank.atLineBlock = true
  · rw [if_pos hline, value_noSegment (.inl hline)]
    rfl
  · rw [if_neg hline, value_segment (by simpa using hline)]
    cases hseg : c.skipBlank.segment with
    | absent => rfl
    | cut seg => rfl
    | stray place => rfl
    | read seg stop =>
        have hstop := h.skipBlank.leads (leads_of_segment_read hseg)
        rw [ValueRead.located_cons]
        exact hstop.moreSegments d (by simp)

end Cursor.StandsIn

/-! ## separators -/

/-- A separator, with its place as an offset. -/
def Separator.located (front : Text) : Separator → Offset.SeparatorFound
  | comma stop => .comma (stop.offset front)
  | closing stop => .closing (stop.offset front)
  | ended place => .ended (place.offset front)
  | missing place => .missing (place.offset front)

namespace Cursor.StandsIn

variable {s front : Text} {c p : Cursor} {d : Delimiter}

/-- The octet of a character that stands after blanks. -/
theorem octet?_charAt (h : c.StandsIn s front) {x : Char} (hx : x.toNat < 128)
    (hp : c.CharAt x p) : s.octets[c.skipBlank.offset front]? = some x :=
  (h.skipBlank.octet?_eq_iff hx).2 (h.charAt hx hp).2.1

/-- The octet of an `@` at the start of a line. -/
theorem octet?_atLineBlock (h : c.StandsIn s front) (hline : c.atLineBlock = true) :
    s.octets[c.offset front]? = some '@' :=
  (h.octet?_eq_iff (by decide)).2 (atLineBlock_iff.1 hline).2

/-- **A separator** is found where it is read. -/
theorem separator (h : c.StandsIn s front) (d : Delimiter) :
    Offset.separator s.octets d.closing (c.offset front) =
      some ((c.separator d.closing).located front) := by
  have hblank := h.skipBlank
  rw [Offset.separator, h.skipBlank_eq]
  obtain ⟨p, hp⟩ | ⟨p, hp⟩ | (hnil | hline) | hother := separator_cases d c
  · rw [separator_comma _ hp, h.octet?_charAt (by decide) hp, Separator.located,
      ← (h.charAt (by decide) hp).2.2]
    rfl
  · rw [separator_closing hp, h.octet?_charAt d.toNat_closing_lt hp, Separator.located,
      ← (h.charAt d.toNat_closing_lt hp).2.2]
    simp only [if_neg d.closing_ne_comma, if_true]
  · rw [separator_ended (.inl hnil), hblank.octet?, hnil, Separator.located,
      hblank.offset_of_after hnil]
    rfl
  · rw [separator_ended (.inr hline), hblank.octet?_atLineBlock hline, hblank.isLineBlock?, hline]
    simp only [if_neg (show '@' ≠ ',' by decide), if_neg d.closing_ne_at.symm]
    rfl
  · obtain ⟨hline, x, r, hr, hcomma, hclose⟩ := hother
    rw [separator_missing ⟨hline, x, r, hr, hcomma, hclose⟩, hblank.octet?, hr, hblank.isLineBlock?,
      hline]
    simp only [List.head?_cons, Option.map_some, Text.lead_eq_iff (c := x) (x := ',') (by decide),
      Text.lead_eq_iff d.toNat_closing_lt, if_neg hcomma, if_neg hclose]
    rfl

end Cursor.StandsIn

/-! ## fields -/

/-- Fields that were read after those of `e`, with their places as offsets. -/
def FieldsRead.located (s front : Text) (e : Entry) :
    FieldsRead → Except Offset.Malformed Offset.EntryFound
  | closed fs stop => .ok ⟨stop.offset front, { e with fields := e.fields ++ fs }, []⟩
  | unclosed fs place =>
    .ok (Offset.unclosed s (place.offset front) { e with fields := e.fields ++ fs })
  | malformed reason place => .error ⟨place.offset front, reason⟩

theorem FieldsRead.located_cons (s front : Text) (e : Entry) (f : Field) (r : FieldsRead) :
    (r.cons f).located s front e =
      r.located s front { e with fields := e.fields ++ [f] } := by
  cases r <;> simp [cons, located]

namespace Cursor.StandsIn

variable {s front : Text} {c p : Cursor} {d : Delimiter}

/-- What follows an item is found where it is read. -/
theorem afterItem (h : c.StandsIn s front) (d : Delimiter) (e : Entry) (reason : Malformation) :
    Offset.afterItem s d.closing e reason (c.offset front) =
      some (match c.separator d.closing with
        | .comma stop => .more e (stop.offset front)
        | .closing stop => .done (.ok ⟨stop.offset front, e, []⟩)
        | .ended place => .done (.ok (Offset.unclosed s (place.offset front) e))
        | .missing place => .done (.error ⟨place.offset front, reason⟩)) := by
  rw [Offset.afterItem, h.separator]
  cases c.separator d.closing <;> rfl

/-- The end of a run of name characters is where the run began, if there is no such character. -/
theorem offset_skip_eq_iff (front : Text) {q : Char → Bool} :
    (c.skip q).offset front = c.offset front ↔ c.after.takeWhile q = [] := by
  rw [Cursor.skip, offset_past]
  cases c.after.takeWhile q with
  | nil => simp [Text.utf8Size]
  | cons x w =>
      have hpos := Char.utf8Size_pos x
      simp only [Text.utf8Size, reduceCtorEq, iff_false]
      omega

/-- A field name is found where one stands. -/
theorem fieldName (h : c.StandsIn s front) :
    Offset.fieldName s (c.offset front) =
      some (if c.after.takeWhile Scan.isKeyChar = [] then .error ⟨c.offset front, .fieldName⟩
        else if (c.skip Scan.isKeyChar).skipBlank.after.head? = some '=' then
          .ok (c.after.takeWhile Scan.isKeyChar,
            (c.skip Scan.isKeyChar).skipBlank.offset front + 1)
        else .error ⟨(c.skip Scan.isKeyChar).skipBlank.offset front, .equalsAfterName⟩) := by
  have hend := h.leads (leads_skip Scan.isKeyChar c)
  rw [Offset.fieldName, h.skip Text.isOctetClass_isKeyChar, hend.skipBlank_eq]
  simp only [offset_skip_eq_iff, hend.skipBlank.octet?_eq_iff (x := '=') (by decide)]
  split
  · rfl
  · split
    · rw [h.slice?_skip]
      rfl
    · rfl

/-- A field is looked for where nothing ends the entry and no comma stands. -/
theorem fieldsStep_other (h : c.StandsIn s front) (hother : c.skipBlank.Other d) (e : Entry) :
    Offset.fieldsStep s d.closing e (c.offset front) =
      Offset.field s d.closing e (c.skipBlank.offset front) := by
  obtain ⟨hline, x, r, hr, hcomma, hclose⟩ := hother
  rw [Offset.fieldsStep, h.skipBlank_eq, h.skipBlank.octet?, hr, h.skipBlank.isLineBlock?, hline]
  simp only [List.head?_cons, Option.map_some, Text.lead_eq_iff (c := x) (x := ',') (by decide),
    Text.lead_eq_iff d.toNat_closing_lt, if_neg hcomma, if_neg hclose]
  rfl

/-- Where a name stands, nothing ends the entry. -/
theorem other_of_name (hline : c.skipBlank.atLineBlock = false)
    (hname : c.skipBlank.after.takeWhile Scan.isKeyChar ≠ []) : c.skipBlank.Other d := by
  obtain ⟨x, r, hr, hx⟩ := exists_of_takeWhile_ne_nil hname
  refine ⟨hline, x, r, hr, ?_, ?_⟩
  · rintro rfl
    exact absurd hx (by decide)
  · rintro rfl
    exact absurd hx (by simp [d.isKeyChar_closing])

/-- Where a name and its equals sign stand, the value decides how the reading goes on. -/
theorem fieldsStep_name (h : c.StandsIn s front) {name : Text} (hp : c.NameAt name p) (e : Entry) :
    Offset.fieldsStep s d.closing e (c.offset front) =
      match p.value with
      | .malformed reason place => some (.done (.error ⟨place.offset front, reason⟩))
      | .cut v => some (.done (.ok (Offset.unclosed s s.octets.length
          { e with fields := e.fields ++ [⟨name, v⟩] })))
      | .read v stop => Offset.afterItem s d.closing { e with fields := e.fields ++ [⟨name, v⟩] }
          .commaAfterValue (stop.offset front) := by
  obtain ⟨hline, hne, rfl, hequals⟩ := hp
  have hend := h.skipBlank.leads (leads_skip Scan.isKeyChar c.skipBlank)
  obtain ⟨hstands, hhead, hoffset⟩ := hend.charAt (by decide) hequals
  rw [h.fieldsStep_other (other_of_name hline hne), Offset.field, h.skipBlank.fieldName,
    if_neg hne, if_pos hhead, hoffset]
  simp only [Option.bind_eq_bind, Option.bind_some, hstands.value]
  cases p.value <;> rfl

/-- **Fields** are found where they are read. -/
theorem fields (h : c.StandsIn s front) (d : Delimiter) (e : Entry) :
    Offset.fields s d.closing e (c.offset front) =
      some ((c.fields d.closing).located s front e) := by
  have hclosing := d.toNat_closing_lt
  induction c using fields_induction (d := d) generalizing e with
  | close c p hp hf =>
      rw [Offset.fields, Offset.fieldsStep, h.skipBlank_eq, h.octet?_charAt hclosing hp, hf,
        FieldsRead.located, ← (h.charAt hclosing hp).2.2]
      simp
  | comma c p hp hf ih =>
      obtain ⟨hstands, -, hoffset⟩ := h.charAt (by decide) hp
      rw [Offset.fields, Offset.fieldsStep, h.skipBlank_eq, h.octet?_charAt (by decide) hp, hf,
        ← ih hstands, hoffset]
      simp only [if_neg d.closing_ne_comma.symm, if_true, Option.bind_eq_bind, Option.bind_some,
        dif_pos (h.isOnward hp.leads hp.length_lt)]
  | ended c hended hf =>
      rw [Offset.fields, Offset.fieldsStep, h.skipBlank_eq, hf, FieldsRead.located, List.append_nil]
      obtain hnil | hline := hended
      · rw [h.skipBlank.octet?, hnil, h.skipBlank.offset_of_after hnil]
        simp
      · rw [h.skipBlank.octet?_atLineBlock hline, h.skipBlank.isLineBlock?, hline]
        simp [d.closing_ne_at.symm]
  | noName c hother hname hf =>
      rw [Offset.fields, h.fieldsStep_other hother, Offset.field, h.skipBlank.fieldName,
        if_pos hname.takeWhile_eq, hf]
      simp [FieldsRead.located]
  | noEquals c hline hname hequals hf =>
      rw [Offset.fields, h.fieldsStep_other (other_of_name hline hname), Offset.field,
        h.skipBlank.fieldName, if_neg hname, if_neg hequals, hf]
      simp [FieldsRead.located]
  | malformed c name q m p hq hv hf =>
      rw [Offset.fields, h.fieldsStep_name hq, hv, hf]
      simp [FieldsRead.located]
  | cut c name q v hq hv hf =>
      have hstands := h.leads hq.leads
      rw [Offset.fields, h.fieldsStep_name hq, hv, hf, FieldsRead.located, hstands.offset_atEnd]
      simp
  | field c name q v stop p hq hv hp hf ih =>
      have hl := hq.leads.trans (leads_of_value_read hv)
      have hstop := h.leads hl
      have honward := h.isOnward (hl.trans hp.leads) (Nat.lt_of_lt_of_le hp.length_lt hl.length_le)
      rw [Offset.fields, h.fieldsStep_name hq, hv, hf, FieldsRead.located_cons,
        ← ih (hstop.leads hp.leads)]
      simp only [hstop.afterItem, separator_comma _ hp, Option.bind_eq_bind, Option.bind_some,
        dif_pos honward]
  | last c name q v stop p hq hv hp hf =>
      have hstop := (h.leads hq.leads).leads (leads_of_value_read hv)
      rw [Offset.fields, h.fieldsStep_name hq, hv, hf]
      simp [hstop.afterItem, separator_closing hp, FieldsRead.located]
  | unclosed c name q v stop hq hv hended hf =>
      have hstop := (h.leads hq.leads).leads (leads_of_value_read hv)
      rw [Offset.fields, h.fieldsStep_name hq, hv, hf]
      simp [hstop.afterItem, separator_ended hended, FieldsRead.located]
  | missing c name q v stop hq hv hother hf =>
      have hstop := (h.leads hq.leads).leads (leads_of_value_read hv)
      rw [Offset.fields, h.fieldsStep_name hq, hv, hf]
      simp [hstop.afterItem, separator_missing hother, FieldsRead.located]

end Cursor.StandsIn

/-! ## entries -/

/-- An entry that was read, with its places as offsets. -/
def EntryRead.located (s front : Text) : EntryRead → Except Offset.Malformed Offset.EntryFound
  | closed e stop => .ok ⟨stop.offset front, e, []⟩
  | unclosed e place => .ok (Offset.unclosed s (place.offset front) e)
  | malformed reason place => .error ⟨place.offset front, reason⟩

theorem FieldsRead.located_toEntry (s front : Text) (key : Option Text) (r : FieldsRead) :
    (r.toEntry key).located s front = r.located s front { key } := by
  cases r <;> rfl

namespace Cursor.StandsIn

variable {s front : Text} {c p : Cursor}

/-- A run of name characters goes on, if there is such a character. -/
theorem offset_lt_offset_skip {q : Char → Bool} (h : c.after.takeWhile q ≠ []) :
    c.offset front < (c.skip q).offset front := by
  have hne := mt (offset_skip_eq_iff front).1 h
  have hle : c.offset front ≤ (c.skip q).offset front := by
    rw [Cursor.skip, offset_past]
    exact Nat.le_add_right _ _
  omega

theorem entry_key (h : c.StandsIn s front) (d : Delimiter) {key : Text} (hkey : c.KeyAt key p) :
    Offset.entry s d.closing (c.offset front) = some ((c.entry d.closing).located s front) := by
  have hp : p.StandsIn s front := by
    rw [hkey.place]
    exact h.skipBlank.leads (leads_skip _ _)
  have hafter := hp.afterItem d { key := some key } .commaAfterKey
  have hslice := h.skipBlank.slice?_skip Scan.isKeyChar
  rw [← hkey.place, hkey.key] at hslice
  have hlt : c.skipBlank.offset front < p.offset front := by
    rw [hkey.place]
    exact offset_lt_offset_skip (by rw [hkey.key]; exact hkey.ne_nil)
  have hequals : ¬ s.octets[p.skipBlank.offset front]? = some '=' :=
    mt (hp.skipBlank.octet?_eq_iff (by decide)).1 hkey.noEquals
  rw [Cursor.entry_key hkey, Offset.entry, h.skipBlank_eq, h.skipBlank.isLineBlock?, hkey.line,
    h.skipBlank.skip Text.isOctetClass_isKeyChar, ← hkey.place]
  simp only [Option.bind_eq_bind, Option.bind_some, hp.skipBlank_eq, if_pos hlt, if_neg hequals,
    hslice, hafter, Bool.false_eq_true, if_false, afterKey]
  cases hsep : p.separator d.closing with
  | comma next =>
      have hnext : next.StandsIn s front := by
        have hleads := leads_separator d.closing p
        rw [hsep] at hleads
        exact hp.leads hleads
      rw [FieldsRead.located_toEntry]
      exact hnext.fields d _
  | closing stop => simp [EntryRead.located]
  | ended place => simp [EntryRead.located]
  | missing place => simp [EntryRead.located]

theorem entry_noKey (h : c.StandsIn s front) (d : Delimiter) (hkey : ∀ key p, ¬ c.KeyAt key p) :
    Offset.entry s d.closing (c.offset front) = some ((c.entry d.closing).located s front) := by
  have hfields := h.skipBlank.fields d {}
  rw [fields_skipBlank] at hfields
  have hend := h.skipBlank.leads (leads_skip Scan.isKeyChar c.skipBlank)
  rw [Cursor.entry_noKey hkey, FieldsRead.located_toEntry, ← hfields, Offset.entry, h.skipBlank_eq,
    h.skipBlank.isLineBlock?, h.skipBlank.skip Text.isOctetClass_isKeyChar]
  simp only [Option.bind_eq_bind, Option.bind_some, hend.skipBlank_eq]
  by_cases hline : c.skipBlank.atLineBlock = true
  · rw [if_pos hline, hfields, fields_ended (.inr hline)]
    rfl
  · rw [if_neg hline]
    by_cases hname : c.skipBlank.after.takeWhile Scan.isKeyChar = []
    · rw [if_neg (by rw [(offset_skip_eq_iff front).2 hname]; exact Nat.lt_irrefl _)]
      split
      · next hcomma =>
        obtain ⟨r, hr⟩ :=
          List.head?_eq_some_iff.1 ((h.skipBlank.octet?_eq_iff (by decide)).1 hcomma)
        have hp : c.CharAt ',' (c.skipBlank.past [','] r) := ⟨r, hr, rfl⟩
        obtain ⟨hstands, -, hoffset⟩ := h.charAt (by decide) hp
        rw [hoffset, hstands.fields d, hfields, fields_comma hp]
      · rfl
    · have hequals : (c.skipBlank.skip Scan.isKeyChar).skipBlank.after.head? = some '=' := by
        by_contra hne
        exact hkey _ _ ⟨by simpa using hline, hname, rfl, rfl, hne⟩
      rw [if_pos (offset_lt_offset_skip hname),
        if_pos ((hend.skipBlank.octet?_eq_iff (by decide)).2 hequals)]

/-- **An entry** is found where it is read. -/
theorem entry (h : c.StandsIn s front) (d : Delimiter) :
    Offset.entry s d.closing (c.offset front) = some ((c.entry d.closing).located s front) := by
  by_cases hkey : ∃ key p, c.KeyAt key p
  · obtain ⟨key, p, hkey⟩ := hkey
    exact h.entry_key d hkey
  · exact h.entry_noKey d fun key p hp => hkey ⟨key, p, hp⟩

end Cursor.StandsIn

end Bibliography
