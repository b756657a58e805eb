import Bibliography.Parse.Value

/-!
# Bibliography.Parse.Entry

Reading the body of an entry: an optional citation key and fields, separated
by commas, up to the closing bracket.  A name with an equals sign after it is a
field, not a key.  An `@` at the start of a line between two items ends an
entry that has no closing bracket, and so does the end of the input.
-/

namespace Bibliography

/-- What separates two items of an entry. -/
inductive Separator where
  | comma (stop : Cursor)
  /-- The closing bracket. -/
  | closing (stop : Cursor)
  /-- The end of the input, or a block at the start of a line. -/
  | ended (place : Cursor)
  /-- Anything else. -/
  | missing (place : Cursor)

/-- How the reading of a list of fields ends. -/
inductive FieldsRead where
  | closed (fields : List Field) (stop : Cursor)
  /-- There is no closing bracket before this place. -/
  | unclosed (fields : List Field) (place : Cursor)
  | malformed (reason : Malformation) (place : Cursor)

/-- A reading with one field more in front. -/
def FieldsRead.cons (f : Field) : FieldsRead → FieldsRead
  | closed fs c => closed (f :: fs) c
  | unclosed fs c => unclosed (f :: fs) c
  | malformed m c => malformed m c

/-- How the reading of an entry ends. -/
inductive EntryRead where
  | closed (entry : Entry) (stop : Cursor)
  /-- There is no closing bracket before this place. -/
  | unclosed (entry : Entry) (place : Cursor)
  | malformed (reason : Malformation) (place : Cursor)

/-- The entry of a citation key and fields. -/
def FieldsRead.toEntry (key : Option Text) : FieldsRead → EntryRead
  | closed fs c => .closed { key, fields := fs } c
  | unclosed fs c => .unclosed { key, fields := fs } c
  | malformed m c => .malformed m c

namespace Cursor

/-- Read the separator after an item. -/
def separator (close : Char) (c : Cursor) : Separator :=
  let n := c.skipBlank
  match n.after with
  | [] => .ended n
  | x :: s =>
    if x = ',' then .comma (n.past [x] s)
    else if x = close then .closing (n.past [x] s)
    else if n.atLineBlock then .ended n
    else .missing n

theorem leads_of_separator_comma {close : Char} {c c' : Cursor}
    (h : c.separator close = .comma c') : c.Leads c' ∧ c'.after.length < c.after.length := by
  unfold separator at h
  dsimp only at h
  split at h
  · cases h
  · next x s hs =>
    split at h
    · cases h
      refine ⟨(leads_skipBlank c).trans (leads_past (by simp [hs])), ?_⟩
      have := (leads_skipBlank c).length_le
      rw [hs, List.length_cons] at this
      exact this
    · split at h
      · cases h
      · split at h <;> cases h

/-- Read fields up to the closing bracket. -/
def fields (close : Char) (c : Cursor) : FieldsRead :=
  match _ : c.skipBlank.after with
  | [] => .unclosed [] c.skipBlank
  | x :: s =>
    if x = close then .closed [] (c.skipBlank.past [x] s)
    else if x = ',' then fields close (c.skipBlank.past [x] s)
    else if c.skipBlank.atLineBlock then .unclosed [] c.skipBlank
    else
      let name := c.skipBlank.after.takeWhile Scan.isKeyChar
      if name = [] then .malformed .fieldName c.skipBlank
      else
        let n := (c.skipBlank.skip Scan.isKeyChar).skipBlank
        match _ : n.after with
        | '=' :: r =>
          match _ : (n.past ['='] r).value with
          | .malformed m place => .malformed m place
          | .cut v => .unclosed [⟨name, v⟩] n.atEnd
          | .read v stop =>
            match _ : stop.separator close with
            | .comma next => (fields close next).cons ⟨name, v⟩
            | .closing stop => .closed [⟨name, v⟩] stop
            | .ended place => .unclosed [⟨name, v⟩] place
            | .missing place => .malformed .commaAfterValue place
        | _ => .malformed .equalsAfterName n
termination_by c.after.length
decreasing_by
  · have h := (leads_skipBlank c).length_le
    rw [‹c.skipBlank.after = _›, List.length_cons] at h
    exact h
  · have h1 := (leads_of_separator_comma ‹_›).2
    have h2 := (leads_of_value_read ‹_›).length_le
    have h3 : n.after.length ≤ c.after.length :=
      ((leads_skipBlank c).trans ((leads_skip _ _).trans (leads_skipBlank _))).length_le
    have h4 : (n.past ['='] r).after = r := rfl
    rw [‹n.after = _›, List.length_cons] at h3
    rw [h4] at h2
    omega

/-- Read the body of an entry. -/
def entry (close : Char) (c : Cursor) : EntryRead :=
  let n := c.skipBlank
  if n.atLineBlock then .unclosed {} n
  else
    let word := n.after.takeWhile Scan.isKeyChar
    if word = [] then
      match n.after with
      | ',' :: s => (fields close (n.past [','] s)).toEntry none
      | _ => (fields close n).toEntry none
    else
      let m := n.skip Scan.isKeyChar
      if m.skipBlank.after.head? = some '=' then (fields close n).toEntry none
      else match m.separator close with
        | .comma next => (fields close next).toEntry (some word)
        | .closing stop => .closed { key := some word } stop
        | .ended place => .unclosed { key := some word } place
        | .missing place => .malformed .commaAfterKey place

end Cursor

/-! ## an entry ends later on in the same text -/

namespace FieldsRead

/-- The place where a reading of fields stopped. -/
def place : FieldsRead → Cursor
  | closed _ c | unclosed _ c | malformed _ c => c

@[simp] theorem place_cons (f : Field) (r : FieldsRead) : (r.cons f).place = r.place := by
  cases r <;> rfl

end FieldsRead

namespace EntryRead

/-- The place where a reading of an entry stopped. -/
def place : EntryRead → Cursor
  | closed _ c | unclosed _ c | malformed _ c => c

@[simp] theorem place_toEntry (k : Option Text) (r : FieldsRead) :
    (r.toEntry k).place = r.place := by
  cases r <;> rfl

end EntryRead

namespace Separator

/-- The place where a separator was looked for, or the place after it. -/
def place : Separator → Cursor
  | comma c | closing c | ended c | missing c => c

end Separator

namespace Cursor

theorem leads_separator (close : Char) (c : Cursor) : c.Leads (c.separator close).place := by
  unfold separator
  refine (leads_skipBlank c).trans ?_
  dsimp only
  split
  · exact Leads.refl _
  · next x s hs =>
    split
    · exact leads_past (by simp [hs])
    · split
      · exact leads_past (by simp [hs])
      · split <;> exact Leads.refl _

theorem leads_equals {c : Cursor} {r : Text}
    (h : (c.skipBlank.skip Scan.isKeyChar).skipBlank.after = '=' :: r) :
    c.Leads ((c.skipBlank.skip Scan.isKeyChar).skipBlank.past ['='] r) :=
  (leads_skipBlank c).trans ((leads_skip _ _).trans ((leads_skipBlank _).trans
    (leads_past (by simp [h]))))

/-- A reading of fields stops later on in the same text. -/
theorem leads_fields (close : Char) (c : Cursor) : c.Leads (c.fields close).place := by
  fun_induction fields close c with
  | case1 => exact leads_skipBlank _
  | case2 _ _ hs => exact (leads_skipBlank _).trans (leads_past (by simp [hs]))
  | case3 _ _ hs _ ih =>
    exact (leads_skipBlank _).trans ((leads_past (by simp [hs])).trans ih)
  | case4 => exact leads_skipBlank _
  | case5 => exact leads_skipBlank _
  | case6 => exact (leads_equals ‹_›).trans (leads_of_value_malformed ‹_›)
  | case7 =>
    exact (leads_skipBlank _).trans ((leads_skip _ _).trans ((leads_skipBlank _).trans
      (leads_atEnd _)))
  | case8 =>
    simp only [FieldsRead.place_cons]
    exact (leads_equals ‹_›).trans ((leads_of_value_read ‹_›).trans
      ((leads_of_separator_comma ‹_›).1.trans ‹_›))
  | case9 | case10 | case11 =>
    next c' _ _ hs =>
    have h := leads_separator close c'
    rw [hs] at h
    exact (leads_equals ‹_›).trans ((leads_of_value_read ‹_›).trans h)
  | case12 =>
    exact (leads_skipBlank _).trans ((leads_skip _ _).trans (leads_skipBlank _))

/-- A reading of an entry stops later on in the same text. -/
theorem leads_entry (close : Char) (c : Cursor) : c.Leads (c.entry close).place := by
  unfold entry
  refine (leads_skipBlank c).trans ?_
  dsimp only
  split
  · exact Leads.refl _
  · split
    · split
      · next s hs =>
        simp only [EntryRead.place_toEntry]
        exact (leads_past (by simp [hs])).trans (leads_fields _ _)
      · simp only [EntryRead.place_toEntry]
        exact leads_fields _ _
    · split
      · simp only [EntryRead.place_toEntry]
        exact leads_fields _ _
      · refine (leads_skip Scan.isKeyChar _).trans ?_
        have h := leads_separator close (c.skipBlank.skip Scan.isKeyChar)
        split
        · next hs =>
          simp only [EntryRead.place_toEntry]
          exact (leads_of_separator_comma hs).1.trans (leads_fields _ _)
        all_goals
          next hs =>
            rw [hs] at h
            exact h

end Cursor

end Bibliography
