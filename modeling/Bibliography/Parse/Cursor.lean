import Bibliography.Scan

/-!
# Bibliography.Parse.Cursor

A place in a block: the text from the `@` to the place, read backwards, and
the text after it.  Reading moves the cursor forward along one text, which the
relation `Leads` states; what has been read is the source of the block.
-/

namespace Bibliography

/-- A place in a text. -/
structure Cursor where
  /-- The text before the place, last character first. -/
  before : Text
  after : Text
deriving DecidableEq, Inhabited

namespace Cursor

/-- The text that the cursor stands in. -/
def text (c : Cursor) : Text := c.before.reverse ++ c.after

/-- The place after `t`, which leaves `rest`. -/
def past (t rest : Text) (c : Cursor) : Cursor := ⟨t.reverse ++ c.before, rest⟩

/-- The place after a run of characters of a class. -/
def skip (p : Char → Bool) (c : Cursor) : Cursor :=
  c.past (c.after.takeWhile p) (c.after.dropWhile p)

/-- The place after a run of blanks. -/
def skipBlank (c : Cursor) : Cursor := c.skip Text.isBlank

/-- The end of the text. -/
def atEnd (c : Cursor) : Cursor := c.past c.after []

/-- Whether an `@` at the start of a line comes next. -/
def atLineBlock (c : Cursor) : Bool := c.before.head? = some '\n' && c.after.head? = some '@'

/-- The place before the next `@` at the start of a line, or the end. -/
def toLineBlock (c : Cursor) : Cursor :=
  let t := Scan.untilLineBlock c.after
  c.past t (c.after.drop t.length)

/-! ## moving forward -/

/-- The second place is reached from the first by reading on. -/
def Leads (c c' : Cursor) : Prop :=
  ∃ t, c.after = t ++ c'.after ∧ c'.before = t.reverse ++ c.before

theorem Leads.refl (c : Cursor) : c.Leads c := ⟨[], by simp⟩

theorem Leads.trans {a b c : Cursor} : a.Leads b → b.Leads c → a.Leads c
  | ⟨t, h1, h2⟩, ⟨u, h3, h4⟩ => ⟨t ++ u, by simp [h1, h3], by simp [h2, h4]⟩

/-- Reading on leaves no more to read. -/
theorem Leads.length_le {c c' : Cursor} : c.Leads c' → c'.after.length ≤ c.after.length
  | ⟨t, h, _⟩ => by simp [h]

/-- Reading on keeps the text. -/
theorem Leads.text_eq {c c' : Cursor} : c.Leads c' → c'.text = c.text
  | ⟨t, h1, h2⟩ => by simp [text, h1, h2]

theorem leads_past {c : Cursor} {t rest : Text} (h : c.after = t ++ rest) :
    c.Leads (c.past t rest) :=
  ⟨t, h, rfl⟩

theorem leads_skip (p : Char → Bool) (c : Cursor) : c.Leads (c.skip p) :=
  leads_past (List.takeWhile_append_dropWhile).symm

theorem leads_skipBlank (c : Cursor) : c.Leads c.skipBlank := leads_skip _ c

theorem leads_atEnd (c : Cursor) : c.Leads c.atEnd := leads_past (by simp)

end Cursor

end Bibliography
