import Bibliography.Text

/-!
# Bibliography.Value

Field values.  A value is a sequence of segments that `#` joins, and a segment
is a bare token, a text in braces or a text in quotation marks.  The outer
delimiters are not stored: `written` adds them again.
-/

namespace Bibliography

/-- One segment of a value. -/
inductive Segment where
  /-- A bare token, such as a macro name or a number. -/
  | literal (text : Text)
  /-- The text between `{` and `}`. -/
  | braced (text : Text)
  /-- The text between two `"`. -/
  | quoted (text : Text)
deriving DecidableEq, Inhabited

namespace Segment

/-- The text of a segment, without delimiters. -/
def text : Segment → Text
  | literal t | braced t | quoted t => t

/-- Another text between the same delimiters. -/
def withText (t : Text) : Segment → Segment
  | literal _ => literal t
  | braced _ => braced t
  | quoted _ => quoted t

/-- Whether the segment has delimiters. -/
def isDelimited : Segment → Bool
  | literal _ => false
  | braced _ | quoted _ => true

/-- A segment as it stands in a document. -/
def written : Segment → Text
  | literal t => t
  | braced t => '{' :: t ++ ['}']
  | quoted t => '"' :: t ++ ['"']

@[simp] theorem text_withText (t : Text) (s : Segment) : (s.withText t).text = t := by
  cases s <;> rfl

@[simp] theorem withText_text (s : Segment) : s.withText s.text = s := by
  cases s <;> rfl

@[simp] theorem isDelimited_withText (t : Text) (s : Segment) :
    (s.withText t).isDelimited = s.isDelimited := by
  cases s <;> rfl

end Segment

/-- A field value: segments that `#` joins. -/
abbrev Value := List Segment

namespace Value

/-- A value as it stands in a document, with blanks around every `#`. -/
def written (v : Value) : Text := Text.joinWith [' ', '#', ' '] (v.map Segment.written)

/-- The texts of the segments, concatenated without delimiters. -/
def plain (v : Value) : Text := v.flatMap Segment.text

/-- The segment of a value that is one delimited segment. -/
def sole? : Value → Option Segment
  | [s] => if s.isDelimited then some s else none
  | _ => none

/-- Apply a function to a value that is one delimited segment; others are kept. -/
def mapSole (f : Segment → Segment) (v : Value) : Value :=
  match v.sole? with
  | some s => [f s]
  | none => v

/-- Apply a function to the text of every delimited segment. -/
def mapDelimited (f : Text → Text) (v : Value) : Value :=
  v.map fun s => if s.isDelimited then s.withText (f s.text) else s

@[simp] theorem plain_nil : plain [] = [] := rfl

@[simp] theorem plain_cons (s : Segment) (v : Value) : plain (s :: v) = s.text ++ plain v := rfl

theorem sole?_eq_some_iff {v : Value} {s : Segment} :
    sole? v = some s ↔ v = [s] ∧ s.isDelimited = true := by
  unfold sole?
  split
  · next t =>
    by_cases h : t.isDelimited = true
    · simp only [h, if_true, Option.some.injEq, List.cons.injEq, and_true]
      exact ⟨fun e => ⟨e, e ▸ h⟩, fun e => e.1⟩
    · simp only [h, Bool.false_eq_true, if_false, reduceCtorEq, List.cons.injEq, and_true,
        false_iff, not_and]
      exact fun e => e ▸ h
  · simp_all

@[simp] theorem length_mapDelimited (f : Text → Text) (v : Value) :
    (mapDelimited f v).length = v.length := by
  simp [mapDelimited]

end Value

end Bibliography
