import Bibliography.Unicode.Boundaries
import Bibliography.Text

/-!
# Bibliography.Unicode.WhiteSpace

The `White_Space` property.  It has every blank of `Text.isBlank`, and the
vertical tab, the next-line control and the spaces beyond ASCII besides.
-/

namespace Bibliography.Unicode

/-- The twenty-five code points with the property `White_Space`. -/
def whiteSpaceTable : Unicode.Boundaries :=
  [9, 14, 32, 33, 133, 134, 160, 161, 5760, 5761, 8192, 8203, 8232, 8234, 8239, 8240, 8287,
   8288, 12288, 12289]

/-- Whether a character has the property `White_Space`. -/
def isWhiteSpace (c : Char) : Bool := whiteSpaceTable.contains c.toNat

/-- Every blank is white space. -/
theorem isWhiteSpace_of_isBlank {c : Char} (h : Text.isBlank c = true) :
    isWhiteSpace c = true := by
  simp only [Text.isBlank, Bool.or_eq_true, decide_eq_true_eq] at h
  rcases h with (((rfl | rfl) | rfl) | rfl) | rfl <;> decide

end Bibliography.Unicode

namespace Bibliography.Text

/-- A text without the white space at its ends. -/
def strip (s : Text) : Text := trim Unicode.isWhiteSpace s

/-- A text without the white space at its end. -/
def stripEnd (s : Text) : Text := trimEnd Unicode.isWhiteSpace s

/-- The words of a text, which white space separates. -/
def words (s : Text) : List Text := runs Unicode.isWhiteSpace s

end Bibliography.Text
