import Bibliography.Scan
import Bibliography.Unicode.WhiteSpace
import Bibliography.Proofs.Unicode.Case

/-!
# Bibliography.Proofs.Scan.Classes

What the classes of characters have in common.  The scanners single out a dozen
ASCII characters: brackets, marks and blanks.  Letters, digits and everything
beyond ASCII are of every class that names and bare tokens are made of, and
count nowhere as a bracket or a mark.
-/

namespace Bibliography.Scan

/-- The characters that matter in the text of a segment. -/
def isSign (x : Char) : Bool := x ∈ ['{', '}', '"', '\\']

/-- The characters that no bare token has. -/
def literalEnds : List Char :=
  ['\t', '\n', '\x0c', '\x0d', ' ', ',', '#', '{', '}', '"', '(', ')', '=']

/-- The characters that no name has. -/
def keyEnds : List Char := '%' :: literalEnds

variable {x : Char}

theorem mem_of_isSign (h : isSign x = true) : x ∈ ['{', '}', '"', '\\'] := by
  simpa [isSign] using h

theorem isLiteralChar_eq_false_iff : isLiteralChar x = false ↔ x ∈ literalEnds := by
  grind [isLiteralChar, Text.isBlank, literalEnds]

theorem isKeyChar_eq_false_iff : isKeyChar x = false ↔ x ∈ keyEnds := by
  simp only [isKeyChar, Text.isBlank, keyEnds, literalEnds, Bool.and_eq_false_iff,
    Bool.not_eq_false', Bool.or_eq_true, decide_eq_true_eq, decide_eq_false_iff_not,
    Classical.not_not, List.mem_cons, List.not_mem_nil, or_false]
  grind

/-- White space is no sign. -/
theorem isSign_of_isWhiteSpace (h : Unicode.isWhiteSpace x = true) : isSign x = false := by
  have hsigns : ∀ y ∈ ['{', '}', '"', '\\'], Unicode.isWhiteSpace y = false := by
    simp only [List.mem_cons, List.not_mem_nil, or_false, forall_eq_or_imp, forall_eq]
    decide
  apply Bool.eq_false_iff.2
  intro hx
  simp [hsigns x (mem_of_isSign hx)] at h

/-- Signs are ASCII, and no letters. -/
theorem isSign_of_isLetterlike (h : Unicode.IsLetterlike x) : isSign x = false := by
  apply Bool.eq_false_iff.2
  intro hx
  have hsigns := mem_of_isSign hx
  simp only [List.mem_cons, List.not_mem_nil, or_false] at hsigns
  obtain rfl | rfl | rfl | rfl := hsigns <;> revert h <;> decide

/-- The characters that no name has are ASCII, and neither letters nor digits. -/
theorem not_mem_keyEnds (h : Unicode.IsLetterlike x ∨ x.isDigit = true) : x ∉ keyEnds := by
  intro hx
  simp only [keyEnds, literalEnds, List.mem_cons, List.not_mem_nil, or_false] at hx
  obtain rfl | rfl | rfl | rfl | rfl | rfl | rfl | rfl | rfl | rfl | rfl | rfl | rfl | rfl := hx <;>
    revert h <;> decide

theorem isKeyChar_of_isLetterlike (h : Unicode.IsLetterlike x) : isKeyChar x = true := by
  apply eq_true_of_ne_false
  intro hx
  exact not_mem_keyEnds (.inl h) (isKeyChar_eq_false_iff.1 hx)

theorem isKeyChar_of_isDigit (h : x.isDigit = true) : isKeyChar x = true := by
  apply eq_true_of_ne_false
  intro hx
  exact not_mem_keyEnds (.inr h) (isKeyChar_eq_false_iff.1 hx)

theorem isLiteralChar_of_isKeyChar (h : isKeyChar x = true) : isLiteralChar x = true := by
  apply eq_true_of_ne_false
  intro hx
  have hkey : isKeyChar x = false :=
    isKeyChar_eq_false_iff.2 (List.mem_cons_of_mem _ (isLiteralChar_eq_false_iff.1 hx))
  rw [hkey] at h
  cases h

end Bibliography.Scan
