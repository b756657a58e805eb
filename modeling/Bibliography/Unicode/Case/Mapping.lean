import Bibliography.Text

/-!
# Bibliography.Unicode.Case.Mapping

How a table of case mappings is written down.  Most mappings send one
character to one character, and neighbours have neighbouring images, so a row
of the table is a run of code points with the image of its first member.  The
few mappings to several characters are listed one by one.
-/

namespace Bibliography.Unicode

/-- A run of code points `first, first + step, …, last` whose images are
`image, image + step, …`. -/
structure Run where
  first : Nat
  last : Nat
  step : Nat
  image : Nat

/-- The image of a code point under a run that has it. -/
def Run.image? (r : Run) (n : Nat) : Option Nat :=
  if r.first ≤ n ∧ n ≤ r.last ∧ (n - r.first) % r.step = 0 then some (r.image + (n - r.first))
  else none

/-- A case mapping beyond ASCII: runs with single images, and characters with
images of several characters. -/
structure Mapping where
  runs : List Run
  several : List (Nat × List Nat)

/-- The image of a character; a character in no row is its own image. -/
def Mapping.apply (m : Mapping) (c : Char) : Text :=
  match m.several.lookup c.toNat with
  | some codes => codes.map Char.ofNat
  | none =>
    match m.runs.findSome? (·.image? c.toNat) with
    | some n => [Char.ofNat n]
    | none => [c]

end Bibliography.Unicode
