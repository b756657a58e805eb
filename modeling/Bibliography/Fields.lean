import Bibliography.Document
import Bibliography.Value.Normalization

/-!
# Bibliography.Fields

Edits of the field list of an entry: removing fields by name, empty ones or
repeated ones, normalizing values, and putting fields into an order.  Each tells
whether it counts as a change; `Document.editFields` applies one to every entry
of a document.
-/

namespace Bibliography.Fields

/-! ## removing -/

/-- Remove the fields of a class. -/
def removing (p : Field → Bool) : Edit (List Field) := fun fs => (fs.filter (!p ·), fs.any p)

/-- Remove the fields of some names. -/
def removeNamed (names : List Text) : Edit (List Field) := removing fun f => names.any f.isNamed

/-- Remove the fields whose values are blank. -/
def removeEmpty : Edit (List Field) := removing fun f => f.value.plain.strip = []

/-- The first field of each name, up to lower case. -/
def firsts : List Field → List Field
  | [] => []
  | f :: fs => f :: (firsts fs).filter fun g => g.lowerName ≠ f.lowerName

/-- Remove the fields that repeat the name of an earlier one. -/
def removeRepeated : Edit (List Field) := fun fs => (firsts fs, (firsts fs).length ≠ fs.length)

/-! ## normalizing -/

/-- Apply steps to the values of all fields, in the order of their ranks. -/
def normalize (ns : List Normalization) : Edit (List Field) := fun fs =>
  (fs.map fun f => (Normalization.applyAll (Normalization.inOrder ns) f).1,
   fs.any fun f => (Normalization.applyAll (Normalization.inOrder ns) f).2)

/-! ## ordering -/

/-- The place of a field among names in lower case; one that is not listed
comes after them. -/
def rank (order : List Text) (f : Field) : Nat := order.idxOf f.lowerName

/-- Put fields into the order of a list of names; those of one rank keep their
order. -/
def sort (order : List Text) : Edit (List Field) := fun fs =>
  let lower := order.map Text.toLower
  let sorted := fs.mergeSort fun f g => rank lower f ≤ rank lower g
  (sorted, sorted.map Field.name ≠ fs.map Field.name)

end Bibliography.Fields
