import Bibliography.Value
import Bibliography.Unicode.Case.Fold
import Bibliography.Unicode.Case.Lower

/-!
# Bibliography.Entry

Bibliographic records and their fields.  A field is looked up by name up to
case folding, and the first field of a name is the one that counts.
-/

namespace Bibliography

/-- The handle of a node of a document, which is its place in the input. -/
abbrev NodeId := Nat

/-- An edit gives the new value, and tells whether it counts as a change. -/
abbrev Edit (α : Type) := α → α × Bool

/-- A named value. -/
structure Field where
  /-- The name as the document spells it. -/
  name : Text
  value : Value
deriving DecidableEq, Inhabited

namespace Field

/-- Whether the field has a name, up to case folding. -/
def isNamed (f : Field) (name : Text) : Bool := f.name.eqIgnoreCase name

/-- The name in lower case. -/
def lowerName (f : Field) : Text := f.name.toLower

/-- A field as it stands in a document. -/
def written (f : Field) : Text := f.name ++ [' ', '=', ' '] ++ f.value.written

end Field

/-- A bibliographic record such as `@article{key, …}`. -/
structure Entry where
  key : Option Text := none
  fields : List Field := []
  /-- The earlier entry that this one was found to duplicate. -/
  duplicateOf : Option NodeId := none
deriving DecidableEq, Inhabited

namespace Entry

/-- The first field of a name. -/
def field? (e : Entry) (name : Text) : Option Field := e.fields.find? (·.isNamed name)

/-- Give the first field of a name a value, or add such a field at the end. -/
def withField (name : Text) (v : Value) : List Field → List Field
  | [] => [⟨name, v⟩]
  | f :: fs => if f.isNamed name then { f with value := v } :: fs else f :: withField name v fs

/-- Give an entry another key. -/
def setKey (key : Option Text) : Edit Entry := fun e => ({ e with key }, e.key ≠ key)

/-- Give the first field of a name a value, or add such a field. -/
def setField (name : Text) (v : Value) : Edit Entry := fun e =>
  ({ e with fields := withField name v e.fields }, withField name v e.fields ≠ e.fields)

end Entry

end Bibliography
