import Bibliography.Document
import Bibliography.Macros

/-!
# Bibliography.Resolve

The values of fields as readers see them, without delimiters and with the
macros of the months expanded, and the index of these values.

`lookup_ofFields` says that a map made of fields has, for each name, the first
field with that lower-case name.
-/

namespace Bibliography

/-- A field value as a reader sees it, and as it is written. -/
structure Resolved where
  value : Text
  raw : Text
deriving DecidableEq, Inhabited

/-- Resolve a field.  Bare tokens of the month field are looked up among the
macros of the months; other ones stand for themselves. -/
def Field.resolve (f : Field) : Resolved :=
  let isMonth := Text.eqIgnoreAsciiCase f.name "month".toList
  { value := f.value.flatMap fun
      | .literal t => if isMonth then MacroTable.months.resolve t else t
      | s => s.text
    raw := f.value.written }

/-- The resolved fields of an entry by their names in lower case. -/
abbrev FieldMap := List (Text × Resolved)

namespace FieldMap

/-- Resolve fields; of several with one name the first counts. -/
def ofFields : List Field → FieldMap
  | [] => []
  | f :: fs => (f.lowerName, f.resolve) :: (ofFields fs).filter fun p => p.1 ≠ f.lowerName

theorem lookup_filter_ne {m : FieldMap} {name other : Text} (h : other ≠ name) :
    List.lookup other (m.filter fun p => p.1 ≠ name) = List.lookup other m := by
  induction m with
  | nil => rfl
  | cons p m ih =>
    obtain ⟨key, r⟩ := p
    by_cases hp : key = name
    · subst hp
      have : (other == key) = false := by simp [h]
      simpa [List.lookup_cons, this] using ih
    · by_cases ho : other = key
      · simp [hp, ho]
      · have : (other == key) = false := by simp [ho]
        simpa [List.lookup_cons, hp, this] using ih

/-- A map has the first field of each name. -/
theorem lookup_ofFields (name : Text) (fs : List Field) :
    List.lookup name (ofFields fs) =
      (fs.find? fun f => f.lowerName = name).map Field.resolve := by
  induction fs with
  | nil => rfl
  | cons f fs ih =>
    by_cases h : f.lowerName = name
    · simp [ofFields, h]
    · have hb : (name == f.lowerName) = false := by simpa using Ne.symm h
      simp only [ofFields, List.lookup_cons, hb, List.find?_cons, h, decide_false]
      rw [lookup_filter_ne (Ne.symm h), ih]

end FieldMap

/-- Resolve the fields of an entry. -/
def Entry.resolve (e : Entry) : FieldMap := FieldMap.ofFields e.fields

/-- The resolved fields of entries, by their handles. -/
structure FieldIndex where
  entries : List (NodeId × FieldMap) := []
deriving DecidableEq, Inhabited

namespace FieldIndex

/-- The index of the present entries of a document. -/
def build (d : Document) : FieldIndex := ⟨d.entries.map fun (id, e) => (id, e.resolve)⟩

/-- Resolve one entry again; a handle that has no entry leaves the index. -/
def refresh (d : Document) (index : FieldIndex) (id : NodeId) : FieldIndex :=
  let others := index.entries.filter (·.1 ≠ id)
  match d.entry? id with
  | some e => ⟨(id, e.resolve) :: others⟩
  | none => ⟨others⟩

/-- Resolve several entries again. -/
def refreshAll (d : Document) (index : FieldIndex) (ids : List NodeId) : FieldIndex :=
  ids.foldl (refresh d) index

/-- The resolved field of a name, up to lower case. -/
def get? (index : FieldIndex) (id : NodeId) (name : Text) : Option Resolved :=
  (index.entries.lookup id).bind fun m => m.lookup name.toLower

/-- The value of a field as a reader sees it. -/
def value? (index : FieldIndex) (id : NodeId) (name : Text) : Option Text :=
  (index.get? id name).map Resolved.value

end FieldIndex

end Bibliography
