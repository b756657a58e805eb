import Bibliography.Unicode.Case.Fold

/-!
# Bibliography.Macros

Tables of macros, whose names are equal up to case folding, and the twelve
macros of the months.
-/

namespace Bibliography

/-- Macro names with their expansions; of two with one name the first counts. -/
abbrev MacroTable := List (Text × Text)

namespace MacroTable

/-- The expansion of a macro. -/
def get? (t : MacroTable) (name : Text) : Option Text :=
  (t.find? fun m => m.1.eqIgnoreCase name).map (·.2)

/-- Define a macro, or define it anew. -/
def insert (t : MacroTable) (name expansion : Text) : MacroTable := (name, expansion) :: t

/-- The expansion of a macro; a name that is no macro stands for itself. -/
def resolve (t : MacroTable) (name : Text) : Text := (t.get? name).getD name

/-- The macros of the months, in the order of the calendar. -/
def monthNames : List Text :=
  ["jan", "feb", "mar", "apr", "may", "jun", "jul", "aug", "sep", "oct", "nov", "dec"].map
    String.toList

/-- Define the macros of the months, each as its number. -/
def setMonths (t : MacroTable) : MacroTable :=
  monthNames.zipIdx.foldl (fun t (name, i) => t.insert name (Text.ofNat (i + 1))) t

/-- The macros of the months. -/
def months : MacroTable := setMonths []

theorem get?_insert (t : MacroTable) (name expansion other : Text) :
    (t.insert name expansion).get? other =
      if name.eqIgnoreCase other then some expansion else t.get? other := by
  by_cases h : name.eqIgnoreCase other = true <;> simp [get?, insert, h]

/-- Whether a text is one of the macros of the months. -/
def isMonth (name : Text) : Bool := (months.get? name).isSome

end MacroTable

end Bibliography
