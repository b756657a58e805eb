import Bibliography.Entry
import Bibliography.Layout.Wrap

/-!
# Bibliography.Layout

How the fields of an entry are laid out: the indentation, the column of the
values, the width at which values are wrapped, and the spelling of names.  A
layout gives the text of each part of a block; the modules that write blocks
put the parts together.
-/

namespace Bibliography

/-- The indentation of fields. -/
inductive Indent where
  | spaces (n : Nat)
  | tab
deriving DecidableEq, Inhabited

/-- The alignment of values. -/
inductive Align where
  /-- Names are padded to the longest of the entry. -/
  | auto
  /-- Names are padded to a width. -/
  | column (width : Nat)
deriving DecidableEq, Inhabited

/-- The layout of blocks.  Unless told otherwise, fields are indented by two
spaces and neither aligned nor wrapped. -/
structure Layout where
  indent : Indent := .spaces 2
  align : Option Align := none
  /-- The width at which values are wrapped. -/
  wrap : Option Nat := none
  /-- Whether the last field has a comma too. -/
  trailingCommas : Bool := false
  /-- Whether commands and field names are written in lower case. -/
  lowercase : Bool := false
deriving DecidableEq, Inhabited

namespace Layout

/-- A command or field name as the layout spells it. -/
def spelling (l : Layout) (name : Text) : Text := if l.lowercase then name.toLower else name

/-- The width to which the names of an entry are padded. -/
def nameWidth (l : Layout) (names : List Text) : Nat :=
  match l.align with
  | none => 0
  | some .auto => (names.map List.length).foldl max 0
  | some (.column width) => width

/-- The command with its `@`. -/
def command (l : Layout) (name : Text) : Text := '@' :: l.spelling name

/-- The blanks before a field. -/
def indentText (l : Layout) : Text :=
  match l.indent with
  | .spaces n => Text.spaces n
  | .tab => ['\t']

/-- The columns that the blanks before a field take. -/
def indentWidth (l : Layout) : Nat := l.indentText.length

/-- A field name, padded to a width. -/
def fieldName (l : Layout) (width : Nat) (name : Text) : Text :=
  l.spelling name ++ Text.spaces (width - (l.spelling name).length)

/-- What stands between a name and a value. -/
def equals : Text := [' ', '=', ' ']

/-- The end of the line of the citation key. -/
def keyEnd (hasKey : Bool) : Text := if hasKey then [',', '\n'] else ['\n']

/-- The end of a field. -/
def fieldEnd (l : Layout) (last : Bool) : Text :=
  if last && !l.trailingCommas then ['\n'] else [',', '\n']

/-- What stands between blocks. -/
def blockSeparator : Text := ['\n', '\n']

/-- A value that begins at a column; one that does not fit is wrapped. -/
def value (l : Layout) (column : Nat) (v : Value) : Text :=
  match l.wrap with
  | some width =>
    if width < column + v.written.length then Wrap.wrap column width v.written else v.written
  | none => v.written

/-- The column at which the value of a field begins. -/
def valueColumn (l : Layout) (width : Nat) (name : Text) : Nat :=
  l.indentWidth + (l.fieldName width name).length + equals.length

/-- A field with its indentation and its end. -/
def field (l : Layout) (width : Nat) (last : Bool) (f : Field) : Text :=
  l.indentText ++ l.fieldName width f.name ++ equals
    ++ l.value (l.valueColumn width f.name) f.value ++ l.fieldEnd last

/-- The fields of an entry, their names padded to a width. -/
def fields (l : Layout) (width : Nat) : List Field → Text
  | [] => []
  | [f] => l.field width true f
  | f :: g :: fs => l.field width false f ++ fields l width (g :: fs)

end Layout

end Bibliography
