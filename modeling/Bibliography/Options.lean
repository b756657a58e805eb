import Bibliography.Duplicates.Rule
import Bibliography.Render

/-!
# Bibliography.Options

The options of a tidy run.  All are off unless told otherwise, and a run with
no options gives its input back.  Several options are switched on with `true`
or given a value; each of these has a default for the first case.
-/

namespace Bibliography

/-- An option that is switched on or off, or given a value. -/
inductive Toggle (α : Type) where
  | flag (on : Bool)
  | value (a : α)
deriving DecidableEq, Inhabited

namespace Toggle

/-- The value in effect; one that is switched on is the default. -/
def resolve {α : Type} (default : α) : Toggle α → Option α
  | flag false => none
  | flag true => some default
  | value a => some a

end Toggle

/-- The options of a run. -/
structure Options where
  /-- The names of fields to remove. -/
  omitted : List Text := []
  curly : Bool := false
  numeric : Bool := false
  /-- The indentation in spaces. -/
  space : Option (Toggle Nat) := none
  tab : Bool := false
  /-- The column of the values. -/
  align : Option (Toggle Nat) := none
  /-- The keys by which entries are sorted. -/
  sort : Option (Toggle (List Text)) := none
  duplicates : Option (Toggle (List DuplicateRule)) := none
  merge : Option (Toggle MergeStrategy) := none
  stripEnclosingBraces : Bool := false
  dropAllCaps : Bool := false
  escape : Bool := false
  /-- The names by which fields are sorted. -/
  sortFields : Option (Toggle (List Text)) := none
  stripComments : Bool := false
  trailingCommas : Bool := false
  encodeUrls : Bool := false
  tidyComments : Bool := false
  removeEmptyFields : Bool := false
  removeDuplicateFields : Bool := false
  /-- The template of citation keys. -/
  generateKeys : Option (Toggle Text) := none
  maxAuthors : Option Nat := none
  lowercase : Bool := false
  /-- The names of fields that get a second pair of braces. -/
  enclosingBraces : Option (Toggle (List Text)) := none
  /-- The width at which values are wrapped. -/
  wrap : Option (Toggle Nat) := none
deriving DecidableEq, Inhabited

namespace Options

/-- The options of a usual run: values in a column, special characters escaped,
names in lower case, comments in shape and repeated fields removed. -/
def recommended : Options where
  space := some (.value 2)
  align := some (.value 14)
  escape := true
  lowercase := true
  tidyComments := true
  removeDuplicateFields := true

/-! ## defaults of options that are switched on -/

/-- The sort keys. -/
def defaultSortKeys : List Text := ["key".toList]

/-- The order of fields. -/
def defaultFieldOrder : List Text :=
  ["title", "shorttitle", "author", "year", "month", "day", "journal", "booktitle", "location",
    "on", "publisher", "address", "series", "volume", "number", "pages", "doi", "isbn", "issn",
    "url", "urldate", "copyright", "category", "note", "metadata"].map String.toList

/-- The duplicate rules. -/
def defaultDuplicateRules : List DuplicateRule := [.doi, .citation, .abstractText]

/-- The template of citation keys. -/
def defaultKeyTemplate : Text :=
  "[auth:required:lower][year:required][veryshorttitle:lower]".toList

/-- The fields that get a second pair of braces. -/
def defaultEnclosedFields : List Text := ["title".toList]

/-- The width of the indentation. -/
def defaultSpace : Nat := 2

/-- The width at which values are wrapped. -/
def defaultWrap : Nat := 80

/-! ## what is in effect -/

/-- The indentation: a tab, or so many spaces. -/
def indent (o : Options) : Indent :=
  if o.tab then .tab else .spaces ((o.space.bind (·.resolve defaultSpace)).getD defaultSpace)

/-- The alignment of values. -/
def alignment (o : Options) : Option Align :=
  match o.align with
  | none | some (.flag false) => none
  | some (.flag true) => some .auto
  | some (.value width) => some (.column width)

/-- The width at which values are wrapped. -/
def wrapWidth (o : Options) : Option Nat := o.wrap.bind (·.resolve defaultWrap)

/-- Whether any option asks for a layout. -/
def isLayout (o : Options) : Bool :=
  o.space.any (· ≠ .flag false) || o.tab || o.alignment.isSome || o.wrapWidth.isSome
    || o.trailingCommas || o.lowercase

/-- How the result is written. -/
def rendering (o : Options) : Rendering where
  layout :=
    if o.isLayout then
      some ⟨o.indent, o.alignment, o.wrapWidth, o.trailingCommas, o.lowercase⟩
    else none
  tidyComments := o.tidyComments

/-- The sort keys of entries. -/
def sortKeys (o : Options) : Option (List Text) := o.sort.bind (·.resolve defaultSortKeys)

/-- The order of fields. -/
def fieldOrder (o : Options) : Option (List Text) := o.sortFields.bind (·.resolve defaultFieldOrder)

/-- What becomes of duplicates. -/
def mergeStrategy (o : Options) : Option MergeStrategy := o.merge.bind (·.resolve .combine)

/-- The duplicate rules; merging needs some, and brings the default ones. -/
def duplicateRules (o : Options) : Option (List DuplicateRule) :=
  o.duplicates.bind (·.resolve defaultDuplicateRules)
    <|> o.mergeStrategy.map fun _ => defaultDuplicateRules

/-- The template of citation keys. -/
def keyTemplate (o : Options) : Option Text := o.generateKeys.bind (·.resolve defaultKeyTemplate)

/-- The fields that get a second pair of braces. -/
def enclosedFields (o : Options) : Option (List Text) :=
  o.enclosingBraces.bind (·.resolve defaultEnclosedFields)

end Options

end Bibliography
