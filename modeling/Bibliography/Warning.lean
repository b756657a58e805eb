import Bibliography.Entry
import Bibliography.Duplicates.Rule
import Bibliography.CitationKey.Template

/-!
# Bibliography.Warning

What may be wrong with a bibliography or with the options of a run.  Nothing
here stops a run.  A warning keeps its cause as data; `code` and `message` put
it into words.
-/

namespace Bibliography

/-- Why a block could not be understood. -/
inductive Malformation where
  /-- The citation key is followed neither by a comma nor by the end. -/
  | commaAfterKey
  /-- Where a field should begin there is no name. -/
  | fieldName
  /-- A field name is not followed by an equals sign. -/
  | equalsAfterName
  /-- A value is followed neither by a comma nor by the end. -/
  | commaAfterValue
  /-- A `#` is not followed by a segment. -/
  | segmentAfterHash
  /-- A brace is closed in a quoted segment that was not opened there. -/
  | strayBrace
deriving DecidableEq, Inhabited

/-- The wording of a malformation. -/
def Malformation.message : Malformation → String
  | commaAfterKey => "expected ',' after the citation key"
  | fieldName => "expected a field name"
  | equalsAfterName => "expected '=' after a field name"
  | commaAfterValue => "expected ',' after a field value"
  | segmentAfterHash => "expected a value after '#'"
  | strayBrace => "unbalanced '\x7d' in a quoted value"

/-- What a warning is about. -/
inductive Cause where
  /-- An entry has fields but no citation key. -/
  | missingKey (command : Text)
  /-- A comment, preamble or string definition has no closing bracket. -/
  | unclosedPayload (command : Text)
  /-- An entry has no closing bracket before the end of the input or before the
  next block. -/
  | unclosedEntry (atEnd : Bool)
  /-- A block could not be understood and is kept as it was. -/
  | malformed (command : Text) (reason : Malformation)
  /-- Two entries share a citation key. -/
  | duplicateKey (key : Text)
  /-- An entry duplicates an earlier one. -/
  | duplicateEntry (entry earlier : Text) (rule : DuplicateRule)
  /-- A sort key names no field. -/
  | badSortKey (spec : Text)
  /-- No entry has the field of a sort key. -/
  | unusedSortKey (field : Text)
  /-- A key template was refused. -/
  | badTemplate (error : TemplateError)
deriving DecidableEq, Inhabited

namespace Cause

/-- The code of a cause, for programs to read. -/
def code : Cause → String
  | missingKey _ => "MISSING_KEY"
  | unclosedPayload _ | unclosedEntry _ => "UNTERMINATED_BLOCK"
  | malformed .. => "MALFORMED_BLOCK"
  | duplicateKey _ => "DUPLICATE_KEY"
  | duplicateEntry .. => "DUPLICATE_ENTRY"
  | badSortKey _ | unusedSortKey _ | badTemplate _ => "INVALID_OPTION"

/-- The wording of a cause, for people to read. -/
def message : Cause → String
  | missingKey command =>
    let command := String.ofList command
    s!"@{command} entry has no citation key"
  | unclosedPayload command =>
    let command := String.ofList command
    s!"@{command} block is not closed before the end of the input"
  | unclosedEntry true => "entry is not closed before the end of the input"
  | unclosedEntry false => "entry is not closed before the next block"
  | malformed command reason =>
    let command := String.ofList command
    let reason := reason.message
    s!"@{command} block kept verbatim: {reason}"
  | duplicateKey key =>
    let key := String.ofList key
    s!"Duplicate key {key}"
  | duplicateEntry entry earlier rule =>
    let entry := String.ofList entry
    let earlier := String.ofList earlier
    let rule := rule.name
    s!"Entry {entry} is a duplicate of {earlier} (same {rule})"
  | badSortKey spec =>
    let spec := String.ofList spec
    s!"invalid sort key '{spec}'"
  | unusedSortKey field =>
    let field := String.ofList field
    s!"sort key '{field}' matches no entry"
  | badTemplate error =>
    let error := error.message
    s!"generateKeys: {error}"

end Cause

/-- The block that a warning is about, with the citation key it had then. -/
structure EntryRef where
  node : NodeId
  key : Option Text
deriving DecidableEq, Inhabited

/-- A finding that does not stop the run. -/
structure Warning where
  cause : Cause
  entry : Option EntryRef := none
  /-- The earlier entry that the warning refers to. -/
  earlier : Option EntryRef := none
deriving DecidableEq, Inhabited

namespace Warning

/-- The code of a warning. -/
def code (w : Warning) : String := w.cause.code

/-- The wording of a warning. -/
def message (w : Warning) : String := w.cause.message

/-- A warning in one line. -/
def line (w : Warning) : String :=
  let code := w.code
  let message := w.message
  s!"{code}: {message}"

end Warning

end Bibliography
