import Bibliography.CitationKey.Words
import Bibliography.Warning

/-!
# Bibliography.CitationKey.Generate

Generating citation keys from a template.  Keys are unique up to lower case: a
key that is taken gets the first suffix that makes it free.  An entry for which
the template gives nothing keeps its key.
-/

namespace Bibliography

/-- A key without its collision suffix; `none` marks a place of the suffix. -/
abbrev KeyBase := List (Option Char)

namespace KeyBase

/-- Fill in a suffix: at every place for one, or else at the end. -/
def withSuffix (base : KeyBase) (suffix : Text) : Text :=
  if none ∈ base then base.flatMap fun c => (c.map ([·])).getD suffix
  else base.filterMap (fun c => c) ++ suffix

end KeyBase

namespace Modifier

/-- Apply a modifier to the value of a marker; a required value that is empty
is a failure. -/
def result? (value : Text) : Modifier → Option Text
  | upper => some value.toUpper
  | lower => some value.toLower
  | capitalize => some (Text.capitalize value.toLower)
  | required => if value = [] then none else some value
  | truncate n => some (value.take n)

end Modifier

namespace TemplatePart

/-- Whether a character of literal text is kept in a key. -/
def isKept (c : Char) : Bool := Text.isAlnum c || c = '_' || c = '-' || c = ':'

/-- What a piece of a template gives for an entry. -/
def base? (index : FieldIndex) (id : NodeId) : TemplatePart → Option KeyBase
  | literal t => some ((t.filter isKept).map some)
  | marker m ms =>
    if m.isSuffixPlace then some [none]
    else (ms.foldlM Modifier.result? (m.value index id)).map fun v => v.map some

end TemplatePart

namespace KeyTemplate

/-- The key that a template gives for an entry; none if a required marker or
the whole key is empty. -/
def base? (t : KeyTemplate) (index : FieldIndex) (id : NodeId) : Option KeyBase :=
  ((t.mapM (TemplatePart.base? index id)).map List.flatten).filter (·.any Option.isSome)

end KeyTemplate

namespace CitationKey

/-- The letter of a number below 26. -/
def letter (n : Nat) : Char := Char.ofNat ('a'.toNat + n)

/-- The words of small letters by length and alphabet: `a` to `z`, `aa`, `ab`
and so on. -/
def letterSuffix (n : Nat) : Text :=
  if n < 26 then [letter n] else letterSuffix (n / 26 - 1) ++ [letter (n % 26)]

/-- The suffixes in the order in which they are tried: none, then letters or
the numbers from two on. -/
def suffix (numbers : Bool) : Nat → Text
  | 0 => []
  | n + 1 => if numbers then Text.ofNat (n + 2) else letterSuffix n

/-- The key with the first suffix that makes it free.  No more suffixes than
keys in use can be taken. -/
def firstFree (used : List Text) (numbers : Bool) (base : KeyBase) : Text :=
  let key (n : Nat) : Text := base.withSuffix (suffix numbers n)
  key (((List.range (used.length + 1)).find? fun n => (key n).toLower ∉ used).getD 0)

/-- Give the bases their suffixes, in order; `used` are the keys in use, in
lower case. -/
def assign (used : List Text) (numbers : Bool) : List (NodeId × KeyBase) → List (NodeId × Text)
  | [] => []
  | (id, base) :: bases =>
    let key := firstFree used numbers base
    (id, key) :: assign (key.toLower :: used) numbers bases

end CitationKey

namespace Document

/-- Give entries other keys, and list those whose keys changed. -/
def setKeys : List (NodeId × Text) → Document → Document × List NodeId
  | [], d => (d, [])
  | (id, key) :: keys, d =>
    let (d, changed) := d.editEntry (Entry.setKey (some key)) id
    let (d, ids) := setKeys keys d
    (d, if changed then id :: ids else ids)

/-- The keys of the entries that keep theirs, in lower case. -/
def keptKeys (d : Document) (index : FieldIndex) (t : KeyTemplate) : List Text :=
  (d.entryIds.filter fun id => (t.base? index id).isNone).filterMap fun id =>
    (d.key? id).map Text.toLower

/-- The keys that a template gives to the entries of a document. -/
def keysFor (d : Document) (index : FieldIndex) (t : KeyTemplate) : List (NodeId × Text) :=
  CitationKey.assign (d.keptKeys index t) t.usesNumbers
    (d.entryIds.filterMap fun id => (t.base? index id).map (id, ·))

/-- Generate the keys of a document, and list the entries whose keys changed. -/
def generateKeys (d : Document) (index : FieldIndex) (t : KeyTemplate) : Document × List NodeId :=
  setKeys (d.keysFor index t) d

/-- Generate keys from the text of a template; one that is refused is
reported. -/
def generateKeysFrom (d : Document) (index : FieldIndex) (template : Text) :
    Document × List NodeId × List Warning :=
  match KeyTemplate.parse template with
  | .ok t =>
    let (d, ids) := d.generateKeys index t
    (d, ids, [])
  | .error e => (d, [], [⟨.badTemplate e, none, none⟩])

end Document

end Bibliography
