import Bibliography.Entry
import Bibliography.Latex.Escape
import Bibliography.Macros
import Bibliography.Names
import Bibliography.Scan
import Bibliography.Url
import Bibliography.Value.Capitals

/-!
# Bibliography.Value.Normalization

The steps that bring field values into a common form.  A list of steps is
applied in the order of their ranks, whatever the order of the list.
-/

namespace Bibliography

/-- A step that brings field values into a common form. -/
inductive Normalization where
  /-- Quotation marks become braces. -/
  | curly
  /-- A redundant pair of braces is removed. -/
  | stripEnclosingBraces
  /-- Numbers, and macros of months in the month field, lose their delimiters. -/
  | numeric
  /-- Texts in capitals keep them at the beginnings of words only. -/
  | dropAllCaps
  /-- Special characters become LaTeX sequences. -/
  | escape
  /-- Characters that an address must not have are encoded. -/
  | encodeUrls
  /-- Author lists are cut off after so many names. -/
  | maxAuthors (limit : Nat)
  /-- Fields of these names get a second pair of braces. -/
  | enclosingBraces (names : List Text)
deriving DecidableEq, Inhabited

/-- The text inside one pair of braces that encloses all of a text. -/
def enclosed? (s : Text) : Option Text :=
  match s with
  | '{' :: t =>
    match Scan.balanced '{' '}' t with
    | .closed inside [] => some inside
    | _ => none
  | _ => none

/-- Whether one pair of braces encloses all of a text: so in `{A {B}}`, but not
in `{A} {B}`. -/
def isEnclosed (s : Text) : Bool := (enclosed? s).isSome

theorem enclosed?_eq_some {s t : Text} (h : enclosed? s = some t) : s = '{' :: t ++ ['}'] := by
  unfold enclosed? at h
  split at h
  · split at h
    · next hb =>
      cases h
      rw [Scan.eq_of_balanced_closed hb]
      rfl
    · cases h
  · cases h

namespace Field

/-- Whether a field holds an identifier, whose spelling must not change. -/
def isIdentifier (f : Field) : Bool :=
  Url.isUrlField f.name
    || ["doi", "isbn", "issn"].any fun name => f.isNamed name.toList

end Field

namespace Normalization

/-- The place of a step in the order. -/
def rank : Normalization → Nat
  | curly => 0
  | stripEnclosingBraces => 1
  | numeric => 2
  | dropAllCaps => 3
  | escape => 4
  | encodeUrls => 5
  | maxAuthors _ => 6
  | enclosingBraces _ => 7

/-- Braces instead of quotation marks. -/
def toBraced : Segment → Segment
  | .quoted t => .braced t
  | s => s

/-- A segment without a redundant pair of braces. -/
def stripBraces (s : Segment) : Segment := s.withText ((enclosed? s.text).getD s.text)

/-- A segment with a second pair of braces. -/
def addBraces (s : Segment) : Segment :=
  if isEnclosed s.text then s else s.withText ('{' :: s.text ++ ['}'])

/-- A number, or in the month field a macro, as a bare token. -/
def toLiteral (isMonth : Bool) (s : Segment) : Segment :=
  let t := s.text.strip
  if Text.isDigits t then .literal t
  else if isMonth && MacroTable.isMonth t then .literal t.toLower
  else s

/-- An author list with the placeholder instead of the names after the first
few. -/
def truncateAuthors (limit : Nat) (s : Text) : Text :=
  let names := Names.split s
  if names.length ≤ limit then s
  else Names.join ((names.take limit).filter (!Names.isOthers ·) ++ [Names.others])

/-- The value of a field after a step. -/
def value (n : Normalization) (f : Field) : Value :=
  match n with
  | curly => f.value.map toBraced
  | stripEnclosingBraces => f.value.mapSole stripBraces
  | numeric => f.value.mapSole (toLiteral (f.isNamed "month".toList))
  | dropAllCaps =>
    if f.isIdentifier then f.value
    else f.value.mapDelimited fun t => if Capitals.isAllCaps t then Capitals.titleCase t else t
  | escape => if f.isIdentifier then f.value else f.value.mapDelimited Latex.escape
  | encodeUrls => if Url.isUrlField f.name then f.value.mapDelimited Url.encode else f.value
  | maxAuthors limit =>
    if f.isNamed "author".toList then
      f.value.mapSole fun s => s.withText (truncateAuthors limit s.text)
    else f.value
  | enclosingBraces names =>
    if names.any f.isNamed then f.value.mapSole addBraces else f.value

/-- Apply a step to a field, and tell whether that changed it. -/
def apply (n : Normalization) (f : Field) : Field × Bool :=
  ({ f with value := n.value f }, n.value f ≠ f.value)

/-- Steps in the order of their ranks; those of one rank keep their order. -/
def inOrder (ns : List Normalization) : List Normalization :=
  ns.mergeSort fun a b => a.rank ≤ b.rank

/-- Apply steps to a field, and tell whether any of them changed it. -/
def applyAll : List Normalization → Field → Field × Bool
  | [], f => (f, false)
  | n :: ns, f =>
    let (g, changed) := n.apply f
    let (h, more) := applyAll ns g
    (h, changed || more)

end Normalization

end Bibliography
