import Bibliography.Unicode.WhiteSpace
import Bibliography.Unicode.Case.Lower

/-!
# Bibliography.CitationKey.Template

Templates of citation keys such as `[auth:lower][year][veryshorttitle]`: runs
of literal text, and groups in square brackets that name a marker and its
modifiers.

A template is cut from left to right into literal runs and groups, a group
reaching from a `[` to the next `]`.  It is refused at its first faulty group,
with the place of that group's bracket in octets.
-/

namespace Bibliography

/-- What a group of a template stands for. -/
inductive Marker where
  /-- The surname of the first author. -/
  | auth
  /-- The first surname, then the second or `EtAl`. -/
  | authEtAl
  /-- All surnames or the first few, then `EtAl` if some are left out. -/
  | authors (limit : Option Nat)
  /-- All title words or the first few, capitalized. -/
  | title (limit : Option Nat)
  /-- The first three title words. -/
  | shortTitle
  /-- The first title word. -/
  | veryShortTitle
  /-- The first four digits in a row of the year or the date. -/
  | year
  /-- The place of a collision suffix of letters. -/
  | duplicateLetter
  /-- The place of a collision suffix of digits. -/
  | duplicateNumber
  /-- The words of the field of a name. -/
  | field (name : Text)
deriving DecidableEq, Inhabited

/-- What is done to the text of a marker. -/
inductive Modifier where
  | upper
  | lower
  | capitalize
  /-- The entry keeps its key if the marker is empty. -/
  | required
  /-- At most this many characters are kept. -/
  | truncate (length : Nat)
deriving DecidableEq, Inhabited

/-- A piece of a template. -/
inductive TemplatePart where
  | literal (text : Text)
  | marker (marker : Marker) (modifiers : List Modifier)
deriving DecidableEq, Inhabited

/-- A key template: its pieces in order. -/
abbrev KeyTemplate := List TemplatePart

/-- Why a template is refused. -/
inductive TemplateError where
  /-- The `[` at a place has no `]` after it. -/
  | unclosedMarker (position : Nat)
  /-- The group at a place names no marker. -/
  | emptyMarker (position : Nat)
  /-- A modifier that there is not. -/
  | unknownModifier (marker modifier : Text)
deriving DecidableEq, Inhabited

/-- The wording of a refusal. -/
def TemplateError.message : TemplateError → String
  | unclosedMarker position => s!"unclosed marker starting at byte {position} in key template"
  | emptyMarker position => s!"empty marker at byte {position} in key template"
  | unknownModifier marker modifier =>
    let marker := String.ofList marker
    let modifier := String.ofList modifier
    s!"unknown modifier '{modifier}' on marker '{marker}'"

namespace Marker

/-- The number after a stem, as in `authors3`. -/
def count? (stem name : Text) : Option Nat :=
  if stem.isPrefixOf name then Text.toNatBelow? Text.bound64 (name.drop stem.length) else none

/-- The marker of a name. -/
def ofName (name : Text) : Marker :=
  if name = "auth".toList then auth
  else if name = "authEtAl".toList then authEtAl
  else if name = "authors".toList then authors none
  else if name = "title".toList then title none
  else if name = "shorttitle".toList then shortTitle
  else if name = "veryshorttitle".toList then veryShortTitle
  else if name = "year".toList then year
  else if name = "duplicateLetter".toList then duplicateLetter
  else if name = "duplicateNumber".toList then duplicateNumber
  else match count? "authors".toList name with
    | some n => authors (some n)
    | none => match count? "title".toList name with
      | some n => title (some n)
      | none => field name.toLower

/-- Whether the marker is the place of a collision suffix. -/
def isSuffixPlace : Marker → Bool
  | duplicateLetter | duplicateNumber => true
  | _ => false

end Marker

/-- The modifier of a name: a word, or a number that truncates. -/
def Modifier.ofName? (name : Text) : Option Modifier :=
  if name = "upper".toList then some upper
  else if name = "lower".toList then some lower
  else if name = "capitalize".toList then some capitalize
  else if name = "required".toList then some required
  else (Text.toNatBelow? Text.bound64 name).map truncate

namespace KeyTemplate

/-- Read the modifiers of a marker; the first unknown one is reported. -/
def modifiers (marker : Text) : List Text → Except TemplateError (List Modifier)
  | [] => .ok []
  | name :: names =>
    match Modifier.ofName? name.strip with
    | none => .error (.unknownModifier marker name.strip)
    | some m => (modifiers marker names).map (m :: ·)

/-- Read the group with the bracket at a place. -/
def group (position : Nat) (body : Text) : Except TemplateError TemplatePart :=
  match Text.splitWhere (· = ':') body with
  | [] => .error (.emptyMarker position)
  | name :: names =>
    if name.strip = [] then .error (.emptyMarker position)
    else (modifiers name.strip names).map (.marker (Marker.ofName name.strip) ·)

/-- A run of literal text as template pieces; an empty run is none. -/
def literal (t : Text) : KeyTemplate := if t = [] then [] else [.literal t]

/-- Read the text of a template from an offset on. -/
def parseFrom (offset : Nat) (s : Text) : Except TemplateError KeyTemplate :=
  let run := s.takeWhile (· ≠ '[')
  match _ : s.dropWhile (· ≠ '[') with
  | [] => .ok (literal run)
  | _ :: r =>
    let position := offset + Text.utf8Size run
    let body := r.takeWhile (· ≠ ']')
    match _ : r.dropWhile (· ≠ ']') with
    | [] => .error (.unclosedMarker position)
    | _ :: rest => do
      let part ← group position body
      let parts ← parseFrom (position + Text.utf8Size body + 2) rest
      return literal run ++ part :: parts
termination_by s.length
decreasing_by
  exact Nat.lt_trans (Text.length_lt_of_dropWhile ‹r.dropWhile _ = _›)
    (Text.length_lt_of_dropWhile ‹s.dropWhile _ = _›)

/-- Read a template. -/
def parse (s : Text) : Except TemplateError KeyTemplate := parseFrom 0 s

/-- Whether collision suffixes are numbers rather than letters. -/
def usesNumbers (t : KeyTemplate) : Bool := t.any fun
  | .marker m _ => m = .duplicateNumber
  | .literal _ => false

end KeyTemplate

end Bibliography
