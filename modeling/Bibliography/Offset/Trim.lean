import Bibliography.CitationKey.Template
import Bibliography.Offset.Scan

/-!
# Bibliography.Offset.Trim

Texts that are cut down by offsets: a pair of braces around a text, the blank
lines before it, and the groups of a key template, which is cut off group by
group.
-/

namespace Bibliography.Offset

/-! ## braces and blank lines -/

/-- Whether one pair of braces encloses all of these octets. -/
def isEnclosed? (b : Text) : Option Bool :=
  match b.length with
  | n + 2 => do
    let first ← b[0]?
    let last ← b[n + 1]?
    if first = '{' ∧ last = '}' then
      match ← balanced '{' '}' b 1 with
      | .ok stop => return stop = n + 1
      | .error _ => return false
    else return false
  | _ => some false

/-- A text without a redundant pair of braces. -/
def stripBraces (t : Text) : Option Text := do
  if ← isEnclosed? t.octets then
    match t.octets.length with
    | 0 => none
    | n + 1 => slice? t 1 n
  else return t

/-- Free text without blank lines before it and white space after it. -/
def trimBlankLines (t : Text) : Option Text :=
  let s := t.stripEnd
  match find? (!Unicode.isWhiteSpace ·) s with
  | none => some []
  | some first => do
    let blank ← slice? s 0 first
    match findLast? (· = '\n') blank with
    | none => sliceFrom? s 0
    | some feed => sliceFrom? s (feed + 1)

/-! ## key templates -/

/-- Read what is left of a template, which begins at an offset of the whole. -/
def templateLoop (rest : Text) (offset : Nat) : Option (Except TemplateError KeyTemplate) :=
  match find? (· = '[') rest with
  | none => some (.ok (KeyTemplate.literal rest))
  | some opening => do
    let run ← slice? rest 0 opening
    let tail ← sliceFrom? rest opening
    match find? (· = ']') tail with
    | none => return .error (.unclosedMarker (offset + opening))
    | some closing =>
      let body ← slice? rest (opening + 1) (opening + closing)
      match KeyTemplate.group (offset + opening) body with
      | .error e => return .error e
      | .ok part =>
        match _ : sliceFrom? rest (opening + closing + 1) with
        | none => none
        | some next =>
          match ← templateLoop next (offset + (opening + closing + 1)) with
          | .error e => return .error e
          | .ok parts => return .ok (KeyTemplate.literal run ++ part :: parts)
termination_by rest.length
decreasing_by exact length_lt_of_sliceFrom? ‹_›

/-- Read a template. -/
def template (s : Text) : Option (Except TemplateError KeyTemplate) := templateLoop s 0

end Bibliography.Offset
