import Bibliography.Names
import Bibliography.Offset.Slice

/-!
# Bibliography.Offset.Names

Lists of authors by offsets: the octets of a list are searched for the separators
of its names, and those of a name for its comma and its blanks; the names and the
surname are slices.
-/

namespace Bibliography.Offset

/-- Whether the three letters of `and` and a blank stand at an offset. -/
def isAnd? (b : Text) (word : Nat) : Option Bool :=
  if word + 3 < b.length then do
    let letters ← octets? b word (word + 3)
    if Text.eqIgnoreAsciiCase letters ['a', 'n', 'd'] then
      let x ← b[word + 3]?
      return Text.isBlank x
    else return false
  else some false

/-- The beginnings and ends of the names in octets; one has begun at `start`. -/
def nameSpans (b : Text) (depth start pos : Nat) : Option (List (Nat × Nat)) :=
  if h : pos < b.length then
    if depth = 0 ∧ Text.isBlank b[pos] = true then do
      if ← isAnd? b (pos + 1) then
        let spans ← nameSpans b depth (pos + 5) (pos + 5)
        return (start, pos) :: spans
      else nameSpans b depth start (pos + 1)
    else nameSpans b (Names.depthAfter depth b[pos]) start (pos + 1)
  else some [(start, b.length)]
termination_by b.length - pos

/-- The names of an author list; empty ones are left out. -/
def names (s : Text) : Option (List Text) := do
  let spans ← nameSpans s.octets 0 0 0
  let pieces ← spans.mapM fun span => slice? s span.1 span.2
  return (pieces.map Text.strip).filter (· ≠ [])

/-- The offset of the first comma outside of braces, the first octet being at `pos`. -/
def comma? (depth pos : Nat) : Text → Option Nat
  | [] => none
  | x :: b =>
    if x = ',' ∧ depth = 0 then some pos else comma? (Names.depthAfter depth x) (pos + 1) b

/-- The offset after the last blank outside of braces, or else `start`; the first octet is at
`pos`. -/
def wordStart (depth start pos : Nat) : Text → Nat
  | [] => start
  | x :: b =>
    if Text.isBlank x = true ∧ depth = 0 then wordStart depth (pos + 1) (pos + 1) b
    else wordStart (Names.depthAfter depth x) start (pos + 1) b

/-- The surname of a name. -/
def surname (s : Text) : Option Text := do
  let name := s.strip
  match comma? 0 0 name.octets with
  | some comma => return (← slice? name 0 comma).strip
  | none => sliceFrom? name (wordStart 0 0 0 name.octets)

end Bibliography.Offset
