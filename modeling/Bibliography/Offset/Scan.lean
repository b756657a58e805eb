import Bibliography.Offset.Slice
import Bibliography.Scan

/-!
# Bibliography.Offset.Scan

The scanners by offsets.  A scanner is given all octets of a text and the offset
where it begins, and tells the offset where it stopped.  It looks only at the
octets that matter to it; `none` is an octet or a slice out of range.
-/

namespace Bibliography.Offset

/-- Why the scan for a closing character failed. -/
inductive ScanError where
  /-- The text ends with `depth` brackets open, the outer one not counted. -/
  | unterminated (depth : Nat)
  /-- The bracket at a place closes nothing. -/
  | unexpectedClose (place : Nat)
deriving DecidableEq, Inhabited

/-- The end of a run of octets of a class. -/
def skip (p : Char → Bool) (b : Text) (pos : Nat) : Nat :=
  if h : pos < b.length then
    if p b[pos] then skip p b (pos + 1) else pos
  else pos
termination_by b.length - pos

/-- The end of a run of blanks. -/
def skipBlank : Text → Nat → Nat := skip Text.isBlank

/-- The two brackets of a pair. -/
def isBracket (opening closing x : Char) : Bool := x = opening || x = closing

/-- Pass the brackets at these offsets from `start`, up to the first closing one that has no
opening one, `depth` brackets being open. -/
def balancedLoop (opening : Char) (b : Text) (start depth : Nat) :
    List Nat → Option (Except ScanError Nat)
  | [] => some (.error (.unterminated depth))
  | offset :: offsets => do
    let x ← b[start + offset]?
    if x = opening then balancedLoop opening b start (depth + 1) offsets
    else match depth with
      | 0 => return .ok (start + offset)
      | depth + 1 => balancedLoop opening b start depth offsets

/-- The offset of the first closing bracket that has no opening one. -/
def balanced (opening closing : Char) (b : Text) (start : Nat) : Option (Except ScanError Nat) := do
  let rest ← octetsFrom? b start
  balancedLoop opening b start 0 (allFrom (isBracket opening closing) 0 rest)

/-- Quotation marks and braces. -/
def isMarkOrBrace (x : Char) : Bool := x = '"' || x = '{' || x = '}'

/-- Pass the marks and braces at these offsets from `start`, up to a mark that closes. -/
def quotedLoop (b : Text) (start depth : Nat) : List Nat → Option (Except ScanError Nat)
  | [] => some (.error (.unterminated depth))
  | offset :: offsets => do
    let x ← b[start + offset]?
    if x = '"' then
      let before ← octets? b start (start + offset)
      let slashes := (before.reverse.takeWhile (· = '\\')).length
      if depth = 0 ∧ slashes % 2 = 0 then return .ok (start + offset)
      else quotedLoop b start depth offsets
    else if x = '{' then quotedLoop b start (depth + 1) offsets
    else match depth with
      | 0 => return .error (.unexpectedClose (start + offset))
      | depth + 1 => quotedLoop b start depth offsets

/-- The offset of the closing quotation mark. -/
def quoted (b : Text) (start : Nat) : Option (Except ScanError Nat) := do
  let rest ← octetsFrom? b start
  quotedLoop b start 0 (allFrom isMarkOrBrace 0 rest)

/-- What the scan of a payload finds: where it stopped, and the brackets left open. -/
structure PayloadScan where
  stop : Nat
  braces : Nat
  parens : Nat
deriving DecidableEq, Inhabited

/-- Braces, and the closing bracket of a payload. -/
def isPayloadBracket (closing x : Char) : Bool := x = '{' || x = '}' || x = closing

/-- Pass the brackets at these offsets from `start`, up to one that closes the payload. -/
def payloadLoop (closing : Char) (b : Text) (start braces : Nat) : List Nat → Option PayloadScan
  | [] => some (if closing = '}' then ⟨b.length, braces + 1, 0⟩ else ⟨b.length, braces, 1⟩)
  | offset :: offsets => do
    let x ← b[start + offset]?
    if x = '{' then payloadLoop closing b start (braces + 1) offsets
    else if x = '}' then
      if closing = '}' then
        match braces with
        | 0 => return ⟨start + offset, 0, 0⟩
        | braces + 1 => payloadLoop closing b start braces offsets
      -- A brace too many is passed over.
      else payloadLoop closing b start (braces - 1) offsets
    else if braces = 0 then return ⟨start + offset, 0, 0⟩
    else payloadLoop closing b start braces offsets

/-- The end of a payload. -/
def payload (closing : Char) (b : Text) (start : Nat) : Option PayloadScan := do
  let rest ← octetsFrom? b start
  payloadLoop closing b start 0 (allFrom (isPayloadBracket closing) 0 rest)

/-- Whether an `@` at the start of a line stands at an offset. -/
def isLineBlock? (b : Text) : Nat → Option Bool
  | 0 => some false
  | pos + 1 => do
    let x ← b[pos]?
    return x = '\n' && b[pos + 1]? = some '@'

/-- The offset of the next `@` at the start of a line, or of the end. -/
def lineBlock? (b : Text) (start : Nat) : Option Nat := do
  let rest ← octetsFrom? b start
  match findOctets? ['\n', '@'] rest with
  | some offset => return start + offset + 1
  | none => return b.length

end Bibliography.Offset
