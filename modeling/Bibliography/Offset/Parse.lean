import Bibliography.Offset.Scan
import Bibliography.Parse.Document

/-!
# Bibliography.Offset.Parse

Reading a bibliography by offsets.  Nothing but an offset is carried from one
reader to the next, and every piece of text is a slice between two of them.  A
slice that does not exist, or a loop that does not move on, is `none`.
-/

namespace Bibliography.Offset

/-- A block that could not be understood at a place. -/
structure Malformed where
  place : Nat
  reason : Malformation
deriving DecidableEq, Inhabited

/-! ## values -/

/-- What stands where a segment may begin. -/
inductive SegmentFound where
  | read (segment : Segment) (stop : Nat)
  | absent
  /-- A segment that runs to the end of the input. -/
  | cut (segment : Segment)
  | malformed (fault : Malformed)
deriving DecidableEq, Inhabited

/-- A value and where it ends; one that is not complete runs to the end of the input. -/
structure ValueFound where
  stop : Nat
  value : Value
  complete : Bool
deriving DecidableEq, Inhabited

/-- Read a segment. -/
def segment (s : Text) (close : Char) (pos : Nat) : Option SegmentFound :=
  match s.octets[pos]? with
  | none => some .absent
  | some x =>
    if x = '{' then do
      match ← balanced '{' '}' s.octets (pos + 1) with
      | .ok stop => return .read (.braced (← slice? s (pos + 1) stop)) (stop + 1)
      | .error _ => return .cut (.braced (← sliceFrom? s (pos + 1)))
    else if x = '"' then do
      match ← quoted s.octets (pos + 1) with
      | .ok stop => return .read (.quoted (← slice? s (pos + 1) stop)) (stop + 1)
      | .error (.unterminated _) => return .cut (.quoted (← sliceFrom? s (pos + 1)))
      | .error (.unexpectedClose place) => return .malformed ⟨place, .strayBrace⟩
    else if x = close then some .absent
    else
      let stop := skip Scan.isLiteralChar s.octets pos
      if stop = pos then some .absent
      else do return .read (.literal (← slice? s pos stop)) stop

/-- A value without another segment at a place: it may be empty, but not end with a `#`. -/
def withoutSegment (v : Value) (pos : Nat) : Except Malformed ValueFound :=
  if v = [] then .ok ⟨pos, v, true⟩ else .error ⟨pos, .segmentAfterHash⟩

/-- Read the segments that follow those of `v`. -/
def valueLoop (s : Text) (close : Char) (v : Value) (pos : Nat) :
    Option (Except Malformed ValueFound) := do
  if ← isLineBlock? s.octets pos then return withoutSegment v pos
  else match ← segment s close pos with
    | .absent => return withoutSegment v pos
    | .cut seg => return .ok ⟨s.octets.length, v ++ [seg], false⟩
    | .malformed fault => return .error fault
    | .read seg stop =>
      let hash := skipBlank s.octets stop
      if s.octets[hash]? = some '#' then
        let next := skipBlank s.octets (hash + 1)
        if _ : IsOnward s.octets.length pos next then valueLoop s close (v ++ [seg]) next
        else none
      else return .ok ⟨stop, v ++ [seg], true⟩
termination_by s.octets.length - pos
decreasing_by exact IsOnward.sub_lt ‹_›

/-- Read a value. -/
def value (s : Text) (close : Char) (start : Nat) : Option (Except Malformed ValueFound) :=
  valueLoop s close [] (skipBlank s.octets start)

/-! ## entries -/

/-- What separates two items of an entry. -/
inductive SeparatorFound where
  | comma (stop : Nat)
  | closing (stop : Nat)
  | ended (place : Nat)
  | missing (place : Nat)
deriving DecidableEq, Inhabited

/-- An entry, where it ends, and what was found about it. -/
structure EntryFound where
  stop : Nat
  entry : Entry
  causes : List Cause
deriving DecidableEq, Inhabited

/-- An entry that has no closing bracket before a place. -/
def unclosed (s : Text) (place : Nat) (e : Entry) : EntryFound :=
  ⟨place, e, [.unclosedEntry (place = s.octets.length)]⟩

/-- Read the separator after an item. -/
def separator (b : Text) (close : Char) (pos : Nat) : Option SeparatorFound :=
  let pos := skipBlank b pos
  match b[pos]? with
  | none => some (.ended b.length)
  | some x =>
    if x = ',' then some (.comma (pos + 1))
    else if x = close then some (.closing (pos + 1))
    else do
      if ← isLineBlock? b pos then return .ended pos else return .missing pos

/-- What is done after an item of an entry. -/
inductive FieldsStep where
  /-- More fields are looked for, after those of `entry`. -/
  | more (entry : Entry) (pos : Nat)
  | done (result : Except Malformed EntryFound)

/-- Go on after an item of `e`; `reason` is the fault of an item without a separator. -/
def afterItem (s : Text) (close : Char) (e : Entry) (reason : Malformation) (pos : Nat) :
    Option FieldsStep := do
  match ← separator s.octets close pos with
  | .comma stop => return .more e stop
  | .closing stop => return .done (.ok ⟨stop, e, []⟩)
  | .ended place => return .done (.ok (unclosed s place e))
  | .missing place => return .done (.error ⟨place, reason⟩)

/-- Read a field name, and tell where its value begins. -/
def fieldName (s : Text) (pos : Nat) : Option (Except Malformed (Text × Nat)) :=
  let nameEnd := skip Scan.isKeyChar s.octets pos
  if nameEnd = pos then some (.error ⟨pos, .fieldName⟩)
  else
    let equals := skipBlank s.octets nameEnd
    if s.octets[equals]? = some '=' then do return .ok (← slice? s pos nameEnd, equals + 1)
    else some (.error ⟨equals, .equalsAfterName⟩)

/-- Read a field that follows those of `e`, with its separator. -/
def field (s : Text) (close : Char) (e : Entry) (pos : Nat) : Option FieldsStep := do
  match ← fieldName s pos with
  | .error fault => return .done (.error fault)
  | .ok (name, start) =>
    match ← value s close start with
    | .error fault => return .done (.error fault)
    | .ok found =>
      let e := { e with fields := e.fields ++ [⟨name, found.value⟩] }
      if found.complete then afterItem s close e .commaAfterValue found.stop
      else return .done (.ok (unclosed s s.octets.length e))

/-- Read what follows the fields of `e`: the end of the entry, a comma, or a field. -/
def fieldsStep (s : Text) (close : Char) (e : Entry) (pos : Nat) : Option FieldsStep :=
  let pos := skipBlank s.octets pos
  match s.octets[pos]? with
  | none => some (.done (.ok (unclosed s s.octets.length e)))
  | some x =>
    if x = close then some (.done (.ok ⟨pos + 1, e, []⟩))
    else if x = ',' then some (.more e (pos + 1))
    else do
      if ← isLineBlock? s.octets pos then return .done (.ok (unclosed s pos e))
      else field s close e pos

/-- Read fields, step by step. -/
def fields (s : Text) (close : Char) (e : Entry) (pos : Nat) :
    Option (Except Malformed EntryFound) := do
  match ← fieldsStep s close e pos with
  | .done result => return result
  | .more e next =>
    if _ : IsOnward s.octets.length pos next then fields s close e next else none
termination_by s.octets.length - pos
decreasing_by exact IsOnward.sub_lt ‹_›

/-- Read the body of an entry. -/
def entry (s : Text) (close : Char) (start : Nat) : Option (Except Malformed EntryFound) := do
  let pos := skipBlank s.octets start
  if ← isLineBlock? s.octets pos then return .ok (unclosed s pos {})
  else
    let keyEnd := skip Scan.isKeyChar s.octets pos
    if pos < keyEnd then
      if s.octets[skipBlank s.octets keyEnd]? = some '=' then fields s close {} pos
      else
        let key ← slice? s pos keyEnd
        match ← afterItem s close { key := some key } .commaAfterKey keyEnd with
        | .done result => return result
        | .more e next => fields s close e next
    else if s.octets[pos]? = some ',' then fields s close {} (pos + 1)
    else fields s close {} pos

/-! ## blocks -/

/-- A block, where it ends, and what was found about it. -/
structure BlockFound where
  stop : Nat
  block : Block
  causes : List Cause
deriving DecidableEq, Inhabited

/-- The next `@` at the start of a line, from the place where a block failed on. -/
def verbatimLimit (b : Text) (failed : Nat) : Option Nat := do
  if ← isLineBlock? b failed then return failed else lineBlock? b failed

/-- The end of a block that failed at a place: its closing bracket is looked for in the octets up
to the next `@` at the start of a line. -/
def verbatimEnd (d : Delimiter) (b : Text) (bodyStart failed : Nat) : Option Nat := do
  let limit ← verbatimLimit b failed
  let body ← octets? b 0 limit
  match ← balanced d.opening d.closing body bodyStart with
  | .ok close => return if failed ≤ close then close + 1 else limit
  | .error _ => return limit

/-- Read a block whose body is not read any further. -/
def payloadBlock (s : Text) (kind : BlockKind) (command : Text) (d : Delimiter) (bodyStart : Nat) :
    Option BlockFound := do
  let scan ← payload d.closing s.octets bodyStart
  let p : Payload := ⟨← slice? s bodyStart scan.stop, scan.braces, scan.parens⟩
  let block : Block := { command, delimiter := d, body := .ofPayload kind p }
  if p.isClosed then return ⟨scan.stop + 1, block, []⟩
  else return ⟨scan.stop, block, [.unclosedPayload command]⟩

/-- Read an entry, or keep it as it is. -/
def entryBlock (s : Text) (start : Nat) (command : Text) (d : Delimiter) (bodyStart : Nat) :
    Option BlockFound := do
  match ← entry s d.closing bodyStart with
  | .ok found =>
    return ⟨found.stop, { command, delimiter := d, body := .entry found.entry },
      Cursor.keyCauses command found.entry ++ found.causes⟩
  | .error fault =>
    let stop ← verbatimEnd d s.octets bodyStart fault.place
    return ⟨stop, { command, delimiter := d, body := .verbatim (← slice? s start stop) },
      [.malformed command fault.reason]⟩

/-- Read what follows the opening bracket of a block. -/
def blockBody (s : Text) (start : Nat) (command : Text) (d : Delimiter) (bodyStart : Nat) :
    Option BlockFound :=
  match BlockKind.ofCommand command with
  | .entry => entryBlock s start command d bodyStart
  | kind => payloadBlock s kind command d bodyStart

/-- Read the block of the `@` at an offset, unless the `@` begins none. -/
def block? (s : Text) (start : Nat) : Option (Option BlockFound) :=
  let commandEnd := skip Scan.isCommandChar s.octets (start + 1)
  if commandEnd = start + 1 then some none
  else do
    let command ← slice? s (start + 1) commandEnd
    let opening := skipBlank s.octets commandEnd
    match s.octets[opening]?.bind Delimiter.ofOpening? with
    | none => return none
    | some d => return some (← blockBody s start command d (opening + 1))

/-- Free text between two offsets, unless there is none. -/
def freeText (s : Text) (i j : Nat) : Option (List Piece) :=
  if i < j then (slice? s i j).map fun t => [.text t] else some []

/-- Cut a text into pieces from an offset on; free text has begun at `textStart`. -/
def piecesFrom (s : Text) (textStart pos : Nat) : Option (List Piece) := do
  let rest ← octetsFrom? s.octets pos
  match rest.findIdx? (· = '@') with
  | none => freeText s textStart s.octets.length
  | some offset =>
    match ← block? s (pos + offset) with
    | none =>
      if _ : IsOnward s.octets.length pos (pos + offset + 1) then
        piecesFrom s textStart (pos + offset + 1)
      else none
    | some found =>
      let text ← freeText s textStart (pos + offset)
      let source ← slice? s (pos + offset) found.stop
      if _ : IsOnward s.octets.length pos found.stop then
        let pieces ← piecesFrom s found.stop found.stop
        return text ++ .block { found.block with source } found.causes :: pieces
      else none
termination_by s.octets.length - pos
decreasing_by all_goals exact IsOnward.sub_lt ‹_›

/-- Cut a text into blocks and free text. -/
def pieces (s : Text) : Option (List Piece) := piecesFrom s 0 0

/-- Read a bibliography, with the warnings about its blocks in order. -/
def parse (s : Text) : Option (Document × List Warning) := do
  let ps ← pieces s
  return (Document.ofPieces ps, ps.zipIdx.flatMap fun (p, id) => p.warnings id)

end Bibliography.Offset
