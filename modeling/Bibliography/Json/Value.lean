import Bibliography.Json.Number

/-!
# Bibliography.Json.Value

JSON values, and the machine that reads one from tokens.  The machine keeps
the arrays and objects that are open and what it expects next, and takes one
token at a time, so it ends with the tokens.
-/

namespace Bibliography

/-- A JSON value.  Members of an object stay in the order of the text. -/
inductive Json where
  | null
  | bool (b : Bool)
  | number (n : Json.Number)
  | text (t : Text)
  | array (items : List Json)
  | object (members : List (Text × Json))
deriving Inhabited

namespace Json

/-! ## tokens of a text -/

/-- The blanks between tokens. -/
def isSpace (c : Char) : Bool := c = ' ' || c = '\n' || c = '\t' || c = '\x0d'

/-- Read the rest of a word such as `true`; what follows a cut word is gone. -/
def scanWord (word s : Text) : Except Fault Text :=
  match word, s with
  | [], s => .ok s
  | _ :: _, [] => .error .ended
  | w :: ws, c :: s => if w = c then scanWord ws s else .error .malformed

theorem length_of_scanWord {w s r : Text} (h : scanWord w s = .ok r) : r.length ≤ s.length := by
  fun_induction scanWord w s with
  | case1 =>
    cases h
    exact Nat.le_refl _
  | case2 => cases h
  | case3 _ _ _ ih => exact Nat.le_succ_of_le (ih h)
  | case4 => cases h

/-- A word token, or its fault. -/
def wordToken (t : Token) (word s : Text) : Token × Text :=
  match scanWord word s with
  | .ok r => (t, r)
  | .error f => (.broken false f f, [])

/-- Read the token that a character begins; after a fault no text is left. -/
def token (c : Char) (s : Text) : Token × Text :=
  match c with
  | '{' => (.openObject, s)
  | '}' => (.closeObject, s)
  | '[' => (.openArray, s)
  | ']' => (.closeArray, s)
  | ',' => (.comma, s)
  | ':' => (.colon, s)
  | 'n' => wordToken .null "ull".toList s
  | 't' => wordToken (.bool true) "rue".toList s
  | 'f' => wordToken (.bool false) "alse".toList s
  | '"' =>
    match scanString s with
    | .closed content rest => (.text content, rest)
    | .broken r p => (.broken true r p, [])
  | c =>
    if c = '-' ∨ c.isDigit = true then
      match scanNumber (c :: s) with
      | .closed content rest => (.number content, rest)
      | .broken r p => (.broken false r p, [])
    else (.broken false .malformed .malformed, [])

theorem length_wordToken (t : Token) (word s : Text) :
    (wordToken t word s).2.length ≤ s.length := by
  unfold wordToken
  split
  · exact length_of_scanWord ‹_›
  · simp

theorem length_token (c : Char) (s : Text) : (token c s).2.length ≤ s.length := by
  unfold token
  split <;> try exact Nat.le_refl _
  · exact length_wordToken _ _ _
  · exact length_wordToken _ _ _
  · exact length_wordToken _ _ _
  · split
    · exact Nat.le_of_lt (length_of_scanString ‹_›)
    · simp
  · split
    · split
      · exact Nat.le_of_lt_succ (length_of_scanNumber ‹_›)
      · simp
    · simp

/-- The tokens of a text. -/
def tokens (s : Text) : List Token :=
  match s with
  | [] => []
  | c :: s => if isSpace c then tokens s else (token c s).1 :: tokens (token c s).2
termination_by s.length
decreasing_by
  · exact Nat.lt_succ_self _
  · exact Nat.lt_succ_of_le (length_token _ _)

/-! ## values of tokens -/

/-- An array or object that is open, with what it holds so far, last first. -/
inductive Frame where
  | array (items : List Json)
  | object (members : List (Text × Json)) (key : Text)

/-- Add a value to what is open. -/
def Frame.add (v : Json) : Frame → Frame
  | array items => array (v :: items)
  | object members key => object ((key, v) :: members) key

/-- The value of what is open, once it is closed. -/
def Frame.value : Frame → Json
  | array items => .array items.reverse
  | object members _ => .object members.reverse

/-- Whether an array is open. -/
def Frame.isArray : Frame → Bool
  | array _ => true
  | object .. => false

/-- What comes next. -/
inductive Expect where
  /-- A value; after an opening bracket also the closing one. -/
  | value (orClose : Bool)
  /-- A key; after an opening brace also the closing one. -/
  | key (orClose : Bool)
  | colon
  /-- A comma or a closing bracket. -/
  | separator

/-- How values are taken: a reader keeps to all rules and opens at most so many
arrays and objects inside each other, and one who passes over minds only the
brackets. -/
structure Manner where
  reads : Bool
  depth : Nat

/-- The fault of a token that breaks off. -/
def Manner.fault (m : Manner) (read passed : Fault) : Fault := if m.reads then read else passed

/-- The content of a string or number; one who passes over has no use for it. -/
def Manner.content {α : Type} (m : Manner) (default : α) (content : Except Fault α) :
    Except Fault α :=
  if m.reads then content else .ok default

/-- What the machine does with a token. -/
inductive Step where
  /-- The value is complete. -/
  | done (v : Json)
  | more (frames : List Frame) (expect : Expect)

/-- A value is complete: it goes to what is open, or it is the result. -/
def deliver (v : Json) : List Frame → Step
  | [] => .done v
  | f :: fs => .more (f.add v :: fs) .separator

/-- Open an array or an object. -/
def Manner.open (m : Manner) (f : Frame) (next : Expect) (frames : List Frame) :
    Except Fault Step :=
  if m.reads ∧ m.depth ≤ frames.length then .error .malformed else .ok (.more (f :: frames) next)

/-- Close what was opened last, which must be an array or an object as told. -/
def close (isArray : Bool) : List Frame → Except Fault Step
  | [] => .error .malformed
  | f :: fs => if f.isArray = isArray then .ok (deliver f.value fs) else .error .malformed

/-- A comma in what was opened last. -/
def afterComma : List Frame → Except Fault Step
  | [] => .error .malformed
  | .array items :: fs => .ok (.more (.array items :: fs) (.value false))
  | .object members key :: fs => .ok (.more (.object members key :: fs) (.key false))

/-- A key in what was opened last. -/
def setKey (key : Text) : List Frame → Except Fault Step
  | .object members _ :: fs => .ok (.more (.object members key :: fs) .colon)
  | _ => .error .malformed

/-- Take a token. -/
def Manner.step (m : Manner) (frames : List Frame) (expect : Expect) (t : Token) :
    Except Fault Step :=
  match expect, t with
  | .value _, .null => .ok (deliver .null frames)
  | .value _, .bool b => .ok (deliver (.bool b) frames)
  | .value _, .text content => (m.content [] content).map fun s => deliver (.text s) frames
  | .value _, .number content => (m.content none content).map fun n => deliver (.number n) frames
  | .value _, .openArray => m.open (.array []) (.value true) frames
  | .value _, .openObject => m.open (.object [] []) (.key true) frames
  | .value _, .broken _ r p => .error (m.fault r p)
  | .value true, .closeArray => close true frames
  | .key _, .text content => (m.content [] content).bind fun key => setKey key frames
  | .key _, .broken true r p => .error (m.fault r p)
  | .key true, .closeObject => close false frames
  | .colon, .colon => .ok (.more frames (.value false))
  | .separator, .comma => afterComma frames
  | .separator, .closeArray => close true frames
  | .separator, .closeObject => close false frames
  | _, _ => .error .malformed

/-- Read a value, with the tokens after it. -/
def readValue (m : Manner) (frames : List Frame) (expect : Expect) :
    List Token → Except Fault (Json × List Token)
  | [] => .error .ended
  | t :: ts =>
    match m.step frames expect t with
    | .error f => .error f
    | .ok (.done v) => .ok (v, ts)
    | .ok (.more frames expect) => readValue m frames expect ts

/-- A value takes at least one token. -/
theorem length_of_readValue {m : Manner} {frames : List Frame} {expect : Expect}
    {ts rest : List Token} {v : Json} (h : readValue m frames expect ts = .ok (v, rest)) :
    rest.length < ts.length := by
  induction ts generalizing frames expect with
  | nil => cases h
  | cons t ts ih =>
    rw [readValue] at h
    split at h
    · cases h
    · cases h
      exact Nat.lt_succ_self _
    · exact Nat.lt_succ_of_lt (ih h)

/-- Values are nested no deeper than this. -/
def depthLimit : Nat := 127

/-- The value of a text that holds one value and no more. -/
def parse (s : Text) : Except Fault Json :=
  match readValue ⟨true, depthLimit⟩ [] (.value false) (tokens s) with
  | .ok (v, []) => .ok v
  | .ok (_, _ :: _) => .error .malformed
  | .error f => .error f

end Json

end Bibliography
