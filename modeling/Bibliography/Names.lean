import Bibliography.Unicode.WhiteSpace

/-!
# Bibliography.Names

Lists of authors and the surnames in them.  A word inside braces is not looked
into: neither the `and` between names nor the comma of a name counts there.
-/

namespace Bibliography.Names

/-- The depth of braces after a character; a brace too many is passed over. -/
def depthAfter (depth : Nat) (c : Char) : Nat :=
  if c = '{' then depth + 1 else if c = '}' then depth - 1 else depth

/-- Whether a character is the second blank of an ` and ` whose letters are
given. -/
def isAnd (a n d blank : Char) : Bool :=
  a.toLower = 'a' && n.toLower = 'n' && d.toLower = 'd' && Text.isBlank blank

/-- Put a character in front of the first piece. -/
def consFirst (c : Char) : List Text → List Text
  | [] => [[c]]
  | w :: ws => (c :: w) :: ws

/-- Cut a list of names at every ` and ` outside of braces. -/
def pieces (depth : Nat) (s : Text) : List Text :=
  match s with
  | [] => [[]]
  | b :: a :: n :: d :: e :: s =>
    if depth = 0 ∧ Text.isBlank b = true ∧ isAnd a n d e = true then [] :: pieces 0 s
    else consFirst b (pieces (depthAfter depth b) (a :: n :: d :: e :: s))
  | c :: s => consFirst c (pieces (depthAfter depth c) s)
termination_by s.length

/-- The names of an author list; empty ones are left out. -/
def split (s : Text) : List Text := ((pieces 0 s).map Text.strip).filter (· ≠ [])

/-- Names as an author list. -/
def join (names : List Text) : Text := Text.joinWith " and ".toList names

/-- The placeholder of names that are left out. -/
def others : Text := "others".toList

/-- Whether a name is the placeholder. -/
def isOthers (name : Text) : Bool := Text.eqIgnoreAsciiCase name.strip others

/-- The part of a name before its first comma outside of braces, if it has
such a comma. -/
def beforeComma? (depth : Nat) : Text → Option Text
  | [] => none
  | c :: s =>
    if c = ',' ∧ depth = 0 then some []
    else (beforeComma? (depthAfter depth c) s).map (c :: ·)

/-- The part of a name after its last blank outside of braces; `word` is what
follows the last one so far, read backwards. -/
def lastWord (depth : Nat) (word : Text) : Text → Text
  | [] => word.reverse
  | c :: s =>
    if Text.isBlank c ∧ depth = 0 then lastWord depth [] s
    else lastWord (depthAfter depth c) (c :: word) s

/-- The surname of a name: what stands before the comma of `Last, First`, or
else the last word. -/
def surname (name : Text) : Text :=
  match beforeComma? 0 name.strip with
  | some t => t.strip
  | none => lastWord 0 [] name.strip

end Bibliography.Names
