import Bibliography.Latex.Table

/-!
# Bibliography.Latex.Escape

Replacing characters by LaTeX sequences.  Commands, and mathematics between two
dollar signs, are copied; a reading position is in one of four modes, and only
in plain text are characters replaced.
-/

namespace Bibliography.Latex

/-- Where a reading position is. -/
inductive Mode where
  | plain
  /-- Just after a backslash. -/
  | backslash
  /-- In the letters of a command. -/
  | letters
  /-- After a dollar sign that is not closed yet. -/
  | math
deriving DecidableEq, Inhabited

namespace Mode

/-- The mode after a character of plain text. -/
def enter (c : Char) : Mode :=
  if c = '\\' then backslash else if c = '$' then math else plain

/-- The mode after a character. -/
def after : Mode → Char → Mode
  | plain, c => enter c
  | backslash, c => if c.isAlpha then letters else plain
  | letters, c => if c.isAlpha then letters else enter c
  | math, c => if c = '$' then plain else math

/-- Whether a character is plain text here; a letter that continues a command
is not. -/
def isPlain : Mode → Char → Bool
  | plain, _ => true
  | letters, c => !c.isAlpha
  | _, _ => false

end Mode

/-- What a character becomes. -/
def replaced (m : Mode) (c : Char) : Text :=
  if m.isPlain c then (latexFor c).getD [c] else [c]

/-- Replace characters from a mode on. -/
def escapeFrom (m : Mode) : Text → Text
  | [] => []
  | c :: s => replaced m c ++ escapeFrom (m.after c) s

/-- Replace characters by LaTeX sequences. -/
def escape (s : Text) : Text := escapeFrom .plain s

/-- The mode after a text. -/
def Mode.run (m : Mode) (s : Text) : Mode := s.foldl Mode.after m

end Bibliography.Latex
