import Bibliography.Latex.Table
import Bibliography.Unicode.Alphabetic
import Bibliography.Unicode.WhiteSpace

/-!
# Bibliography.Latex.Fold

Reducing LaTeX text to plain ASCII.  Commands, braces and dollar signs are
dropped, but the commands that stand for letters leave their letters; a letter
beyond ASCII leaves the letters of its sequence, and white space a space.
-/

namespace Bibliography.Latex

/-- The name of the command after a backslash: a run of letters, or one other
character. -/
def commandName (s : Text) : Text :=
  match s.takeWhile Char.isAlpha with
  | [] => s.take 1
  | name => name

/-- The commands that stand for letters. -/
def letterCommands : List Text :=
  ["ss", "ae", "AE", "oe", "OE", "o", "O", "l", "L", "aa", "AA", "i", "j"].map String.toList

/-- What a command leaves. -/
def foldCommand (name : Text) : Text := if name ∈ letterCommands then name else []

/-- What a character leaves. -/
def foldChar (c : Char) : Text :=
  if c = '{' ∨ c = '}' ∨ c = '$' then []
  else if c.toNat < 128 then [c]
  else if Unicode.isWhiteSpace c then [' ']
  else if Unicode.isAlphabetic c then ((sequence? c).map Sequence.letters).getD []
  else []

/-- Reduce a text to plain ASCII. -/
def fold (s : Text) : Text :=
  match s with
  | [] => []
  | c :: s =>
    if c = '\\' then
      foldCommand (commandName s) ++ fold (s.drop (commandName s).length)
    else foldChar c ++ fold s
termination_by s.length
decreasing_by
  · simp only [List.length_drop, List.length_cons]
    omega
  · exact Nat.lt_succ_self _

end Bibliography.Latex
