import Bibliography.Unicode.Alphabetic
import Bibliography.Unicode.WhiteSpace
import Bibliography.Unicode.Case.Lower
import Bibliography.Unicode.Case.Upper

/-!
# Bibliography.Value.Capitals

Texts that are written in capitals, and their spelling with capitals at the
beginnings of words only.  Text in braces and the letters of commands keep
their spelling.
-/

namespace Bibliography.Capitals

/-- Whether a text has a capital and no small letter. -/
def isAllCaps (s : Text) : Bool := s.any Unicode.isUppercase && !s.any Unicode.isLowercase

/-- What matters of the text before a place. -/
structure Context where
  depth : Nat := 0
  /-- Whether no letter or digit of the word has come yet. -/
  wordStart : Bool := true
  /-- Whether the place is in a command. -/
  inCommand : Bool := false
deriving DecidableEq, Inhabited

namespace Context

/-- Whether a character belongs to a command here. -/
def isCommand (x : Context) (c : Char) : Bool := c = '\\' || (x.inCommand && c.isAlpha)

/-- The context after a character. -/
def after (x : Context) (c : Char) : Context :=
  let depth := if c = '{' then x.depth + 1 else if c = '}' then x.depth - 1 else x.depth
  if x.isCommand c then { x with depth, inCommand := true }
  else
    { depth
      inCommand := false
      wordStart :=
        if Unicode.isWhiteSpace c then true
        else x.wordStart && !Unicode.isAlphanumeric c }

/-- What a character becomes. -/
def spelling (x : Context) (c : Char) : Text :=
  if x.isCommand c || !Unicode.isAlphabetic c || x.depth ≠ 0 then [c]
  else if x.wordStart then Unicode.upperChar c
  else Unicode.lowerChar c

end Context

/-- Respell a text from a context on. -/
def titleCaseFrom (x : Context) : Text → Text
  | [] => []
  | c :: s => x.spelling c ++ titleCaseFrom (x.after c) s

/-- A text with capitals at the beginnings of words only. -/
def titleCase (s : Text) : Text := titleCaseFrom {} s

end Bibliography.Capitals
