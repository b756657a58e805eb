import Bibliography.Unicode.WhiteSpace

/-!
# Bibliography.Layout.Wrap

Wrapping a written value.  White space at the outermost level — outside of
nested braces, and outside of braces in quotation marks — separates tokens that
are never broken; the tokens are filled into lines of a width, and lines after
the first begin under the first.
-/

namespace Bibliography.Wrap

/-- The nesting at a place of a written value. -/
structure Nesting where
  /-- The braces that are open. -/
  depth : Nat
  /-- Whether quotation marks are open. -/
  inQuote : Bool
deriving DecidableEq, Inhabited

namespace Nesting

/-- The nesting after a character. -/
def after (n : Nesting) (c : Char) : Nesting :=
  if c = '{' then { n with depth := n.depth + 1 }
  else if c = '}' then { n with depth := n.depth - 1 }
  else if c = '"' ∧ n.depth = 0 then { n with inQuote := !n.inQuote }
  else n

/-- The number of delimiters that are open. -/
def level (n : Nesting) : Nat := n.depth + n.inQuote.toNat

/-- Whether white space separates tokens here. -/
def breakable (n : Nesting) (c : Char) : Bool := Unicode.isWhiteSpace c && n.level ≤ 1

end Nesting

/-- Cut a text at breakable white space; pieces may be empty. -/
def pieces (n : Nesting) : Text → List Text
  | [] => [[]]
  | c :: s =>
    if (n.after c).breakable c then [] :: pieces (n.after c) s
    else match pieces (n.after c) s with
      | [] => [[c]]
      | w :: ws => (c :: w) :: ws

/-- The tokens of a written value. -/
def tokens (s : Text) : List Text := (pieces ⟨0, false⟩ s).filter (· ≠ [])

/-- Fill tokens into lines of a width, `used` columns of the first being used;
further lines begin at a column. -/
def fill (column width used : Nat) : List Text → Text
  | [] => []
  | t :: ts =>
    if width < used + 1 + t.length then
      '\n' :: Text.spaces column ++ t ++ fill column width (column + t.length) ts
    else ' ' :: t ++ fill column width (used + 1 + t.length) ts

/-- A written value that begins at a column, wrapped to a width. -/
def wrap (column width : Nat) (s : Text) : Text :=
  match tokens s with
  | [] => []
  | t :: ts => t ++ fill column width (column + t.length) ts

end Bibliography.Wrap
