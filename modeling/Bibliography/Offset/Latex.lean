import Bibliography.Latex.Escape
import Bibliography.Latex.Fold
import Bibliography.Offset.Slice

/-!
# Bibliography.Offset.Latex

Escaping and folding by offsets.  A text is passed command by command and
character by character; commands and mathematics are copied as slices.
-/

namespace Bibliography.Offset

/-! ## pieces -/

/-- The number of octets of the command that a text begins with. -/
def commandLength (t : Text) : Option Nat := do
  let rest ← sliceFrom? t 1
  let letters := (rest.octets.takeWhile Char.isAlpha).length
  if 0 < letters then return 1 + letters
  else return 1 + rest.head?.elim 0 Char.utf8Size

/-- What becomes of a piece of a text, and where the piece ends. -/
structure Replacement where
  text : Text
  stop : Nat
deriving DecidableEq, Inhabited

/-- Replace a text piece by piece from an offset on.  `step` reads the piece at an offset, if the
text does not end there; `out` is what has become of the text before it. -/
def replaceFrom (step : Text → Nat → Option (Option Replacement)) (s out : Text) (pos : Nat) :
    Option Text := do
  match ← step s pos with
  | none => return out
  | some piece =>
    if _ : IsOnward s.utf8Size pos piece.stop then
      replaceFrom step s (out ++ piece.text) piece.stop
    else none
termination_by s.utf8Size - pos
decreasing_by exact IsOnward.sub_lt ‹_›

/-! ## escaping -/

/-- Replace a character by its LaTeX sequence; a command or mathematics is copied. -/
def escapeStep (s : Text) (pos : Nat) : Option (Option Replacement) := do
  let rest ← sliceFrom? s pos
  match rest with
  | [] => return none
  | c :: _ =>
    if c = '\\' then
      let length ← commandLength rest
      return some ⟨← slice? s pos (pos + length), pos + length⟩
    else if c = '$' then
      let inside ← sliceFrom? s (pos + 1)
      let stop := match find? (· = '$') inside with
        | none => s.utf8Size
        | some offset => pos + 1 + offset + 1
      return some ⟨← slice? s pos stop, stop⟩
    else return some ⟨(Latex.latexFor c).getD [c], pos + c.utf8Size⟩

/-- Replace characters by LaTeX sequences. -/
def escape (s : Text) : Option Text := replaceFrom escapeStep s [] 0

/-! ## folding -/

/-- The ASCII letters in a written sequence: those of the accented letter, or else the command. -/
def sequenceLetters (latex : Text) : Option Text :=
  match Text.trim (fun c => c = '{' || c = '}' || c = '$') latex with
  | '\\' :: command => do
    let length := ((Text.octets command).takeWhile Char.isAlpha).length
    let rest ← sliceFrom? command length
    match rest.filter Char.isAlpha with
    | [] => slice? command 0 length
    | letters => return letters
  | _ => some []

/-- What a character beyond ASCII leaves. -/
def foldWide (c : Char) : Option Text :=
  if Unicode.isWhiteSpace c then some [' ']
  else if Unicode.isAlphabetic c then
    match Latex.latexFor c with
    | none => some []
    | some latex => sequenceLetters latex
  else some []

/-- Reduce a command or a character to plain ASCII. -/
def foldStep (s : Text) (pos : Nat) : Option (Option Replacement) := do
  let rest ← sliceFrom? s pos
  match rest with
  | [] => return none
  | c :: _ =>
    if c = '\\' then
      let length ← commandLength rest
      let name ← slice? s (pos + 1) (pos + length)
      return some ⟨Latex.foldCommand name, pos + length⟩
    else if c = '{' ∨ c = '}' ∨ c = '$' then return some ⟨[], pos + 1⟩
    else if c.toNat < 128 then return some ⟨[c], pos + 1⟩
    else return some ⟨← foldWide c, pos + c.utf8Size⟩

/-- Reduce a text to plain ASCII. -/
def fold (s : Text) : Option Text := replaceFrom foldStep s [] 0

end Bibliography.Offset
