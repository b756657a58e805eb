import Bibliography.Scan

/-!
# Bibliography.Grammar.Nesting

The tokens of the reference grammar that nest.  The grammar is a parsing
expression grammar: a choice takes its first alternative that matches, a
repetition takes as much as it can, and neither is taken back.  A matcher gives
the text after what it matched.

    balanced    = "{" balanced* "}" / !("{" / "}") any
    round       = "{" balanced* "}" / "(" round* ")" / !("{" / "}" / "(" / ")") any
    quoted_char = "\\\\" / "\\\"" / "{" balanced* "}" / !("{" / "}" / "\"") any
-/

namespace Bibliography.Grammar

/-- What is left of a text after a match of at least one character. -/
abbrev Shorter (s : Text) := { r : Text // r.length < s.length }

/-- What is left of a text after a match that may be empty. -/
abbrev NoLonger (s : Text) := { r : Text // r.length ≤ s.length }

/-- A match of less is a match of a longer text. -/
def Shorter.weaken {s t : Text} (h : s.length ≤ t.length) (r : Shorter s) : Shorter t :=
  ⟨r.1, Nat.lt_of_lt_of_le r.2 h⟩

/-- What is left after a character, if it comes next. -/
def after {s : Text} (c : Char) : NoLonger s → Option (Shorter s)
  | ⟨[], _⟩ => none
  | ⟨d :: r, h⟩ => if d = c then some ⟨r, h⟩ else none

/-- What is left after a closing bracket, if it comes next. -/
def closedBy {c : Char} {t : Text} (closing : Char) (r : NoLonger t) : Option (Shorter (c :: t)) :=
  (after closing r).map (Shorter.weaken (Nat.le_succ _))

mutual

/-- A group in braces that is closed, or a character that is no brace. -/
def balanced (s : Text) : Option (Shorter s) :=
  match s with
  | [] => none
  | '{' :: t => closedBy '}' (balancedMany t)
  | '}' :: _ => none
  | _ :: t => some ⟨t, Nat.lt_succ_self _⟩
termination_by 2 * s.length

/-- As many of these as there are. -/
def balancedMany (s : Text) : NoLonger s :=
  match balanced s with
  | some ⟨r, h⟩ =>
    let ⟨t, ht⟩ := balancedMany r
    ⟨t, Nat.le_trans ht (Nat.le_of_lt h)⟩
  | none => ⟨s, Nat.le_refl _⟩
termination_by 2 * s.length + 1

end

/-- A group in braces that is closed. -/
def group (s : Text) : Option (Shorter s) :=
  match s with
  | '{' :: t => closedBy '}' (balancedMany t)
  | _ => none

mutual

/-- A group in braces or in parentheses that is closed, or a character that is
no bracket of either. -/
def round (s : Text) : Option (Shorter s) :=
  match s with
  | [] => none
  | '(' :: t => closedBy ')' (roundMany t)
  | '{' :: t => group ('{' :: t)
  | '}' :: _ | ')' :: _ => none
  | _ :: t => some ⟨t, Nat.lt_succ_self _⟩
termination_by 2 * s.length

/-- As many of these as there are. -/
def roundMany (s : Text) : NoLonger s :=
  match round s with
  | some ⟨r, h⟩ =>
    let ⟨t, ht⟩ := roundMany r
    ⟨t, Nat.le_trans ht (Nat.le_of_lt h)⟩
  | none => ⟨s, Nat.le_refl _⟩
termination_by 2 * s.length + 1

end

/-- A pair of backslashes, an escaped quotation mark, a group in braces, or a
character that is no brace and no quotation mark. -/
def quotedChar (s : Text) : Option (Shorter s) :=
  match s with
  | [] => none
  | '\\' :: '\\' :: t => some ⟨t, Nat.lt_succ_of_lt (Nat.lt_succ_self _)⟩
  | '\\' :: '"' :: t => some ⟨t, Nat.lt_succ_of_lt (Nat.lt_succ_self _)⟩
  | '{' :: t => group ('{' :: t)
  | '}' :: _ | '"' :: _ => none
  | _ :: t => some ⟨t, Nat.lt_succ_self _⟩

/-- As many of these as there are. -/
def quotedMany (s : Text) : NoLonger s :=
  match quotedChar s with
  | some ⟨r, h⟩ =>
    let ⟨t, ht⟩ := quotedMany r
    ⟨t, Nat.le_trans ht (Nat.le_of_lt h)⟩
  | none => ⟨s, Nat.le_refl _⟩
termination_by s.length

end Bibliography.Grammar
