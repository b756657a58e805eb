/-!
# Bibliography.Text

Text is a list of characters, so that reading is recursion on the list and
writing is concatenation.  This module holds what the whole library needs of
it: blanks, trimming by a class of characters, splitting and joining, the
order by code point, and decimal digits.

`joinWith_splitWhere` says that joining the pieces of a split at one
character gives the text back.
-/

namespace Bibliography

/-- A text, as the list of its characters. -/
abbrev Text := List Char

namespace Text

/-- The equality test of texts decides equality. -/
instance instLawfulBEq : LawfulBEq Text := inferInstance

/-- A statement about all characters of a text is decided by looking at these: there are finitely
many characters at all, but too many to look at each of them. -/
instance decidableForall (p : Char → Prop) [DecidablePred p] (s : Text) :
    Decidable (∀ c ∈ s, p c) :=
  List.decidableBAll p s

instance decidableExists (p : Char → Prop) [DecidablePred p] (s : Text) :
    Decidable (∃ c ∈ s, p c) :=
  List.decidableBEx p s

/-! ## blanks and digits -/

/-- The five blanks that separate tokens: tab, line feed, form feed, carriage
return and space.  The vertical tab is not one of them. -/
def isBlank (c : Char) : Bool :=
  c = '\t' || c = '\n' || c = '\x0c' || c = '\x0d' || c = ' '

/-- ASCII letters and digits. -/
def isAlnum (c : Char) : Bool := c.isAlphanum

/-- A text of one or more ASCII digits. -/
def isDigits (s : Text) : Bool := s ≠ [] && s.all Char.isDigit

/-! ## trimming -/

/-- Drop the characters of a class from the front. -/
def trimStart (p : Char → Bool) (s : Text) : Text := s.dropWhile p

/-- Drop the characters of a class from the back. -/
def trimEnd (p : Char → Bool) (s : Text) : Text := (s.reverse.dropWhile p).reverse

/-- Drop the characters of a class from both ends. -/
def trim (p : Char → Bool) (s : Text) : Text := trimEnd p (trimStart p s)

/-! ## splitting and joining -/

/-- Cut a text at every character of a class.  There is always one piece more
than there are cuts, so pieces may be empty. -/
def splitWhere (p : Char → Bool) : Text → List Text
  | [] => [[]]
  | c :: s =>
    if p c then [] :: splitWhere p s
    else match splitWhere p s with
      | [] => [[c]]
      | w :: ws => (c :: w) :: ws

/-- The maximal runs of characters outside a class. -/
def runs (p : Char → Bool) (s : Text) : List Text := (splitWhere p s).filter (· ≠ [])

/-- Concatenate pieces with a separator between neighbours. -/
def joinWith (sep : Text) : List Text → Text
  | [] => []
  | [w] => w
  | w :: v :: ws => w ++ sep ++ joinWith sep (v :: ws)

/-- The lines of a text, without their line feeds. -/
def lines (s : Text) : List Text := splitWhere (· = '\n') s

/-- Spaces up to a width. -/
def spaces (n : Nat) : Text := List.replicate n ' '

/-! ## order -/

/-- Texts are ordered by code point at the first difference, and a text comes
after its own prefixes. -/
def compare : Text → Text → Ordering
  | [], [] => .eq
  | [], _ :: _ => .lt
  | _ :: _, [] => .gt
  | c :: s, d :: t => (Ord.compare c.toNat d.toNat).then (compare s t)

/-- The order by code point as a relation. -/
def le (s t : Text) : Bool := compare s t ≠ .gt

/-! ## ASCII letter case -/

/-- ASCII letters in lower case; all other characters are kept. -/
def asciiLower (s : Text) : Text := s.map Char.toLower

/-- Equality up to the case of ASCII letters. -/
def eqIgnoreAsciiCase (s t : Text) : Bool := asciiLower s = asciiLower t

/-! ## numbers -/

/-- The bound of numbers of 32 bits. -/
def bound32 : Nat := 4294967296

/-- The bound of numbers of 64 bits. -/
def bound64 : Nat := 18446744073709551616

/-- The number that a run of digits denotes. -/
def digitsValue (s : Text) : Nat := s.foldl (fun n c => 10 * n + (c.toNat - '0'.toNat)) 0

/-- A decimal number below `bound`, with an optional plus sign. -/
def toNatBelow? (bound : Nat) (s : Text) : Option Nat :=
  let digits := match s with
    | '+' :: t => t
    | t => t
  if isDigits digits && digitsValue digits < bound then some (digitsValue digits) else none

/-- The decimal digits of a number. -/
def ofNat (n : Nat) : Text := Nat.toDigits 10 n

/-! ## length in UTF-8 -/

/-- The number of octets of a text in UTF-8. -/
def utf8Size : Text → Nat
  | [] => 0
  | c :: s => c.utf8Size + utf8Size s

/-! ## laws -/

@[simp] theorem utf8Size_append (s t : Text) :
    utf8Size (s ++ t) = utf8Size s + utf8Size t := by
  induction s with
  | nil => simp [utf8Size]
  | cons c s ih => rw [List.cons_append, utf8Size, ih, utf8Size, Nat.add_assoc]

/-- What follows the first character outside a class is shorter than the text. -/
theorem length_lt_of_dropWhile {p : Char → Bool} {s r : Text} {c : Char}
    (h : s.dropWhile p = c :: r) : r.length < s.length := by
  have := (List.dropWhile_suffix (l := s) p).length_le
  rw [h, List.length_cons] at this
  omega

theorem trimStart_eq_self {p : Char → Bool} {c : Char} {s : Text} (h : p c = false) :
    trimStart p (c :: s) = c :: s := by
  simp [trimStart, h]

/-- A split never yields the empty list of pieces. -/
theorem splitWhere_ne_nil (p : Char → Bool) (s : Text) : splitWhere p s ≠ [] := by
  induction s with
  | nil => simp [splitWhere]
  | cons c s ih =>
    rw [splitWhere]
    split
    · simp
    · split <;> simp

/-- Joining the pieces of a split at one character gives the text back. -/
theorem joinWith_splitWhere (d : Char) (s : Text) :
    joinWith [d] (splitWhere (· = d) s) = s := by
  induction s with
  | nil => rfl
  | cons c s ih =>
    rw [splitWhere]
    cases h : splitWhere (· = d) s with
    | nil => exact absurd h (splitWhere_ne_nil _ _)
    | cons w ws =>
      rw [h] at ih
      by_cases hc : c = d
      · simp [hc, joinWith, ih]
      · cases ws with
        | nil => simp_all [joinWith]
        | cons v vs => simp_all [joinWith]

end Text

end Bibliography
