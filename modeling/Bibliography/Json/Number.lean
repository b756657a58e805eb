import Bibliography.Json.Token

/-!
# Bibliography.Json.Number

Numbers in a JSON text.  A natural number below `2 ^ 64` is itself; any other
number is read as a binary fraction of 53 digits, and is out of range when it
is too large for one.  That is decided from a significand of at most 64 bits
and a power of ten, both rounded first.
-/

namespace Bibliography.Json

/-- A number as a significand of at most 64 bits and a power of ten. -/
structure Scaled where
  significand : Nat
  exponent : Int

/-- One more digit of the whole part.  A digit that does not fit is dropped,
with all digits after it. -/
def Scaled.addWhole (x : Scaled) (d : Char) : Scaled :=
  let n := x.significand * 10 + (d.toNat - '0'.toNat)
  if x.exponent = 0 ∧ n < Text.bound64 then ⟨n, 0⟩ else ⟨x.significand, x.exponent + 1⟩

/-- The digits of the fraction, up to the first that does not fit. -/
def Scaled.addFraction (x : Scaled) : Text → Scaled
  | [] => x
  | d :: ds =>
    let n := x.significand * 10 + (d.toNat - '0'.toNat)
    if n < Text.bound64 then addFraction ⟨n, x.exponent - 1⟩ ds else x

/-- A natural number rounded to 53 binary digits, a half to even. -/
def round53 (n : Nat) : Nat :=
  if n < 1 <<< 53 then n
  else
    let unit := 1 <<< (Nat.log2 n - 52)
    let q := n / unit
    let r := n % unit
    let up := unit < 2 * r || (2 * r = unit && q % 2 = 1)
    (if up then q + 1 else q) * unit

/-- Whether a number is too large for a binary fraction with an exponent of
eleven bits. -/
def Scaled.isHuge (x : Scaled) : Bool :=
  x.significand ≠ 0 && 0 ≤ x.exponent &&
    (308 < x.exponent ||
      1 <<< 1024 - 1 <<< 970 ≤ round53 x.significand * round53 (Nat.pow 10 x.exponent.toNat))

/-- The number with these digits before and after the point and this exponent. -/
def numberOf (negative : Bool) (whole fraction : Text) (exponent : Option Int) :
    Except Fault Number :=
  let x := whole.foldl Scaled.addWhole ⟨0, 0⟩
  if fraction = [] ∧ exponent = none ∧ x.exponent = 0 then
    .ok (if negative then none else some x.significand)
  else
    let x := x.addFraction fraction
    if ({ x with exponent := x.exponent + exponent.getD 0 } : Scaled).isHuge then .error .malformed
    else .ok none

/-- A number that is scanned to its end, or to a fault. -/
inductive NumberRead where
  | closed (content : Except Fault Number) (rest : Text)
  | broken (read passed : Fault)

/-- The fault of a number whose digits are missing before `rest`. -/
def digitMissing (rest : Text) : NumberRead :=
  .broken (if rest = [] then .ended else .malformed) .malformed

/-- Scan the exponent of a number, if it has one. -/
def scanExponent (negative : Bool) (whole fraction : Text) (s : Text) : NumberRead :=
  match s with
  | [] => .closed (numberOf negative whole fraction none) []
  | e :: t =>
    if e = 'e' ∨ e = 'E' then
      let (minus, u) := match t with
        | '-' :: u => (true, u)
        | '+' :: u => (false, u)
        | u => (false, u)
      let digits := u.takeWhile Char.isDigit
      let rest := u.dropWhile Char.isDigit
      if digits = [] then digitMissing rest
      else
        let n : Int := Text.digitsValue digits
        .closed (numberOf negative whole fraction (some (if minus then -n else n))) rest
    else .closed (numberOf negative whole fraction none) (e :: t)

/-- Scan the digits of a number. -/
def scanDigits (negative : Bool) (s : Text) : NumberRead :=
  let whole := s.takeWhile Char.isDigit
  let rest := s.dropWhile Char.isDigit
  if whole = [] then digitMissing rest
  else if whole.head? = some '0' ∧ whole.length ≠ 1 then .broken .malformed .malformed
  else match rest with
    | '.' :: t =>
      let fraction := t.takeWhile Char.isDigit
      if fraction = [] then digitMissing (t.dropWhile Char.isDigit)
      else scanExponent negative whole fraction (t.dropWhile Char.isDigit)
    | t => scanExponent negative whole [] t

/-- Scan a number. -/
def scanNumber (s : Text) : NumberRead :=
  match s with
  | '-' :: s => scanDigits true s
  | s => scanDigits false s

/-! ## scanning a number leaves less -/

theorem length_of_scanExponent {negative : Bool} {whole fraction s r : Text}
    {content : Except Fault Number}
    (h : scanExponent negative whole fraction s = .closed content r) : r.length ≤ s.length := by
  unfold scanExponent at h
  split at h
  · cases h
    simp
  · next e t =>
    split at h
    · split at h
      next minus u hu =>
      have hl : u.length ≤ t.length := by
        split at hu <;> cases hu <;> simp
      have hd := (List.dropWhile_suffix (l := u) Char.isDigit).length_le
      dsimp only at h
      split at h
      · cases h
      · cases h
        simp only [List.length_cons]
        omega
    · cases h
      simp

theorem length_of_scanDigits {negative : Bool} {s r : Text} {content : Except Fault Number}
    (h : scanDigits negative s = .closed content r) : r.length < s.length := by
  have hs := congrArg List.length (List.takeWhile_append_dropWhile (p := Char.isDigit) (l := s))
  rw [List.length_append] at hs
  unfold scanDigits at h
  dsimp only at h
  split at h
  · cases h
  · next hw =>
    have hpos : 0 < (s.takeWhile Char.isDigit).length := List.length_pos_iff.2 hw
    split at h
    · cases h
    · split at h
      · next t ht =>
        have hd := (List.dropWhile_suffix (l := t) Char.isDigit).length_le
        rw [ht, List.length_cons] at hs
        split at h
        · cases h
        · have := length_of_scanExponent h
          omega
      · have := length_of_scanExponent h
        omega

theorem length_of_scanNumber {s r : Text} {content : Except Fault Number}
    (h : scanNumber s = .closed content r) : r.length < s.length := by
  unfold scanNumber at h
  split at h
  · have := length_of_scanDigits h
    simp only [List.length_cons]
    omega
  · exact length_of_scanDigits h

end Bibliography.Json
