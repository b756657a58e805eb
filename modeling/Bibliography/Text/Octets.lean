import Bibliography.Text

/-!
# Bibliography.Text.Octets

Texts as UTF-8 octets.  An octet is written as the character of its value, so
that whatever reads texts also reads their octets.

`length_octets` says that the octets are as many as `utf8Size` counts.
-/

namespace Bibliography.Text

/-- The octets of a character. -/
def octetsOf (c : Char) : List Nat := (String.utf8EncodeChar c).map UInt8.toNat

/-- A text as its octets. -/
def octets (s : Text) : Text := s.flatMap fun c => (octetsOf c).map Char.ofNat

@[simp] theorem length_octetsOf (c : Char) : (octetsOf c).length = c.utf8Size := by
  simp [octetsOf]

theorem octets_append (s t : Text) : octets (s ++ t) = octets s ++ octets t := by
  simp [octets]

/-- The octets are as many as the text has in UTF-8. -/
theorem length_octets (s : Text) : (octets s).length = utf8Size s := by
  induction s with
  | nil => rfl
  | cons c s ih =>
    have : octets (c :: s) = (octetsOf c).map Char.ofNat ++ octets s := by simp [octets]
    rw [this, List.length_append, ih]
    simp [utf8Size]

end Bibliography.Text
