import Bibliography.Text.Octets

/-!
# Bibliography.Url

Addresses in fields: which fields hold one, and how the characters that an
address must not have are written as percent signs and digits.
-/

namespace Bibliography.Url

/-- A hexadecimal digit, in upper case. -/
def hexDigit (n : Nat) : Char :=
  if n < 10 then Char.ofNat ('0'.toNat + n) else Char.ofNat ('A'.toNat + (n - 10))

/-- An octet as a percent sign and two digits. -/
def percent (octet : Nat) : Text := ['%', hexDigit (octet / 16), hexDigit (octet % 16)]

/-- The characters that are kept: ASCII other than blanks and a few marks.  A
percent sign is kept, so that an encoded address is not encoded again. -/
def isKept (c : Char) : Bool :=
  c.toNat < 128 && !Text.isBlank c && c ∉ ['"', '<', '>', '\\', '^', '\x60', '|']

/-- Encode one character. -/
def encodeChar (c : Char) : Text :=
  if isKept c then [c] else (Text.octetsOf c).flatMap percent

/-- Encode an address. -/
def encode (s : Text) : Text := s.flatMap encodeChar

/-- Whether a field holds an address: its name ends in `url`. -/
def isUrlField (name : Text) : Bool := "url".toList.isSuffixOf name.asciiLower

end Bibliography.Url
