import Bibliography.Proofs.Unicode.LowerCase
import Bibliography.Unicode.Alphabetic
import Bibliography.Unicode.Number
import Bibliography.Unicode.WhiteSpace

/-!
# Bibliography.Proofs.Unicode.Capitals

How the mappings of letter case go with the classes of capitals and small letters.

* `lowerChar_cases` — a character without capitals stays as it is, and another one
  becomes small;
* `upperChar_cases` — a character that has another capital is a small letter, or one
  of the 31 letters in title case.
-/

namespace Bibliography.Unicode

/-! ## classes -/

variable {c x : Char}

/-- The letters in title case: one letter with a capital and a small part. -/
def titlecaseTable : Unicode.Boundaries :=
  [453, 454, 456, 457, 459, 460, 498, 499, 8072, 8080, 8088, 8096, 8104, 8112, 8124, 8125, 8140,
   8141, 8188, 8189]

/-- Whether a character is a letter in title case. -/
def isTitlecase (c : Char) : Bool := titlecaseTable.contains c.toNat

/-- The tables have the members of their classes in ASCII, too, and no digit is small. -/
theorem ascii_classes (h : c.toNat < 128) :
    (c.isLower = lowercaseTable.contains c.toNat ∧ c.isUpper = uppercaseTable.contains c.toNat ∧
      c.isAlpha = alphabeticTable.contains c.toNat) ∧
      (c.isDigit = true → isLowercase c = false) :=
  of_ascii c h (by decide +kernel)

/-- In ASCII a character is kept by a change of case, or goes from one class into the other. -/
theorem ascii_mappings (h : c.toNat < 128) :
    (c.toLower = c ∨ isUppercase c = true ∧ isLowercase c.toLower = true) ∧
      (c.toUpper = c ∨ isLowercase c = true) :=
  of_ascii c h (by decide +kernel)

-- One decision for all of them, since the numbers take longer than what is asked of them.
theorem tables_agree :
    (lowercaseTable.length % 2 = 0 ∧ uppercaseTable.length % 2 = 0 ∧
      alphabeticTable.length % 2 = 0) ∧
    (lowerMapping.images &&& lowercaseTable.bits false = lowerMapping.images ∧
      lowerMapping.domain &&& (uppercaseTable.bits false ||| titlecaseTable.bits false) =
        lowerMapping.domain ∧
      upperMapping.domain &&& (lowercaseTable.bits false ||| titlecaseTable.bits false) =
        upperMapping.domain) ∧
    titlecaseTable.bits false &&& lowercaseTable.bits false = 0 ∧
    whiteSpaceTable.bits false &&& (alphabeticTable.bits false ||| lowercaseTable.bits false) = 0 := by
  decide +kernel

/-- The bits of a class whose table has its members in ASCII, too. -/
theorem testBit_class {table : Boundaries} {inAscii : Char → Bool}
    (hclosed : table.length % 2 = 0) (c : Char)
    (hascii : c.toNat < 128 → inAscii c = table.contains c.toNat) :
    (table.bits false).testBit c.toNat =
      if c.toNat < 128 then inAscii c else table.contains c.toNat := by
  rw [Boundaries.testBit_bits hclosed]
  split
  · next h => exact (hascii h).symm
  · rfl

theorem testBit_lowercase (c : Char) :
    (lowercaseTable.bits false).testBit c.toNat = isLowercase c :=
  testBit_class tables_agree.1.1 c fun h => (ascii_classes h).1.1

theorem testBit_uppercase (c : Char) :
    (uppercaseTable.bits false).testBit c.toNat = isUppercase c :=
  testBit_class tables_agree.1.2.1 c fun h => (ascii_classes h).1.2.1

theorem testBit_alphabetic (c : Char) :
    (alphabeticTable.bits false).testBit c.toNat = isAlphabetic c :=
  testBit_class tables_agree.1.2.2 c fun h => (ascii_classes h).1.2.2

theorem testBit_titlecase (c : Char) :
    (titlecaseTable.bits false).testBit c.toNat = isTitlecase c :=
  Boundaries.testBit_bits rfl _

/-- Letters in title case are not small. -/
theorem isLowercase_of_isTitlecase (h : isTitlecase c = true) : isLowercase c = false := by
  obtain ⟨-, -, hnone, -⟩ := tables_agree
  rw [← testBit_titlecase] at h
  rw [← testBit_lowercase]
  exact testBit_of_and_eq_zero hnone h

/-- White space is neither a letter nor small. -/
theorem isWhiteSpace_cases (h : isWhiteSpace c = true) :
    isAlphabetic c = false ∧ isLowercase c = false := by
  obtain ⟨-, -, -, hnone⟩ := tables_agree
  have hspace : (whiteSpaceTable.bits false).testBit c.toNat = true :=
    (Boundaries.testBit_bits rfl _).trans h
  rw [← Bool.or_eq_false_iff, ← testBit_alphabetic, ← testBit_lowercase, ← Nat.testBit_or]
  exact testBit_of_and_eq_zero hnone hspace

/-- Digits are not small. -/
theorem isLowercase_of_isDigit (h : c.isDigit = true) : isLowercase c = false :=
  (ascii_classes (lt_of_isDigit h)).2 h

/-- Decimal digits of any script are in no case. -/
theorem decimals_agree :
    decimalTable.length % 2 = 0 ∧
      decimalTable.bits false &&&
        (lowercaseTable.bits false ||| (uppercaseTable.bits false ||| titlecaseTable.bits false)) =
          0 := by
  decide +kernel

theorem isDecimal_cases (h : isDecimal c = true) :
    isLowercase c = false ∧ isUppercase c = false ∧ isTitlecase c = false := by
  have hdecimal : (decimalTable.bits false).testBit c.toNat = true :=
    (Boundaries.testBit_bits decimals_agree.1 _).trans h
  rw [← Bool.or_eq_false_iff, ← Bool.or_eq_false_iff, ← testBit_lowercase, ← testBit_uppercase,
    ← testBit_titlecase, ← Nat.testBit_or, ← Nat.testBit_or]
  exact testBit_of_and_eq_zero decimals_agree.2 hdecimal

/-! ## small letters -/

/-- The lower case of a character under a run is a small letter. -/
theorem isLowercase_of_image {r : Run} (hr : r ∈ lowerMapping.runs) {n m : Nat}
    (hm : r.image? n = some m) : isLowercase (Char.ofNat m) = true := by
  obtain ⟨-, ⟨himages, -, -⟩, -⟩ := tables_agree
  have hcode := toNat_ofNat_of_isLetterlike ((isLetterlike_lowerMapping.runs r hr).image hm)
  have hbit := testBit_of_and_eq_self himages (Mapping.testBit_images hr hm)
  rwa [← testBit_lowercase, hcode]

theorem isLowercase_of_mem_several : ∀ p ∈ lowerMapping.several,
    (∃ n ∈ p.2, isLowercase (Char.ofNat n) = true) ∧
      ∀ n ∈ p.2, isLowercase (Char.ofNat n) = true ∨ Char.ofNat n = '\u0307' := by
  decide +kernel

/-- **The lower case of a character** is the character, or small: it has a small letter, and nothing
else but for the point of the capital I. -/
theorem lowerChar_cases (c : Char) : lowerChar c = [c] ∨
    (∃ x ∈ lowerChar c, isLowercase x = true) ∧
      ∀ x ∈ lowerChar c, isLowercase x = true ∨ x = '\u0307' := by
  have hone {x : Char} (hx : isLowercase x = true) : (∃ y ∈ [x], isLowercase y = true) ∧
      ∀ y ∈ [x], isLowercase y = true ∨ y = '\u0307' := by
    simp [hx]
  unfold lowerChar
  split
  · next hascii =>
    obtain hsame | ⟨-, hlower⟩ := (ascii_mappings hascii).1
    · exact .inl (by rw [hsame])
    · exact .inr (hone hlower)
  · obtain hsame | ⟨p, hp, -, happly⟩ | ⟨r, hr, n, hn, happly⟩ := lowerMapping.apply_cases c
    · exact .inl hsame
    · obtain ⟨⟨n, hn, hlower⟩, hall⟩ := isLowercase_of_mem_several p hp
      rw [happly]
      refine .inr ⟨⟨_, List.mem_map_of_mem hn, hlower⟩, fun x hx => ?_⟩
      obtain ⟨m, hm, rfl⟩ := List.mem_map.1 hx
      exact hall m hm
    · rw [happly]
      exact .inr (hone (isLowercase_of_image hr hn))

/-! ## capitals -/

/-- **A character that has another capital** is a small letter, or one in title case. -/
theorem upperChar_cases (c : Char) :
    upperChar c = [c] ∨ isLowercase c = true ∨ isTitlecase c = true := by
  unfold upperChar
  split
  · next hascii =>
    exact (ascii_mappings hascii).2.imp (fun hsame => by rw [hsame]) .inl
  · obtain ⟨-, ⟨-, -, hclasses⟩, -⟩ := tables_agree
    refine (upperMapping.apply_eq_self_or c).imp_right fun hdomain => ?_
    have hbit := testBit_of_and_eq_self hclasses hdomain
    rwa [Nat.testBit_or, testBit_lowercase, testBit_titlecase, Bool.or_eq_true] at hbit

/-- **A character that has another small letter** is a capital, or a letter in title case. -/
theorem lowerChar_eq_self_or (c : Char) :
    lowerChar c = [c] ∨ isUppercase c = true ∨ isTitlecase c = true := by
  unfold lowerChar
  split
  · next hascii =>
    exact (ascii_mappings hascii).1.imp (fun hsame => by rw [hsame]) fun hcapital => .inl hcapital.1
  · obtain ⟨-, ⟨-, hclasses, -⟩, -⟩ := tables_agree
    refine (lowerMapping.apply_eq_self_or c).imp_right fun hdomain => ?_
    have hbit := testBit_of_and_eq_self hclasses hdomain
    rwa [Nat.testBit_or, testBit_uppercase, testBit_titlecase, Bool.or_eq_true] at hbit

/-- **A decimal digit** of any script is kept by a change of case. -/
theorem case_of_isDecimal (h : isDecimal c = true) : lowerChar c = [c] ∧ upperChar c = [c] := by
  obtain ⟨hlower, hupper, htitle⟩ := isDecimal_cases h
  constructor
  · simpa [hupper, htitle] using lowerChar_eq_self_or c
  · simpa [hlower, htitle] using upperChar_cases c

end Bibliography.Unicode
