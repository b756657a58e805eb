import Bibliography.Proofs.Unicode.Bits
import Bibliography.Unicode.Case.Fold
import Bibliography.Unicode.Case.Lower
import Bibliography.Unicode.Case.Upper

/-!
# Bibliography.Proofs.Unicode.Case

What a change of case can bring into a text.  A character keeps its spelling or
becomes one or more characters that are ASCII letters or beyond ASCII: never a
bracket, a mark or a blank.  For characters beyond ASCII this is a fact about
the rows of the tables (`Mapping.IsLetterlike`), which is decided.

* `mem_lowerChar`, `mem_upperChar`, `mem_toLower` — what a character in lower
  or upper case, or a text in lower case, is made of;
* `mem_caseFold` — an ASCII character that is no letter is kept by folding.
-/

namespace Bibliography.Unicode

/-- An ASCII letter, or a character beyond ASCII. -/
def IsLetterlike (c : Char) : Prop := c.isAlpha = true ∨ 128 ≤ c.toNat

instance (c : Char) : Decidable (IsLetterlike c) := inferInstanceAs (Decidable (_ ∨ _))

/-! ## tables -/

/-- The images of a run are letterlike: they are beyond ASCII and short of the
surrogates or after them, or there is one image, which is a letter. -/
def Run.IsLetterlike (r : Run) : Prop :=
  128 ≤ r.image ∧ r.image + (r.last - r.first) < 0xd800 ∨
    0xdfff < r.image ∧ r.image + (r.last - r.first) < 0x110000 ∨
    r.last ≤ r.first ∧ Unicode.IsLetterlike (Char.ofNat r.image)

instance (r : Run) : Decidable r.IsLetterlike := inferInstanceAs (Decidable (_ ∨ _))

/-- The images of a mapping are letterlike, and none is empty. -/
structure Mapping.IsLetterlike (m : Mapping) : Prop where
  runs : ∀ r ∈ m.runs, r.IsLetterlike
  several : ∀ p ∈ m.several, p.2 ≠ [] ∧ ∀ n ∈ p.2, Unicode.IsLetterlike (Char.ofNat n)

theorem isLetterlike_ofNat {n : Nat} (h : 128 ≤ n)
    (hvalid : n < 0xd800 ∨ 0xdfff < n ∧ n < 0x110000) : IsLetterlike (Char.ofNat n) := by
  have hn : (Char.ofNat n).toNat = n := by
    rw [Char.ofNat, dif_pos hvalid]
    rfl
  exact .inr (by omega)

theorem Run.IsLetterlike.image {r : Run} (h : r.IsLetterlike) {n m : Nat}
    (hm : r.image? n = some m) : Unicode.IsLetterlike (Char.ofNat m) := by
  unfold Run.image? at hm
  split at hm
  · next hn =>
    cases hm
    obtain ⟨hi, hlast⟩ | ⟨hi, hlast⟩ | ⟨hone, hletter⟩ := h
    · exact isLetterlike_ofNat (by omega) (.inl (by omega))
    · exact isLetterlike_ofNat (by omega) (.inr (by omega))
    · have hoffset : n - r.first = 0 := by omega
      rw [hoffset, Nat.add_zero]
      exact hletter
  · cases hm

namespace Mapping.IsLetterlike

variable {m : Mapping} {c x : Char}

theorem mem_apply (h : m.IsLetterlike) (hx : x ∈ m.apply c) :
    x = c ∨ Unicode.IsLetterlike x := by
  obtain hsame | ⟨p, hp, -, happly⟩ | ⟨r, hr, n, hn, happly⟩ := m.apply_cases c
  · exact .inl (List.mem_singleton.1 (hsame ▸ hx))
  · obtain ⟨i, hi, rfl⟩ := List.mem_map.1 (happly ▸ hx)
    exact .inr ((h.several p hp).2 i hi)
  · obtain rfl := List.mem_singleton.1 (happly ▸ hx)
    exact .inr ((h.runs r hr).image hn)

theorem apply_ne_nil (h : m.IsLetterlike) (c : Char) : m.apply c ≠ [] := by
  obtain hsame | ⟨p, hp, -, happly⟩ | ⟨r, hr, n, hn, happly⟩ := m.apply_cases c
  · exact hsame ▸ List.cons_ne_nil _ _
  · simpa [happly] using (h.several p hp).1
  · exact happly ▸ List.cons_ne_nil _ _

end Mapping.IsLetterlike

theorem isLetterlike_mappings : lowerMapping.IsLetterlike ∧ upperMapping.IsLetterlike :=
  ⟨⟨by decide +kernel, by decide +kernel⟩, by decide +kernel, by decide +kernel⟩

theorem isLetterlike_lowerMapping : lowerMapping.IsLetterlike := isLetterlike_mappings.1

theorem isLetterlike_upperMapping : upperMapping.IsLetterlike := isLetterlike_mappings.2

/-! ## characters -/

variable {c x : Char}

theorem lt_of_val_le {d : Char} (hd : d.toNat < 128) (h : c.val ≤ d.val) : c.toNat < 128 :=
  Nat.lt_of_le_of_lt (UInt32.le_iff_toNat_le.1 h) hd

/-- The letters `A` to `Z` are below the bound of ASCII. -/
theorem lt_of_isAlpha (h : c.isAlpha = true) : c.toNat < 128 := by
  obtain hupper | hlower := Bool.or_eq_true_iff.1 h
  · exact lt_of_val_le (d := 'Z') (by decide) (of_decide_eq_true hupper).2
  · exact lt_of_val_le (d := 'z') (by decide) (of_decide_eq_true (Bool.and_eq_true_iff.1 hlower).2)

theorem lt_of_isDigit (h : c.isDigit = true) : c.toNat < 128 :=
  lt_of_val_le (d := '9') (by decide) (of_decide_eq_true (Bool.and_eq_true_iff.1 h).2)

/-- What holds of the first 128 code points holds of the characters of ASCII. -/
@[elab_as_elim]
theorem of_ascii {p : Char → Prop} (c : Char) (h : c.toNat < 128)
    (hall : ∀ n < 128, p (Char.ofNat n)) : p c := by
  have hc := hall c.toNat h
  rwa [Char.ofNat_toNat] at hc

/-- In ASCII, letters become letters, and everything else is kept. -/
theorem ascii_case (h : c.toNat < 128) :
    (c.isAlpha = true → c.toLower.isAlpha = true ∧ c.toUpper.isAlpha = true) ∧
      (c.isAlpha = false → c.toLower = c ∧ c.toUpper = c) :=
  of_ascii c h (by decide +kernel)

/-- The lower case of an ASCII character is one, and its own lower case. -/
theorem toLower_of_ascii (h : c.toNat < 128) :
    c.toLower.toNat < 128 ∧ c.toLower.toLower = c.toLower :=
  of_ascii c h (by decide +kernel)

/-- A character in lower case is kept, or letterlike. -/
theorem mem_lowerChar (h : x ∈ lowerChar c) : x = c ∨ IsLetterlike x := by
  unfold lowerChar at h
  split at h
  · next hascii =>
    obtain rfl := List.mem_singleton.1 h
    cases hc : c.isAlpha with
    | true => exact .inr (.inl ((ascii_case hascii).1 hc).1)
    | false => exact .inl ((ascii_case hascii).2 hc).1
  · exact isLetterlike_lowerMapping.mem_apply h

theorem lowerChar_ne_nil (c : Char) : lowerChar c ≠ [] := by
  unfold lowerChar
  split
  · exact List.cons_ne_nil _ _
  · exact isLetterlike_lowerMapping.apply_ne_nil c

/-- A character in upper case is kept, or letterlike. -/
theorem mem_upperChar (h : x ∈ upperChar c) : x = c ∨ IsLetterlike x := by
  unfold upperChar at h
  split at h
  · next hascii =>
    obtain rfl := List.mem_singleton.1 h
    cases hc : c.isAlpha with
    | true => exact .inr (.inl ((ascii_case hascii).1 hc).2)
    | false => exact .inl ((ascii_case hascii).2 hc).2
  · exact isLetterlike_upperMapping.mem_apply h

theorem upperChar_ne_nil (c : Char) : upperChar c ≠ [] := by
  unfold upperChar
  split
  · exact List.cons_ne_nil _ _
  · exact isLetterlike_upperMapping.apply_ne_nil c

/-! ## texts -/

variable {s before : Text}

theorem mem_lowerFrom (h : x ∈ lowerFrom before s) : x ∈ s ∨ IsLetterlike x := by
  induction s generalizing before with
  | nil => cases h
  | cons c s ih =>
      rw [lowerFrom, List.mem_append] at h
      obtain h | h := h
      · split at h
        · obtain rfl := List.mem_singleton.1 h
          right
          unfold lowerSigma
          split <;> decide
        · obtain rfl | hx := mem_lowerChar h
          · exact .inl List.mem_cons_self
          · exact .inr hx
      · obtain hx | hx := ih h
        · exact .inl (List.mem_cons_of_mem c hx)
        · exact .inr hx

theorem lowerFrom_ne_nil (h : s ≠ []) : lowerFrom before s ≠ [] := by
  cases s with
  | nil => contradiction
  | cons c s =>
      rw [lowerFrom]
      split
      · exact List.cons_ne_nil _ _
      · exact List.append_ne_nil_of_left_ne_nil (lowerChar_ne_nil c) _

end Bibliography.Unicode

namespace Bibliography.Text

open Unicode

variable {x : Char} {s : Text}

/-- A text in lower case is made of its characters and letterlike ones. -/
theorem mem_toLower (h : x ∈ s.toLower) : x ∈ s ∨ IsLetterlike x := mem_lowerFrom h

theorem toLower_ne_nil (h : s ≠ []) : s.toLower ≠ [] := lowerFrom_ne_nil h

/-- An ASCII character that is no letter is kept by folding. -/
theorem mem_caseFold (h : x ∈ s) (hx : ¬ IsLetterlike x) : x ∈ s.caseFold := by
  refine List.mem_flatMap.2 ⟨x, h, ?_⟩
  have hletter : x.isAlpha = false := Bool.eq_false_iff.2 fun hl => hx (.inl hl)
  have hascii : x.toNat < 128 := Nat.lt_of_not_le fun hn => hx (.inr hn)
  rw [foldChar, if_pos hascii, ((ascii_case hascii).2 hletter).1]
  exact List.mem_singleton_self x

end Bibliography.Text
