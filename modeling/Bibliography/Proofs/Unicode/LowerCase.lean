import Bibliography.Proofs.Unicode.Case

/-!
# Bibliography.Proofs.Unicode.LowerCase

Lower case of lower case.  No image of the table of lower case is in a row of
it (`images_lowerMapping`); so a character in lower case is its own lower case,
and a text is, too.  A capital
sigma is in no text in lower case, so the rule of the final sigma changes
nothing there, and neither does it in a text of ASCII.

* `isLower_of_mem` — characters;
* `Text.toLower_toLower` — texts.
-/

namespace Bibliography.Unicode

variable {c x : Char}

/-- No image under a run is in a row. -/
theorem images_lowerMapping : lowerMapping.images &&& lowerMapping.domain = 0 := by
  decide +kernel

/-! ## characters -/

/-- A character that is its own lower case. -/
def IsLower (c : Char) : Prop := lowerChar c = [c]

instance (c : Char) : Decidable (IsLower c) := inferInstanceAs (Decidable (_ = _))

theorem isLower_of_ascii (h : c.toNat < 128) : IsLower c.toLower := by
  obtain ⟨hascii, hsame⟩ := toLower_of_ascii h
  rw [IsLower, lowerChar, if_pos hascii, hsame]

theorem toNat_ofNat_of_isLetterlike {n : Nat} (h : IsLetterlike (Char.ofNat n)) :
    (Char.ofNat n).toNat = n := by
  by_cases hn : n.isValidChar
  · rw [Char.ofNat, dif_pos hn]
    rfl
  · have hzero : Char.ofNat n = Char.ofNat 0 := by
      rw [Char.ofNat, dif_neg hn]
      rfl
    rw [hzero] at h
    exact absurd h (by decide)

/-- The few images in ASCII stand alone. -/
theorem isLower_of_image_ascii : ∀ r ∈ lowerMapping.runs, r.image < 128 →
    r.last ≤ r.first ∧ IsLower (Char.ofNat r.image) := by
  decide +kernel

/-- An image under a run is its own lower case. -/
theorem isLower_of_image {r : Run} (hr : r ∈ lowerMapping.runs) {n m : Nat}
    (hm : r.image? n = some m) : IsLower (Char.ofNat m) := by
  have hcode := toNat_ofNat_of_isLetterlike ((isLetterlike_lowerMapping.runs r hr).image hm)
  by_cases hascii : m < 128
  · have hmem : m = r.image + (n - r.first) ∧ n ≤ r.last := by
      simp only [Run.image?, Option.ite_none_right_eq_some, Option.some.injEq] at hm
      omega
    obtain ⟨hone, hlower⟩ := isLower_of_image_ascii r hr (by omega)
    obtain rfl : m = r.image := by omega
    exact hlower
  · have hnone : lowerMapping.domain.testBit m = false :=
      testBit_of_and_eq_zero images_lowerMapping (Mapping.testBit_images hr hm)
    rw [IsLower, lowerChar, if_neg (by omega)]
    refine (lowerMapping.apply_eq_self_or _).resolve_right ?_
    rw [hcode, hnone]
    exact Bool.false_ne_true

theorem isLower_of_mem_several :
    ∀ p ∈ lowerMapping.several, ∀ n ∈ p.2, IsLower (Char.ofNat n) := by
  decide +kernel

/-- **The lower case of a character** is its own lower case. -/
theorem isLower_of_mem (h : x ∈ lowerChar c) : IsLower x := by
  unfold lowerChar at h
  split at h
  · next hascii =>
    obtain rfl := List.mem_singleton.1 h
    exact isLower_of_ascii hascii
  · next hbeyond =>
    obtain hsame | ⟨p, hp, -, happly⟩ | ⟨r, hr, n, hn, happly⟩ := lowerMapping.apply_cases c
    · obtain rfl := List.mem_singleton.1 (hsame ▸ h)
      rw [IsLower, lowerChar, if_neg hbeyond, hsame]
    · obtain ⟨n, hn, rfl⟩ := List.mem_map.1 (happly ▸ h)
      exact isLower_of_mem_several p hp n hn
    · obtain rfl := List.mem_singleton.1 (happly ▸ h)
      exact isLower_of_image hr hn

/-! ## texts -/

/-- A text in lower case is made of characters that are their own lower case. -/
theorem isLower_of_mem_lowerFrom {s before : Text} (h : x ∈ lowerFrom before s) : IsLower x := by
  induction s generalizing before with
  | nil => cases h
  | cons c s ih =>
      rw [lowerFrom, List.mem_append] at h
      obtain h | h := h
      · split at h
        · obtain rfl := List.mem_singleton.1 h
          unfold lowerSigma
          split <;> decide +kernel
        · exact isLower_of_mem h
      · exact ih h

theorem lowerFrom_eq_self {s before : Text} (h : ∀ x ∈ s, IsLower x) : lowerFrom before s = s := by
  induction s generalizing before with
  | nil => rfl
  | cons c s ih =>
      obtain ⟨hc, hs⟩ := List.forall_mem_cons.1 h
      have hsigma : c ≠ 'Σ' := by
        rintro rfl
        exact absurd hc (by decide +kernel)
      rw [lowerFrom, if_neg hsigma, hc, ih hs]
      rfl

theorem ascii_of_toLower (h : c.toLower.toNat < 128) : c.toNat < 128 := by
  unfold Char.toLower at h
  split at h
  · next hc => exact Nat.lt_of_le_of_lt (UInt32.le_iff_toNat_le.1 hc.2) (by decide)
  · exact h

theorem lowerFrom_ascii (before : Text) {s : Text} (h : ∀ c ∈ s, c.toNat < 128) :
    lowerFrom before s = s.asciiLower := by
  induction s generalizing before with
  | nil => rfl
  | cons c s ih =>
      obtain ⟨hc, hs⟩ := List.forall_mem_cons.1 h
      have hsigma : c ≠ 'Σ' := by
        rintro rfl
        exact absurd hc (by decide)
      rw [lowerFrom, if_neg hsigma, lowerChar, if_pos hc, ih _ hs]
      rfl

end Bibliography.Unicode

namespace Bibliography.Text

/-- A text that is an ASCII text up to the case of ASCII letters has the lower case of that. -/
theorem toLower_of_eqIgnoreAsciiCase {s t : Text} (ht : ∀ c ∈ t, c.toNat < 128)
    (h : s.eqIgnoreAsciiCase t) : s.toLower = t.toLower := by
  have heq : s.asciiLower = t.asciiLower := by simpa [eqIgnoreAsciiCase] using h
  have hs : ∀ c ∈ s, c.toNat < 128 := by
    intro c hc
    have hmem : c.toLower ∈ t.asciiLower := heq ▸ List.mem_map_of_mem hc
    obtain ⟨x, hx, hxc⟩ := List.mem_map.1 hmem
    exact Unicode.ascii_of_toLower (hxc ▸ (Unicode.toLower_of_ascii (ht x hx)).1)
  unfold toLower
  rw [Unicode.lowerFrom_ascii [] hs, Unicode.lowerFrom_ascii [] ht, heq]

/-- **Lower case has no other lower case.** -/
@[simp] theorem toLower_toLower (s : Text) : s.toLower.toLower = s.toLower :=
  Unicode.lowerFrom_eq_self fun _ => Unicode.isLower_of_mem_lowerFrom

end Bibliography.Text
