import Bibliography.Proofs.Unicode.LowerCase
import Bibliography.Unicode.Case.Fold

/-!
# Bibliography.Proofs.Unicode.Folding

Lower case and case folding are two ways to say that names are the same.  Folding is
the coarser one: it does not tell a text from its lower case (`Text.caseFold_toLower`),
so that texts of one lower case have one folding.  The other way round it depends on
the letters.  Texts whose lower case folding leaves alone are the same in both ways
(`Text.toLower_eq_iff`), but the sharp s has another lower case than the two letters
that it folds to.

The tables of both mappings have the same runs but for a few (`unshared`).  The small
letters of Cherokee fold to the capitals, and some letters of Greek and the capital
sharp s fold to more than one letter.
-/

namespace Bibliography.Unicode

variable {c : Char} {r : Run} {n m : Nat}

deriving instance DecidableEq for Run

/-! ## runs that both mappings have -/

/-- Where the runs of lower case begin that folding does not have: letters of Cherokee. -/
def turned : List Nat := [5024, 5104]

/-- And the letters that fold to several. -/
def unshared : List Nat := [7838, 8072, 8088, 8104, 8124, 8140, 8188]

/-- The runs of lower case that folding has, too. -/
def sharedRuns : List Run := lowerMapping.runs.filter fun r => r.first ∉ turned ++ unshared

theorem apart_foldMapping : Apart foldMapping.rows := by decide +kernel

/-- Folding leaves the images of these runs alone. -/
theorem sharedRuns_foldMapping : sharedRuns.isSublist foldMapping.runs = true ∧
    union sharedRuns Run.image &&& foldMapping.domain = 0 := by
  decide +kernel

/-- Folding has the others of one image the other way round. -/
theorem turned_foldMapping : ∀ r ∈ lowerMapping.runs, r.first ∈ turned → 128 ≤ r.image ∧
    ⟨r.image, r.image + (r.last - r.first), r.step, r.first⟩ ∈ foldMapping.runs ∧
      r.offsets <<< r.first &&& foldMapping.domain = 0 := by
  decide +kernel

theorem unshared_foldMapping : ∀ r ∈ lowerMapping.runs, r.first ∈ unshared →
    ∀ i ≤ r.last - r.first,
      foldChar (Char.ofNat (r.image + i)) = foldChar (Char.ofNat (r.first + i)) := by
  decide +kernel

theorem several_foldMapping : ∀ p ∈ lowerMapping.several,
    Text.caseFold (p.2.map Char.ofNat) = foldChar (Char.ofNat p.1) := by
  decide +kernel

/-! ## characters -/

theorem foldChar_of_le (h : 128 ≤ c.toNat) : foldChar c = foldMapping.apply c :=
  if_neg (Nat.not_lt.2 h)

/-- A character that is its own lower case and in no row is its own folding. -/
theorem foldChar_of_testBit (h : IsLower c) (hc : foldMapping.domain.testBit c.toNat = false) :
    foldChar c = [c] := by
  unfold foldChar
  split
  · next hascii => rwa [IsLower, lowerChar, if_pos hascii] at h
  · exact (foldMapping.apply_eq_self_or c).resolve_right (by simp [hc])

/-- The image of a run turned round. -/
theorem image?_turned (h : r.image? n = some m) :
    Run.image? ⟨r.image, r.image + (r.last - r.first), r.step, r.first⟩ m = some n := by
  simp only [Run.image?, Option.ite_none_right_eq_some, Option.some.injEq] at h ⊢
  obtain ⟨⟨hfirst, hlast, hstep⟩, rfl⟩ := h
  rw [Nat.add_sub_cancel_left]
  omega

/-- A character of a run and its lower case fold to the same. -/
theorem foldChar_image (hc : 128 ≤ c.toNat) (hr : r ∈ lowerMapping.runs)
    (hm : r.image? c.toNat = some m) : foldChar (Char.ofNat m) = foldChar c := by
  have hcode := toNat_ofNat_of_isLetterlike ((isLetterlike_lowerMapping.runs r hr).image hm)
  by_cases hturned : r.first ∈ turned
  · obtain ⟨himage, hmem, hnone⟩ := turned_foldMapping r hr hturned
    have hle : r.image ≤ m := by
      simp only [Run.image?, Option.ite_none_right_eq_some, Option.some.injEq] at hm
      omega
    have hback : foldMapping.apply (Char.ofNat m) = [Char.ofNat c.toNat] :=
      Mapping.apply_of_mem apart_foldMapping hmem (by rw [hcode]; exact image?_turned hm)
    have hself : foldMapping.apply c = [c] :=
      (foldMapping.apply_eq_self_or c).resolve_right
        (by simp [testBit_of_and_eq_zero hnone (Run.testBit_offsets hm)])
    rw [foldChar_of_le (by omega), foldChar_of_le hc, hback, hself, Char.ofNat_toNat]
  by_cases hunshared : r.first ∈ unshared
  · have hoffset : r.first ≤ c.toNat ∧ c.toNat ≤ r.last ∧ m = r.image + (c.toNat - r.first) := by
      simp only [Run.image?, Option.ite_none_right_eq_some, Option.some.injEq] at hm
      omega
    obtain ⟨hfirst, hlast, rfl⟩ := hoffset
    have hsame := unshared_foldMapping r hr hunshared (c.toNat - r.first) (by omega)
    rwa [Nat.add_sub_of_le hfirst, Char.ofNat_toNat] at hsame
  · obtain ⟨hsublist, hnone⟩ := sharedRuns_foldMapping
    have hshared : r ∈ sharedRuns :=
      List.mem_filter.2 ⟨hr, by simpa using ⟨hturned, hunshared⟩⟩
    have hmem := (List.isSublist_iff_sublist.1 hsublist).subset hshared
    obtain ⟨i, hi, -, hmi⟩ := Run.exists_offset hm
    have himage : foldMapping.domain.testBit (Char.ofNat m).toNat = false := by
      rw [hcode, hmi]
      exact testBit_of_and_eq_zero hnone (testBit_union Run.image hshared hi)
    rw [foldChar_of_testBit (isLower_of_image hr hm) himage, foldChar_of_le hc,
      Mapping.apply_of_mem apart_foldMapping hmem hm]

/-- **Folding forgets lower case.** -/
theorem foldChar_lowerChar (c : Char) : Text.caseFold (lowerChar c) = foldChar c := by
  have hone (d : Char) : Text.caseFold [d] = foldChar d := List.append_nil _
  by_cases hascii : c.toNat < 128
  · obtain ⟨hlt, hsame⟩ := toLower_of_ascii hascii
    rw [lowerChar, if_pos hascii, hone, foldChar, if_pos hlt, hsame, foldChar, if_pos hascii]
  · rw [lowerChar, if_neg hascii]
    obtain hsame | ⟨p, hp, hc, happly⟩ | ⟨r, hr, m, hm, happly⟩ := lowerMapping.apply_cases c
    · rw [hsame, hone]
    · rw [happly, several_foldMapping p hp, hc, Char.ofNat_toNat]
    · rw [happly, hone, foldChar_image (Nat.le_of_not_lt hascii) hr hm]

end Bibliography.Unicode

/-! ## texts -/

namespace Bibliography.Text

variable {s t : Text}

theorem caseFold_lowerFrom (before s : Text) :
    (Unicode.lowerFrom before s).caseFold = s.caseFold := by
  induction s generalizing before with
  | nil => rfl
  | cons c s ih =>
      have hfirst : caseFold (if c = 'Σ' then [Unicode.lowerSigma before s]
          else Unicode.lowerChar c) = Unicode.foldChar c := by
        split
        · next hsigma =>
          -- Both small sigmas fold to one.
          subst hsigma
          unfold Unicode.lowerSigma
          split <;> decide +kernel
        · exact Unicode.foldChar_lowerChar c
      rw [Unicode.lowerFrom, caseFold_append, hfirst, ih]
      rfl

/-- **A text and its lower case fold to the same.** -/
@[simp] theorem caseFold_toLower (s : Text) : s.toLower.caseFold = s.caseFold :=
  caseFold_lowerFrom [] s

/-- Texts that are the same in lower case are the same up to folding. -/
theorem caseFold_eq_of_toLower_eq (h : s.toLower = t.toLower) : s.caseFold = t.caseFold := by
  rw [← caseFold_toLower s, h, caseFold_toLower]

/-- The lower case of a text is left alone by folding. -/
def IsFolded (s : Text) : Prop := s.caseFold = s.toLower

instance (s : Text) : Decidable s.IsFolded := inferInstanceAs (Decidable (_ = _))

/-- **Texts whose lower case folding leaves alone** are the same in lower case if they are up to
folding. -/
theorem toLower_eq_iff (hs : s.IsFolded) (ht : t.IsFolded) :
    s.toLower = t.toLower ↔ s.caseFold = t.caseFold := by
  rw [hs, ht]

end Bibliography.Text
