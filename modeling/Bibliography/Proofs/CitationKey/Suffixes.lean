import Mathlib.Data.Finset.Card
import Bibliography.Proofs.CitationKey.Characters
import Bibliography.Proofs.CitationKey.Letters

/-!
# Bibliography.Proofs.CitationKey.Suffixes

The search for a free key.  Different suffixes make different keys of a base, also
in lower case and also if the suffix stands at several places
(`eq_of_toLower_withSuffix`).  So no more of them can be taken than there are keys
in use, and the search ends within that bound (`isFirstFree_firstFree`).
-/

namespace Bibliography

/-! ## bases -/

namespace KeyBase

variable {base : KeyBase} {s s' : Text}

/-- A base whose places for the suffix are filled in. -/
def fill (base : KeyBase) (s : Text) : Text := base.flatMap fun c => (c.map ([·])).getD s

/-- Every place takes the length of the suffix. -/
theorem length_fill (base : KeyBase) (s : Text) :
    (base.fill s).length = base.countP Option.isSome + base.count none * s.length := by
  induction base with
  | nil => simp [fill]
  | cons o base ih =>
      unfold fill at ih ⊢
      rw [List.flatMap_cons, List.length_append, ih]
      cases o with
      | none => simp [Nat.succ_mul]; omega
      | some c => simp; omega

/-- Suffixes of one length that are filled in can be told apart at the first place. -/
theorem eq_of_fill (hbase : none ∈ base) (hlength : s.length = s'.length)
    (h : base.fill s = base.fill s') : s = s' := by
  induction base with
  | nil => cases hbase
  | cons o base ih =>
      unfold fill at h ih
      rw [List.flatMap_cons, List.flatMap_cons] at h
      cases o with
      | none => exact (List.append_inj h hlength).1
      | some c =>
          have hrest : none ∈ base := by simpa using hbase
          exact ih hrest (List.append_cancel_left h)

/-- **Different suffixes make different keys.** -/
theorem withSuffix_injective (base : KeyBase) : Function.Injective base.withSuffix := by
  intro s s' h
  unfold withSuffix at h
  split at h
  · next hbase =>
    have hfill : base.fill s = base.fill s' := h
    refine eq_of_fill hbase ?_ hfill
    have hlength := congrArg List.length hfill
    rw [length_fill, length_fill, Nat.add_left_cancel_iff] at hlength
    exact Nat.eq_of_mul_eq_mul_left (List.count_pos_iff.2 hbase) hlength
  · exact List.append_cancel_left h

theorem map_withSuffix (f : Char → Char) (base : KeyBase) (s : Text) :
    (base.withSuffix s).map f = KeyBase.withSuffix (base.map (Option.map f)) (s.map f) := by
  have hnone : (none ∈ base.map (Option.map f)) ↔ none ∈ base := by simp
  unfold withSuffix
  simp only [hnone]
  split
  · rw [List.map_flatMap, List.flatMap_map]
    refine List.flatMap_congr fun o _ => ?_
    cases o <;> rfl
  · rw [List.map_append, List.map_filterMap, List.filterMap_map]
    rfl

end KeyBase

namespace CitationKey

/-! ## lower case -/

theorem IsPlain.lowerChar_eq {c : Char} (h : IsPlain c) : Unicode.lowerChar c = [c.toLower] := by
  obtain hsame | ⟨hlower, -⟩ := h.cases.1
  · by_cases hascii : c.toNat < 128
    · rw [Unicode.lowerChar, if_pos hascii]
    · have hc : c.toLower = c := by
        unfold Char.toLower
        split
        · next hupper =>
          exact absurd (Unicode.lt_of_val_le (d := 'Z') (by decide) hupper.2) hascii
        · rfl
      rw [hsame, hc]
  · exact hlower

/-- The characters of keys are put into lower case one by one. -/
theorem toLower_of_isPlain {s : Text} (h : ∀ c ∈ s, IsPlain c) : s.toLower = s.map Char.toLower := by
  have hfrom (before : Text) : Unicode.lowerFrom before s = s.map Char.toLower := by
    induction s generalizing before with
    | nil => rfl
    | cons c s ih =>
        obtain ⟨hc, hs⟩ := List.forall_mem_cons.1 h
        rw [Unicode.lowerFrom, if_neg hc.ne_sigma, hc.lowerChar_eq, ih hs]
        rfl
  exact hfrom []

/-! ## suffixes -/

theorem ofNat_injective : Function.Injective Text.ofNat := by
  intro m n h
  have hdigits := congrArg (fun s : List Char => Nat.ofDigitChars 10 s 0) h
  simpa [Text.ofNat] using hdigits

/-- **No suffix is tried twice.** -/
theorem suffix_injective (numbers : Bool) : Function.Injective (suffix numbers) := by
  have hmore (n : Nat) : suffix numbers (n + 1) ≠ [] := by
    rw [suffix]
    split
    · exact Nat.toDigits_ne_nil
    · exact letterSuffix_ne_nil n
  intro m n h
  cases m with
  | zero =>
      cases n with
      | zero => rfl
      | succ n => exact absurd h.symm (hmore n)
  | succ m =>
      cases n with
      | zero => exact absurd h (hmore m)
      | succ n =>
          rw [suffix, suffix] at h
          split at h
          · have := ofNat_injective h
            omega
          · rw [letterSuffix_injective h]

theorem toLower_of_mem_letterSuffix (n : Nat) : ∀ c ∈ letterSuffix n, c.toLower = c := by
  have hletter : ∀ n < 26, (letter n).toLower = letter n := by decide
  fun_induction letterSuffix n with
  | case1 n h => exact List.forall_mem_singleton.2 (hletter n h)
  | case2 n h ih =>
      refine List.forall_mem_append.2 ⟨ih, ?_⟩
      exact List.forall_mem_singleton.2 (hletter _ (Nat.mod_lt _ (by omega)))

theorem toLower_of_isDigit {c : Char} (h : c.isDigit = true) : c.toLower = c := by
  have hascii (hc : c.toNat < 128) : c.isDigit = true → c.toLower = c :=
    Unicode.of_ascii c hc (by decide)
  exact hascii (Unicode.lt_of_isDigit h) h

/-- Suffixes are in lower case. -/
theorem toLower_of_mem_suffix (numbers : Bool) (n : Nat) :
    ∀ c ∈ suffix numbers n, c.toLower = c := by
  cases n with
  | zero => exact List.forall_mem_nil _
  | succ n =>
      rw [suffix]
      split
      · intro c hc
        have hdigit : c.isDigit = true := Nat.isDigit_of_mem_toDigits (by omega) (by omega) hc
        exact toLower_of_isDigit hdigit
      · exact toLower_of_mem_letterSuffix n

/-! ## the search -/

variable {base : KeyBase} {used : List Text} {numbers : Bool}

theorem toLower_withSuffix (hbase : ∀ c, some c ∈ base → IsPlain c) (n : Nat) :
    (base.withSuffix (suffix numbers n)).toLower =
      KeyBase.withSuffix (base.map (Option.map Char.toLower)) (suffix numbers n) := by
  have hsuffix : (suffix numbers n).map Char.toLower = suffix numbers n :=
    (List.map_congr_left (toLower_of_mem_suffix numbers n)).trans (List.map_id' _)
  rw [toLower_of_isPlain, KeyBase.map_withSuffix, hsuffix]
  intro c hc
  obtain hc | hc := KeyBase.mem_of_mem_withSuffix hc
  · exact hbase c hc
  · exact .inl (isKept_suffix numbers n c hc)

/-- **Different suffixes make keys that differ in lower case.** -/
theorem eq_of_toLower_withSuffix (hbase : ∀ c, some c ∈ base → IsPlain c) {m n : Nat}
    (h : (base.withSuffix (suffix numbers m)).toLower =
      (base.withSuffix (suffix numbers n)).toLower) : m = n := by
  rw [toLower_withSuffix hbase, toLower_withSuffix hbase] at h
  exact suffix_injective numbers (KeyBase.withSuffix_injective _ h)

/-- A key that is a base with the first suffix that makes it free, with the number of the suffixes
that were tried before. -/
structure IsFirstFree (used : List Text) (numbers : Bool) (base : KeyBase) (key : Text) (n : Nat) :
    Prop where
  key_eq : key = base.withSuffix (suffix numbers n)
  free : key.toLower ∉ used
  taken : ∀ m < n, (base.withSuffix (suffix numbers m)).toLower ∈ used
  bound : n ≤ used.toFinset.card

/-- One suffix more than there are keys in use is enough. -/
theorem exists_free (hbase : ∀ c, some c ∈ base → IsPlain c) (used : List Text) (numbers : Bool) :
    ∃ n ≤ used.toFinset.card, (base.withSuffix (suffix numbers n)).toLower ∉ used := by
  by_contra hall
  simp only [not_exists, not_and, not_not] at hall
  let key (n : Nat) : Text := (base.withSuffix (suffix numbers n)).toLower
  have hinjective : Function.Injective key := fun m n h => eq_of_toLower_withSuffix hbase h
  have hsubset : (Finset.range (used.toFinset.card + 1)).image key ⊆ used.toFinset := by
    intro k hk
    obtain ⟨n, hn, rfl⟩ := Finset.mem_image.1 hk
    exact List.mem_toFinset.2 (hall n (Nat.le_of_lt_succ (Finset.mem_range.1 hn)))
  have hcard := Finset.card_le_card hsubset
  rw [Finset.card_image_of_injective _ hinjective, Finset.card_range] at hcard
  omega

/-- **The search finds the first free key**, and tries at most one suffix more than there are keys in
use. -/
theorem isFirstFree_firstFree (hbase : ∀ c, some c ∈ base → IsPlain c) (used : List Text)
    (numbers : Bool) :
    ∃ n, IsFirstFree used numbers base (firstFree used numbers base) n := by
  obtain ⟨n, hn, hfree⟩ := exists_free hbase used numbers
  have hlength : used.toFinset.card ≤ used.length := used.toFinset_card_le
  unfold firstFree
  dsimp only
  cases hfind : (List.range (used.length + 1)).find? fun n =>
      decide ((base.withSuffix (suffix numbers n)).toLower ∉ used) with
  | none =>
      have htaken := List.find?_eq_none.1 hfind n (List.mem_range.2 (by omega))
      simp [hfree] at htaken
  | some m =>
      obtain ⟨hm, -, hbefore⟩ := List.find?_range_eq_some.1 hfind
      have htaken : ∀ k < m, (base.withSuffix (suffix numbers k)).toLower ∈ used := by
        intro k hk
        simpa using hbefore k hk
      refine ⟨m, rfl, by simpa using hm, htaken, ?_⟩
      by_contra hlt
      exact hfree (htaken n (by omega))

end CitationKey

end Bibliography
