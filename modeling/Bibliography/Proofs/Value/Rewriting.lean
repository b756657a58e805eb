import Bibliography.Value.Normalization
import Bibliography.Proofs.Scan.Enclosure

/-!
# Bibliography.Proofs.Value.Rewriting

The steps that rewrite the text of a segment character by character: spelling
with fewer capitals, LaTeX sequences, and percent encoding.  Each leaves the
braces and the runs of backslashes as the scanners count them, so that a text
that its enclosure closes is one afterwards.

* `closes_titleCase`, `closes_escape`, `closes_encode` — what is closed stays
  closed.
-/

namespace Bibliography

namespace Scan

namespace Enclosure

variable {k : Enclosure} {q q' : Quotation} {c : Char}

/-- A backslash before a character counts if it is not escaped itself. -/
theorem escaped_of_after? (h : k.after? q c = some q') :
    q'.escaped = (c = '\\' && !q.escaped) := by
  unfold after? at h
  split at h
  · cases h
  · split at h
    · next ho =>
      cases h
      simp [ho]
    · split at h
      · next hc =>
        split at h
        · cases h
        · cases h
          simp [hc]
      · cases h
        rfl

theorem eq_of_after?_of_isSign (h : k.after? q c = some q') (hc : isSign c = false) :
    q' = ⟨q.depth, false⟩ := by
  rw [after?_of_isSign hc] at h
  exact (Option.some.inj h).symm

end Enclosure

end Scan

open Scan

/-! ## capitals -/

namespace Capitals

theorem isLetterlike_of_isAlphabetic {c : Char} (h : Unicode.isAlphabetic c = true) :
    Unicode.IsLetterlike c := by
  unfold Unicode.isAlphabetic at h
  split at h
  · exact .inl h
  · exact .inr (by omega)

/-- A character is respelled as letters, or kept. -/
theorem spelling_cases (x : Context) (c : Char) :
    x.spelling c = [c] ∨
      isSign c = false ∧ x.spelling c ≠ [] ∧ ∀ y ∈ x.spelling c, isSign y = false := by
  unfold Context.spelling
  split
  · exact .inl rfl
  · next hkept =>
    have halpha : Unicode.isAlphabetic c = true := by
      simp only [Bool.or_eq_true, not_or, Bool.not_eq_true', Bool.not_eq_false] at hkept
      exact hkept.1.2
    have hc : isSign c = false := isSign_of_isLetterlike (isLetterlike_of_isAlphabetic halpha)
    have hsign {y : Char} (hy : y = c ∨ Unicode.IsLetterlike y) : isSign y = false := by
      obtain rfl | hy := hy
      · exact hc
      · exact isSign_of_isLetterlike hy
    right
    split
    · exact ⟨hc, Unicode.upperChar_ne_nil c, fun y hy => hsign (Unicode.mem_upperChar hy)⟩
    · exact ⟨hc, Unicode.lowerChar_ne_nil c, fun y hy => hsign (Unicode.mem_lowerChar hy)⟩

/-- **Capitals** do not matter for the end of a text. -/
theorem closes_titleCase {k : Enclosure} {t : Text} (h : k.Closes t) :
    k.Closes (titleCase t) := by
  obtain ⟨q, ht, hq⟩ := h
  have hstep (x : Context) (q p : Quotation) (c : Char) (q' : Quotation) (hqp : q = p)
      (hc : k.after? q c = some q') :
      ∃ p', pass? k.after? p (x.spelling c) = some p' ∧ q' = p' := by
    subst hqp
    refine ⟨q', ?_, rfl⟩
    obtain hs | ⟨hsign, hne, hs⟩ := spelling_cases x c
    · rw [hs, pass?_cons, hc]
      rfl
    · rw [Enclosure.eq_of_after?_of_isSign hc hsign]
      exact Enclosure.pass?_of_isSign_of_ne_nil hne hs k q
  obtain ⟨-, p, hp, rfl⟩ := Enclosure.pass?_rewrite (m := ({} : Context)) Context.after titleCaseFrom
    (fun _ => rfl) (fun _ _ _ => rfl) hstep rfl ht
  exact ⟨q, hp, hq⟩

end Capitals

/-! ## LaTeX sequences -/

namespace Latex

/-- The characters that have a sequence are no signs, and their sequences leave
nothing open. -/
theorem passes_table : ∀ p ∈ table, isSign p.1 = false ∧
    pass? Enclosure.marks.after? .bare p.2.written = some .bare := by
  decide +kernel

/-- A character and its sequence. -/
theorem exists_of_latexFor {c : Char} {t : Text} (h : latexFor c = some t) :
    ∃ p ∈ table, p.1 = c ∧ p.2.written = t := by
  obtain ⟨seq, hseq, rfl⟩ := Option.map_eq_some_iff.1 h
  obtain ⟨l₁, l₂, hl, -⟩ := List.lookup_eq_some_iff.1 hseq
  exact ⟨(c, seq), by simp [hl], rfl, rfl⟩

/-- A character is kept, or it stands in plain text and its sequence takes its place. -/
theorem replaced_cases (m : Mode) (c : Char) : replaced m c = [c] ∨
    m.isPlain c = true ∧ ∃ p ∈ table, p.1 = c ∧ replaced m c = p.2.written := by
  unfold replaced
  split
  · next hplain =>
    cases hc : latexFor c with
    | none => exact .inl rfl
    | some t =>
        obtain ⟨p, hp, hpc, rfl⟩ := exists_of_latexFor hc
        exact .inr ⟨hplain, p, hp, hpc, rfl⟩
  · exact .inl rfl

/-- A mode knows whether a backslash comes just before, but for mathematics. -/
def Mode.Fits : Mode → Quotation → Prop
  | plain, q | letters, q => q.escaped = false
  | backslash, q => q.escaped = true
  | math, _ => True

theorem Mode.fits_enter {c : Char} {q : Quotation} (h : q.escaped = (c = '\\')) :
    (enter c).Fits q := by
  unfold enter
  split
  · next hc => simpa [Mode.Fits, hc] using h
  · next hc =>
    split
    · trivial
    · simpa [Mode.Fits, hc] using h

/-- Modes go along with the machine of an enclosed text. -/
theorem Mode.fits_after {k : Enclosure} {m : Mode} {q q' : Quotation} {c : Char} (hm : m.Fits q)
    (h : k.after? q c = some q') : (m.after c).Fits q' := by
  have he := Enclosure.escaped_of_after? h
  cases m with
  | plain =>
      have hq : q.escaped = false := hm
      exact fits_enter (by simp [he, hq])
  | backslash =>
      have hq : q.escaped = true := hm
      rw [Mode.after]
      split <;> simp [Mode.Fits, he, hq]
  | letters =>
      have hq : q.escaped = false := hm
      rw [Mode.after]
      split
      · next hc =>
        have hne : c ≠ '\\' := by
          rintro rfl
          exact absurd hc (by decide)
        simp [Mode.Fits, he, hne]
      · exact fits_enter (by simp [he, hq])
  | math =>
      rw [Mode.after]
      split
      · next hc => simp [Mode.Fits, he, hc]
      · trivial

theorem Mode.escaped_of_isPlain {m : Mode} {q : Quotation} {c : Char} (hm : m.Fits q)
    (h : m.isPlain c = true) : q.escaped = false := by
  cases m with
  | plain => exact hm
  | letters => exact hm
  | backslash => cases h
  | math => cases h

/-- A character is passed as what it is replaced by. -/
theorem pass?_replaced {k : Enclosure} {m : Mode} {q q' : Quotation} {c : Char} (hm : m.Fits q)
    (h : k.after? q c = some q') : pass? k.after? q (replaced m c) = some q' := by
  obtain hc | ⟨hplain, p, hp, rfl, hc⟩ := replaced_cases m c
  · rw [hc, pass?_cons, h]
    rfl
  · obtain ⟨hsign, hpass⟩ := passes_table p hp
    obtain ⟨n, e⟩ := q
    obtain rfl : e = false := Mode.escaped_of_isPlain hm hplain
    have hdeeper := Enclosure.pass?_deeper (l := k) (fun _ => rfl) hpass n
    rw [Nat.zero_add] at hdeeper
    rw [hc, hdeeper, Enclosure.eq_of_after?_of_isSign h hsign]

/-- **LaTeX sequences** do not matter for the end of a text. -/
theorem closes_escape {k : Enclosure} {t : Text} (h : k.Closes t) : k.Closes (escape t) := by
  obtain ⟨q, ht, hq⟩ := h
  have hstep (m : Mode) (q p : Quotation) (c : Char) (q' : Quotation) (hqp : q = p ∧ m.Fits q)
      (hc : k.after? q c = some q') :
      ∃ p', pass? k.after? p (replaced m c) = some p' ∧ q' = p' ∧ (m.after c).Fits q' := by
    obtain ⟨rfl, hm⟩ := hqp
    exact ⟨q', pass?_replaced hm hc, rfl, Mode.fits_after hm hc⟩
  have hplain : Mode.plain.Fits .bare := rfl
  obtain ⟨-, p, hp, rfl, -⟩ := Enclosure.pass?_rewrite Mode.after escapeFrom
    (fun _ => rfl) (fun _ _ _ => rfl) hstep ⟨rfl, hplain⟩ ht
  exact ⟨q, hp, hq⟩

end Latex

/-! ## percent encoding -/

namespace Url

theorem isSign_hexDigit : ∀ n < 16, isSign (hexDigit n) = false := by decide

/-- An encoded octet has no signs. -/
theorem isSign_percent {n : Nat} (h : n < 256) : ∀ x ∈ percent n, isSign x = false := by
  have hhigh : isSign (hexDigit (n / 16)) = false := isSign_hexDigit _ (by omega)
  have hlow : isSign (hexDigit (n % 16)) = false := isSign_hexDigit _ (by omega)
  have hsign : isSign '%' = false := by decide
  simp [percent, hhigh, hlow, hsign]

theorem lt_of_mem_octetsOf {n : Nat} {c : Char} (h : n ∈ Text.octetsOf c) : n < 256 := by
  obtain ⟨u, -, rfl⟩ := List.mem_map.1 h
  exact u.toNat_lt

/-- A character is encoded without signs, unless it is a brace, which is kept. -/
theorem encodeChar_cases (c : Char) :
    encodeChar c = [c] ∧ (c = '{' ∨ c = '}') ∨
      (c ≠ '{' ∧ c ≠ '}') ∧ ∀ x ∈ encodeChar c, isSign x = false := by
  by_cases hbrace : c = '{' ∨ c = '}'
  · left
    refine ⟨?_, hbrace⟩
    obtain rfl | rfl := hbrace <;> rfl
  · right
    refine ⟨not_or.1 hbrace, fun x hx => ?_⟩
    unfold encodeChar at hx
    split at hx
    · next hkept =>
      obtain rfl := List.mem_singleton.1 hx
      simp only [isKept, Bool.and_eq_true, decide_eq_true_eq, List.mem_cons, not_or] at hkept
      simp only [isSign, List.mem_cons, List.not_mem_nil, or_false, decide_eq_false_iff_not, not_or]
      exact ⟨(not_or.1 hbrace).1, (not_or.1 hbrace).2, hkept.2.1, hkept.2.2.2.2.1⟩
    · obtain ⟨n, hn, hx⟩ := List.mem_flatMap.1 hx
      exact isSign_percent (lt_of_mem_octetsOf hn) x hx

/-- **Percent encoding** takes marks and backslashes away, and keeps braces. -/
theorem closes_encode {k : Enclosure} {t : Text} (h : k.Closes t) : k.Closes (encode t) := by
  obtain ⟨q, ht, hq⟩ := h
  have hstep (m : Unit) (q p : Quotation) (c : Char) (q' : Quotation)
      (hqp : p = ⟨q.depth, false⟩) (hc : k.after? q c = some q') :
      ∃ p', pass? k.after? p (encodeChar c) = some p' ∧ p' = ⟨q'.depth, false⟩ := by
    subst hqp
    refine ⟨_, ?_, rfl⟩
    obtain ⟨he, hbrace⟩ | ⟨hbrace, hs⟩ := encodeChar_cases c
    · rw [he]
      obtain rfl | rfl := hbrace
      · have hq' : q' = ⟨q.depth + 1, false⟩ := by simpa [Enclosure.after?, eq_comm] using hc
        simp [hq', Enclosure.after?]
      · have hq' : q.depth ≠ 0 ∧ q' = ⟨q.depth - 1, false⟩ := by
          simpa [Enclosure.after?, eq_comm] using hc
        simp [hq', Enclosure.after?]
    · rw [Enclosure.pass?_of_isSign hs, Enclosure.depth_of_after? hc, Names.depthAfter,
        if_neg hbrace.1, if_neg hbrace.2]
  obtain ⟨-, p, hp, rfl⟩ := Enclosure.pass?_rewrite (m := ()) (fun _ _ => ()) (fun _ => encode)
    (fun _ => rfl) (fun _ _ _ => rfl) hstep rfl ht
  exact ⟨_, hp, hq.1, fun _ => rfl⟩

end Url

end Bibliography
