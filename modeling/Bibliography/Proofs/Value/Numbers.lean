import Bibliography.Proofs.Names
import Bibliography.Proofs.Unicode.Folding
import Bibliography.Proofs.Url
import Bibliography.Proofs.Value.Capitals

/-!
# Bibliography.Proofs.Value.Numbers

When a text loses its delimiters.  It does if it is a number, or in the field of the
month a macro, up to the white space at its ends (`isBare`).  No other step brings a
text to that: what a step puts into a text is neither a digit nor a letter, or it is
a small letter, which no number has, and which is the same for the name of a macro.
-/

namespace Bibliography

open Unicode

namespace Normalization

variable {month : Bool} {c : Char} {s t : Text}

/-- Whether a text becomes a bare token. -/
def isBare (month : Bool) (t : Text) : Bool :=
  Text.isDigits t.strip || month && MacroTable.isMonth t.strip

/-- A segment becomes a bare token, or is kept. -/
theorem toLiteral_cases (month : Bool) (s : Segment) :
    (isBare month s.text = true ∧ ∃ t, toLiteral month s = .literal t) ∨
      isBare month s.text = false ∧ toLiteral month s = s := by
  unfold toLiteral isBare
  dsimp only
  split
  · next hdigits => exact .inl ⟨by simp [hdigits], _, rfl⟩
  · next hdigits =>
    split
    · next hmonth => exact .inl ⟨by simp [hmonth], _, rfl⟩
    · next hmonth => exact .inr ⟨by simp [hdigits, hmonth], rfl⟩

/-- What the text of a bare token is made of, with the white space at its ends. -/
def IsTokenChar (month : Bool) (c : Char) : Prop :=
  isWhiteSpace c = true ∨ c.isDigit = true ∨ month = true ∧ IsLetterlike c

instance (month : Bool) (c : Char) : Decidable (IsTokenChar month c) :=
  inferInstanceAs (Decidable (_ ∨ _))

theorem isTokenChar_of_isBare (h : isBare month t = true) : ∀ c ∈ t, IsTokenChar month c := by
  obtain ⟨u, v, ht, hu, hv⟩ := Text.exists_trim isWhiteSpace t
  have hname : ∀ c ∈ t.strip, c.isDigit = true ∨ month = true ∧ IsLetterlike c := by
    intro c hc
    simp only [isBare, Bool.or_eq_true, Bool.and_eq_true] at h
    obtain hdigits | ⟨hm, hmonth⟩ := h
    · simp only [Text.isDigits, Bool.and_eq_true, List.all_eq_true] at hdigits
      exact .inl (hdigits.2 c hc)
    · exact .inr ⟨hm, (isLetterlike_of_isMonth hmonth).2 c hc⟩
  intro c hc
  rw [ht, List.mem_append, List.mem_append] at hc
  obtain (hc | hc) | hc := hc
  · exact .inl (hu c hc)
  · exact .inr (hname c hc)
  · exact .inl (hv c hc)

theorem IsTokenChar.of_month (h : IsTokenChar month c) : IsTokenChar true c :=
  h.imp_right fun h => h.imp_right fun h => ⟨rfl, h.2⟩

/-- A number has no small letter, nor has the white space around it. -/
theorem not_isTokenChar_of_isLowercase (h : isLowercase c = true) : ¬ IsTokenChar false c := by
  rintro (hblank | hdigit | ⟨hm, -⟩)
  · rw [(isWhiteSpace_cases hblank).2] at h
    cases h
  · rw [isLowercase_of_isDigit hdigit] at h
    cases h
  · cases hm

/-! ## sequences, addresses and braces -/

/-- Every LaTeX sequence has a character that no bare token has. -/
theorem exists_not_isTokenChar : ∀ p ∈ Latex.table, ∃ d ∈ p.2.written, ¬ IsTokenChar true d := by
  decide +kernel

theorem escapeFrom_eq_self_of_isTokenChar (m : Latex.Mode)
    (h : ∀ c ∈ Latex.escapeFrom m t, IsTokenChar true c) : Latex.escapeFrom m t = t := by
  induction t generalizing m with
  | nil => rfl
  | cons c t ih =>
      rw [Latex.escapeFrom] at h ⊢
      obtain hsame | ⟨-, p, hp, rfl, hwritten⟩ := Latex.replaced_cases m c
      · rw [hsame, ih (m.after c) fun d hd => h d (List.mem_append_right _ hd)]
        rfl
      · obtain ⟨d, hd, hnot⟩ := exists_not_isTokenChar p hp
        exact absurd (h d (by rw [hwritten]; exact List.mem_append_left _ hd)) hnot

theorem isBare_escape (h : isBare month (Latex.escape t) = true) : isBare month t = true := by
  have hsame : Latex.escape t = t := escapeFrom_eq_self_of_isTokenChar .plain fun c hc =>
    (isTokenChar_of_isBare h c hc).of_month
  rwa [hsame] at h

theorem encode_eq_self_of_isTokenChar (h : ∀ c ∈ Url.encode t, IsTokenChar true c) :
    Url.encode t = t := by
  induction t with
  | nil => rfl
  | cons c t ih =>
      rw [Url.encode, List.flatMap_cons] at h ⊢
      obtain hsame | hpercent := Url.encodeChar_eq_self_or c
      · have hrest : t.flatMap Url.encodeChar = t := ih fun d hd => h d (List.mem_append_right _ hd)
        rw [hsame, hrest]
        rfl
      · exact absurd (h '%' (List.mem_append_left _ hpercent)) (by decide)

theorem isBare_encode (h : isBare month (Url.encode t) = true) : isBare month t = true := by
  have hsame : Url.encode t = t := encode_eq_self_of_isTokenChar fun c hc =>
    (isTokenChar_of_isBare h c hc).of_month
  rwa [hsame] at h

theorem isBare_braces (month : Bool) (t : Text) : isBare month ('{' :: t ++ ['}']) = false := by
  refine Bool.eq_false_iff.2 fun h => ?_
  have hbrace := (isTokenChar_of_isBare h '{' List.mem_cons_self).of_month
  exact absurd hbrace (by decide)

/-! ## lists -/

/-- A list that was cut off is no number. -/
theorem isBare_truncateAuthors {l : Nat} (h : isBare false (truncateAuthors l t) = true) :
    isBare false t = true := by
  obtain hsame | hcut := truncateAuthors_eq l t
  · rwa [hsame] at h
  · have hmem : 'o' ∈ truncateAuthors l t := by
      rw [hcut]
      exact Names.mem_join_of_mem_others (by decide) _
    exact absurd (isTokenChar_of_isBare h 'o' hmem) (by decide)

end Normalization

/-! ## months -/

namespace MacroTable

variable {s t : Text}

/-- The macro of a month is known by its folding. -/
theorem isMonth_congr (h : s.caseFold = t.caseFold) : isMonth s = isMonth t := by
  simp only [isMonth, get?, Text.eqIgnoreCase, h]

end MacroTable

/-! ## capitals -/

namespace Capitals

variable {x : Context} {c : Char} {s t : Text}

/-- The spelling of a capital is not empty, and no white space unless the capital is. -/
theorem isWhiteSpace_spelling (h : upperChar c = [c]) (hc : isWhiteSpace c = false) :
    x.spelling c ≠ [] ∧ ∀ y ∈ x.spelling c, isWhiteSpace y = false := by
  have hone : [c] ≠ [] ∧ ∀ y ∈ [c], isWhiteSpace y = false := by simp [hc]
  rw [Context.spelling_eq]
  split
  · exact hone
  · split
    · rwa [h]
    · refine ⟨lowerChar_ne_nil c, fun y hy => ?_⟩
      obtain hsame | ⟨-, hlower⟩ := lowerChar_cases c
      · rw [hsame] at hy
        exact hone.2 y hy
      · refine Bool.eq_false_iff.2 fun hblank => ?_
        obtain hsmall | rfl := hlower y hy
        · rw [(isWhiteSpace_cases hblank).2] at hsmall
          cases hsmall
        · exact absurd hblank (by decide)

theorem titleCaseFrom_append (x : Context) (s t : Text) :
    titleCaseFrom x (s ++ t) = titleCaseFrom x s ++ titleCaseFrom (x.run s) t := by
  induction s generalizing x with
  | nil => rfl
  | cons c s ih => rw [List.cons_append, titleCaseFrom, titleCaseFrom, ih, List.append_assoc]; rfl

theorem titleCaseFrom_ne_nil (x : Context) (h : s ≠ []) : titleCaseFrom x s ≠ [] := by
  cases s with
  | nil => contradiction
  | cons c s =>
      have hne : x.spelling c ≠ [] := by
        obtain hsame | ⟨-, hne, -⟩ := spelling_cases x c
        · rw [hsame]
          exact List.cons_ne_nil c []
        · exact hne
      exact List.append_ne_nil_of_left_ne_nil hne _

/-- White space keeps its spelling. -/
theorem titleCaseFrom_blank (x : Context) (h : ∀ c ∈ s, isWhiteSpace c = true) :
    titleCaseFrom x s = s := by
  induction s generalizing x with
  | nil => rfl
  | cons c s ih =>
      obtain ⟨hc, hs⟩ := List.forall_mem_cons.1 h
      have hkept := Context.keeps_of_isAlphabetic (isWhiteSpace_cases hc).1 x
      rw [titleCaseFrom, Context.spelling_of_keeps hkept, ih _ hs]
      rfl

/-- A text that begins with no white space does not once it is respelled. -/
theorem stops_titleCaseFrom (x : Context) (hupper : ∀ c ∈ s, upperChar c = [c])
    (h : Text.Stops isWhiteSpace s) : Text.Stops isWhiteSpace (titleCaseFrom x s) := by
  cases s with
  | nil => exact h
  | cons c s =>
      obtain ⟨hne, hall⟩ := isWhiteSpace_spelling (x := x) (hupper c List.mem_cons_self)
        (Text.stops_cons.1 h)
      exact Text.Stops.append (fun y hy => hall y (List.mem_of_mem_head? hy)) hne _

/-- A text that ends with no white space does not once it is respelled. -/
theorem stops_reverse_titleCaseFrom (x : Context) (hupper : ∀ c ∈ s, upperChar c = [c])
    (h : Text.Stops isWhiteSpace s.reverse) :
    Text.Stops isWhiteSpace (titleCaseFrom x s).reverse := by
  obtain rfl | ⟨s, c, rfl⟩ := List.eq_nil_or_concat s
  · exact h
  · rw [List.concat_eq_append] at hupper h ⊢
    rw [List.reverse_append] at h
    obtain ⟨hne, hall⟩ := isWhiteSpace_spelling (x := x.run s) (hupper c (by simp))
      (Text.stops_cons.1 h)
    have hlast : titleCaseFrom (x.run s) [c] = (x.run s).spelling c := List.append_nil _
    rw [titleCaseFrom_append, hlast, List.reverse_append]
    refine Text.Stops.append (fun y hy => hall y ?_) (by simpa using hne) _
    exact List.mem_reverse.1 (List.mem_of_mem_head? hy)

/-- What is respelled is trimmed as it was before. -/
theorem strip_titleCase (h : ∀ c ∈ t, upperChar c = [c]) :
    ∃ x, (titleCase t).strip = titleCaseFrom x t.strip := by
  obtain ⟨u, v, ht, hu, hv⟩ := Text.exists_trim isWhiteSpace t
  have hmem : ∀ c ∈ t.strip, upperChar c = [c] := fun c hc => h c (Text.mem_of_mem_trim hc)
  refine ⟨Context.run {} u, ?_⟩
  by_cases hne : t.strip = []
  · have hblank : ∀ c ∈ t, isWhiteSpace c = true := by
      intro c hc
      rw [ht, show Text.trim isWhiteSpace t = [] from hne, List.append_nil, List.mem_append] at hc
      exact hc.elim (hu c) (hv c)
    rw [titleCase, titleCaseFrom_blank _ hblank, hne]
    rfl
  · have hsplit : titleCase t = u ++ titleCaseFrom (Context.run {} u) t.strip ++ v := by
      calc
        titleCase t = titleCaseFrom {} (u ++ t.strip ++ v) := congrArg titleCase ht
        _ = u ++ titleCaseFrom (Context.run {} u) t.strip ++ v := by
          rw [titleCaseFrom_append, titleCaseFrom_append, titleCaseFrom_blank _ hu,
            titleCaseFrom_blank _ hv]
    rw [hsplit]
    exact Text.trim_append hu hv (titleCaseFrom_ne_nil _ hne)
      (stops_titleCaseFrom _ hmem (Text.stops_trim _ t))
      (stops_reverse_titleCaseFrom _ hmem (Text.stops_reverse_trimEnd _ _))

/-- **Folding forgets the spelling.** -/
theorem caseFold_titleCaseFrom (x : Context) (hupper : ∀ c ∈ s, upperChar c = [c]) :
    (titleCaseFrom x s).caseFold = s.caseFold := by
  induction s generalizing x with
  | nil => rfl
  | cons c s ih =>
      obtain ⟨hc, hs⟩ := List.forall_mem_cons.1 hupper
      have hone : Text.caseFold [c] = foldChar c := List.append_nil _
      have hfirst : (x.spelling c).caseFold = foldChar c := by
        rw [Context.spelling_eq]
        split
        · exact hone
        · split
          · rwa [hc]
          · exact foldChar_lowerChar c
      rw [titleCaseFrom, Text.caseFold_append, hfirst, ih _ hs]
      rfl

end Capitals

namespace Normalization

/-- **Dropping the capitals** brings no text to a bare token. -/
theorem isBare_dropped {month : Bool} {t : Text} (htitle : ∀ c ∈ t, isTitlecase c = false)
    (h : isBare month (Capitals.dropped t) = true) : isBare month t = true := by
  unfold Capitals.dropped at h
  split at h
  · next hcaps =>
    have hsmall := Capitals.not_small_of_isAllCaps hcaps
    have hupper := Capitals.upperChar_of_not_small htitle hsmall
    rw [isBare, Bool.or_eq_true, Bool.and_eq_true] at h ⊢
    obtain hdigits | ⟨hm, hmonth⟩ := h
    · -- A number has no small letter, so that nothing was respelled.
      have hnumber : isBare false (Capitals.titleCase t) = true := by simp [isBare, hdigits]
      obtain ⟨c, hc, hlower⟩ | ⟨hsame, -⟩ := Capitals.exists_lowercase_or_keeps {} hupper
      · exact absurd (isTokenChar_of_isBare hnumber c hc) (not_isTokenChar_of_isLowercase hlower)
      · rw [Capitals.titleCase, hsame] at hdigits
        exact .inl hdigits
    · obtain ⟨x, hstrip⟩ := Capitals.strip_titleCase hupper
      rw [hstrip] at hmonth
      have hfold := Capitals.caseFold_titleCaseFrom (s := t.strip) x
        fun c hc => hupper c (Text.mem_of_mem_trim hc)
      rw [MacroTable.isMonth_congr hfold] at hmonth
      exact .inr ⟨hm, hmonth⟩
  · exact h

end Normalization

end Bibliography
