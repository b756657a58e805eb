import Bibliography.Proofs.Tidy.Comments
import Bibliography.Render

/-!
# Bibliography.Proofs.Render.FreeText

Free text in a layout.  A layout takes white space away from the ends of a text,
and what is left is *trimmed*: it ends with something that is not white space,
and it begins with such a character or, where only blank lines are taken away,
with the indentation of its first line.

A trimmed text can be found again between the line feeds that separate it from
what stands before and after it (`trimText_eq`), and it is inert where the text
was.
-/

namespace Bibliography

namespace Layout

variable {tidyComments : Bool} {s t a p w : Text}

/-- The text that a layout makes of free text. -/
def trimText (tidyComments : Bool) (t : Text) : Text :=
  if tidyComments then t.strip else trimBlankLines t

theorem piece_text (l : Layout) (tidyComments : Bool) (t : Text) :
    l.piece tidyComments (.text t) =
      if trimText tidyComments t = [] then none else some (trimText tidyComments t) := rfl

/-- Text that no layout trims any further. -/
structure IsTrimmed (tidyComments : Bool) (p : Text) : Prop where
  first : ∃ indent c r, p = indent ++ c :: r ∧ Unicode.isWhiteSpace c = false ∧
    (∀ x ∈ indent, Unicode.isWhiteSpace x = true ∧ x ≠ '\n') ∧ (tidyComments = true → indent = [])
  last : Text.Stops Unicode.isWhiteSpace p.reverse

theorem IsTrimmed.ne_nil (h : IsTrimmed tidyComments p) : p ≠ [] := by
  obtain ⟨indent, c, r, rfl, -⟩ := h.first
  simp

/-- What stands before a trimmed text: white space that ends with a line, or any white space if all
of it is trimmed. -/
structure IsLead (tidyComments : Bool) (a : Text) : Prop where
  white : ∀ x ∈ a, Unicode.isWhiteSpace x = true
  line : tidyComments = true ∨ ∀ x ∈ a.reverse.head?, x = '\n'

/-- **A trimmed text is found again** between white space. -/
theorem trimText_eq (ha : IsLead tidyComments a) (hp : IsTrimmed tidyComments p)
    (hw : ∀ x ∈ w, Unicode.isWhiteSpace x = true) : trimText tidyComments (a ++ p ++ w) = p := by
  obtain ⟨⟨indent, c, r, rfl, hc, hindent, htidy⟩, hlast⟩ := hp
  have hfirst : Text.Stops Unicode.isWhiteSpace (c :: r) := Text.stops_cons.2 hc
  cases tidyComments with
  | true =>
      obtain rfl := htidy rfl
      rw [List.nil_append] at hlast ⊢
      rw [trimText, if_pos rfl, Text.strip]
      exact Text.trim_append ha.white hw (List.cons_ne_nil c r) hfirst hlast
  | false =>
      have hline : Text.Stops (· ≠ '\n') a.reverse := by
        intro x hx
        simpa using ha.line.resolve_left Bool.false_ne_true x hx
      have hwhite : ∀ x ∈ a ++ indent, Unicode.isWhiteSpace x = true := by
        intro x hx
        obtain hx | hx := List.mem_append.1 hx
        · exact ha.white x hx
        · exact (hindent x hx).1
      have hend : Text.stripEnd (a ++ (indent ++ c :: r) ++ w) = (a ++ indent) ++ c :: r := by
        rw [Text.stripEnd, Text.trimEnd_append hw, Text.trimEnd_eq_self, List.append_assoc]
        rw [List.reverse_append]
        exact hlast.append (by simp) _
      rw [trimText, if_neg Bool.false_ne_true, trimBlankLines, hend,
        Text.takeWhile_append_of_run hwhite hfirst, Text.dropWhile_append_of_run hwhite hfirst,
        List.reverse_append, Text.takeWhile_append_of_run, List.reverse_reverse]
      · intro x hx
        simpa using (hindent x (List.mem_reverse.1 hx)).2
      · exact hline

/-- The line that white space ends with. -/
theorem exists_lastLine (s : Text) :
    ∃ a, s = a ++ (s.reverse.takeWhile (· ≠ '\n')).reverse ∧ ∀ x ∈ a.reverse.head?, x = '\n' := by
  refine ⟨(s.reverse.dropWhile (· ≠ '\n')).reverse, ?_, fun x hx => ?_⟩
  · rw [← List.reverse_append, List.takeWhile_append_dropWhile, List.reverse_reverse]
  · rw [List.reverse_reverse] at hx
    simpa using Text.stops_dropWhile (· ≠ '\n') s.reverse x hx

/-- White space is trimmed away. -/
theorem trimText_of_white (tidyComments : Bool) (h : ∀ x ∈ t, Unicode.isWhiteSpace x = true) :
    trimText tidyComments t = [] := by
  have hend : t.stripEnd = [] := by
    rw [← List.nil_append t, Text.stripEnd, Text.trimEnd_append h]
    rfl
  have hstart : t.dropWhile Unicode.isWhiteSpace = [] := by
    rw [← List.append_nil t, List.dropWhile_append_of_pos h]
    rfl
  unfold trimText
  split
  · rw [Text.strip, Text.trim, Text.trimStart, hstart]
    rfl
  · rw [trimBlankLines, hend]
    rfl

/-- A text with more than white space has a trimmed text in it. -/
theorem exists_trimmed (tidyComments : Bool) {c : Char} {r : Text}
    (hsplit : t = s ++ c :: r ++ w) (hs : ∀ x ∈ s, Unicode.isWhiteSpace x = true)
    (hc : Unicode.isWhiteSpace c = false) (hr : Text.Stops Unicode.isWhiteSpace (c :: r).reverse) :
    ∃ a p, t = a ++ p ++ w ∧ IsLead tidyComments a ∧ IsTrimmed tidyComments p := by
  cases tidyComments with
  | true =>
      exact ⟨s, c :: r, hsplit, ⟨hs, .inl rfl⟩,
        ⟨⟨[], c, r, rfl, hc, List.forall_mem_nil _, fun _ => rfl⟩, hr⟩⟩
  | false =>
      obtain ⟨a, ha, hline⟩ := exists_lastLine s
      generalize hindent : (s.reverse.takeWhile (· ≠ '\n')).reverse = indent at ha
      refine ⟨a, indent ++ c :: r, by rw [hsplit, ha]; simp, ⟨fun x hx => hs x ?_, .inr hline⟩,
        ⟨indent, c, r, rfl, hc, fun x hx => ⟨hs x ?_, ?_⟩, fun h => absurd h Bool.false_ne_true⟩,
        ?_⟩
      · exact ha ▸ List.mem_append_left _ hx
      · exact ha ▸ List.mem_append_right _ hx
      · rw [← hindent, List.mem_reverse] at hx
        simpa using Text.mem_takeWhile hx
      · rw [List.reverse_append]
        exact hr.append (by simp) _

/-- **What a layout makes of free text is trimmed**, and only white space is taken away. -/
theorem exists_trimText (tidyComments : Bool) (t : Text) :
    (∀ x ∈ t, Unicode.isWhiteSpace x = true) ∨
    ∃ a w, t = a ++ trimText tidyComments t ++ w ∧ IsLead tidyComments a ∧
      IsTrimmed tidyComments (trimText tidyComments t) ∧ ∀ x ∈ w, Unicode.isWhiteSpace x = true := by
  obtain ⟨w, ht, hw⟩ := Text.exists_trimEnd Unicode.isWhiteSpace t
  have hlast := Text.stops_reverse_trimEnd Unicode.isWhiteSpace t
  generalize Text.trimEnd Unicode.isWhiteSpace t = s at ht hlast
  have hs := List.takeWhile_append_dropWhile (p := Unicode.isWhiteSpace) (l := s)
  have hstops := Text.stops_dropWhile Unicode.isWhiteSpace s
  have hwhite : ∀ x ∈ s.takeWhile Unicode.isWhiteSpace, Unicode.isWhiteSpace x = true :=
    fun x => Text.mem_takeWhile
  cases hrest : s.dropWhile Unicode.isWhiteSpace with
  | nil =>
      left
      rw [hrest, List.append_nil] at hs
      intro x hx
      rw [ht, ← hs] at hx
      obtain hx | hx := List.mem_append.1 hx
      · exact hwhite x hx
      · exact hw x hx
  | cons c r =>
      right
      rw [hrest] at hs hstops
      have hlast' : Text.Stops Unicode.isWhiteSpace (c :: r).reverse := by
        rw [← hs, List.reverse_append] at hlast
        intro x hx
        refine hlast x ?_
        rwa [List.head?_append_of_ne_nil _ (by simp)]
      obtain ⟨a, p, htp, ha, hp⟩ := exists_trimmed tidyComments (t := t) (w := w) (by rw [ht, hs])
        hwhite (Text.stops_cons.1 hstops) hlast'
      have htrim : trimText tidyComments t = p := by
        rw [htp]
        exact trimText_eq ha hp hw
      exact ⟨a, w, by rw [htrim]; exact htp, ha, by rw [htrim]; exact hp, hw⟩

/-! ## texts between line feeds -/

/-- White space after a text is trimmed away. -/
theorem trimText_append (hw : ∀ x ∈ w, Unicode.isWhiteSpace x = true) :
    trimText tidyComments (t ++ w) = trimText tidyComments t := by
  obtain hwhite | ⟨a, v, ht, ha, hp, hv⟩ := exists_trimText tidyComments t
  · rw [trimText_of_white tidyComments hwhite, trimText_of_white]
    intro x hx
    obtain hx | hx := List.mem_append.1 hx
    · exact hwhite x hx
    · exact hw x hx
  · have hvw : ∀ x ∈ v ++ w, Unicode.isWhiteSpace x = true := by
      intro x hx
      obtain hx | hx := List.mem_append.1 hx
      · exact hv x hx
      · exact hw x hx
    generalize trimText tidyComments t = p at ht hp ⊢
    rw [ht, List.append_assoc]
    exact trimText_eq ha hp hvw

/-- What a layout made of free text is found again after line feeds. -/
theorem trimText_trimText (ha : ∀ x ∈ a, x = '\n') :
    trimText tidyComments (a ++ trimText tidyComments t) = trimText tidyComments t := by
  have hlead : IsLead tidyComments a :=
    ⟨fun x hx => by rw [ha x hx]; decide,
      .inr fun x hx => ha x (List.mem_reverse.1 (List.mem_of_mem_head? hx))⟩
  obtain hwhite | ⟨-, -, -, -, hp, -⟩ := exists_trimText tidyComments t
  · rw [trimText_of_white tidyComments hwhite, List.append_nil]
    exact trimText_of_white tidyComments hlead.white
  · have hfound := trimText_eq hlead hp (List.forall_mem_nil _)
    rwa [List.append_nil] at hfound

/-- Text that begins with something else than white space still does. -/
theorem head?_trimText (tidyComments : Bool) {c : Char} (hc : Unicode.isWhiteSpace c = false)
    (h : t.head? = some c) : (trimText tidyComments t).head? = some c := by
  obtain ⟨r, rfl⟩ := List.head?_eq_some_iff.1 h
  obtain hwhite | ⟨a, w, ht, ha, hp, -⟩ := exists_trimText tidyComments (c :: r)
  · simp [hwhite c List.mem_cons_self] at hc
  · cases a with
    | cons x a =>
        obtain ⟨rfl, -⟩ := List.cons.inj ht
        simp [ha.white c List.mem_cons_self] at hc
    | nil =>
        have hhead := congrArg List.head? ht
        rwa [List.nil_append, List.head?_append_of_ne_nil _ hp.ne_nil, eq_comm] at hhead

/-- **What a layout makes of inert text is inert.** -/
theorem inert_trimText (tidyComments : Bool) (h : Inert t) : Inert (trimText tidyComments t) := by
  obtain hwhite | ⟨a, w, ht, ha, -, -⟩ := exists_trimText tidyComments t
  · rw [trimText_of_white tidyComments hwhite]
    exact Opening.noConfusion
  · intro hopened
    have hat : Opening.outside.run a = .outside := Opening.run_outside fun x hx => by
      rintro rfl
      exact absurd (ha.white _ hx) (by decide)
    apply h
    rw [ht, Opening.run_append, Opening.run_append, hat, hopened, Opening.run_opened]

end Layout

end Bibliography
