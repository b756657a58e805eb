import Bibliography.Proofs.Layout.Rereading
import Bibliography.Proofs.Text.Split

/-!
# Bibliography.Proofs.Layout.Filling

Lines that are filled.  A wrapped text is its tokens in lines (`Wrap.inLines`): a
space stands between two tokens of a line, and a line feed and the indentation
between two lines.  The lines are as long as they can be (`Wrap.AreFilled`): each
of them fits or is a single token, and the first token of the next one would not
have fit.

A wrapped text has the tokens that were filled in, at any column, so that it is
wrapped to itself.  A value is only wrapped if it does not fit, and what is
written of it has no more than its tokens either; so a layout leaves alone what it
has written.

* `exists_fill_inLines` — the invariant: the tokens so far are a line that fits or
  is a single token;
* `tokens_wrap` — a wrapped text has the same tokens;
* `wrap_filled` — lines, tokens and the second run, for texts and for values.
-/

namespace Bibliography

namespace Wrap

variable {n : Nesting} {c : Char} {s t w : Text} {ts ws line : List Text}
  {lines : List (List Text)} {column width used : Nat}

/-! ## lines -/

/-- The tokens of a line, with a space between any two. -/
def lineText (line : List Text) : Text := Text.joinWith [' '] line

/-- Tokens in lines, of which all but the first begin at a column. -/
def inLines (column : Nat) (lines : List (List Text)) : Text :=
  Text.joinWith ('\n' :: Text.spaces column) (lines.map lineText)

/-- A line that begins at a column fits in the width, or is a single token. -/
def Fits (column width : Nat) (line : List Text) : Prop :=
  column + (lineText line).length ≤ width ∨ ∃ t, line = [t]

/-- No token of the next line has room on the line. -/
def IsFull (column width : Nat) (line next : List Text) : Prop :=
  ∀ t ∈ next.head?, width < column + (lineText line).length + 1 + t.length

/-- Lines that are as long as they can be. -/
structure AreFilled (column width : Nat) (lines : List (List Text)) : Prop where
  ne_nil : ∀ line ∈ lines, line ≠ []
  fits : ∀ line ∈ lines, Fits column width line
  full : lines.IsChain (IsFull column width)

theorem lineText_append (hline : line ≠ []) (t : Text) :
    lineText (line ++ [t]) = lineText line ++ ' ' :: t := by
  induction line with
  | nil => contradiction
  | cons u us ih =>
      cases us with
      | nil => simp [lineText, Text.joinWith]
      | cons v us =>
          have hrest := ih (List.cons_ne_nil v us)
          unfold lineText at hrest ⊢
          rw [List.cons_append, List.cons_append, Text.joinWith, ← List.cons_append, hrest]
          simp [Text.joinWith]

theorem inLines_cons (column : Nat) (line next : List Text) (lines : List (List Text)) :
    inLines column (line :: next :: lines) =
      lineText line ++ '\n' :: Text.spaces column ++ inLines column (next :: lines) := rfl

/-- **Tokens are filled into lines.**  If the tokens so far are a line that fits or is a single
token, the others go on in it as long as they have room, and make lines of their own after that. -/
theorem exists_fill_inLines (line ts : List Text) (hline : line ≠ [])
    (hfits : Fits column width line) :
    ∃ more lines, line ++ ts = (line ++ more) ++ lines.flatten ∧
      lineText line ++ fill column width (column + (lineText line).length) ts =
        inLines column ((line ++ more) :: lines) ∧
      AreFilled column width ((line ++ more) :: lines) := by
  induction ts generalizing line with
  | nil =>
      refine ⟨[], [], by simp, ?_, ?_⟩
      · simp [fill, inLines, Text.joinWith]
      · rw [List.append_nil]
        exact ⟨by simpa using hline, by simpa using hfits, List.isChain_singleton line⟩
  | cons t ts ih =>
      rw [fill]
      split
      · next hwide =>
        obtain ⟨more, lines, htokens, htext, hfilled⟩ :=
          ih [t] (List.cons_ne_nil t []) (.inr ⟨t, rfl⟩)
        refine ⟨[], ([t] ++ more) :: lines, ?_, ?_, ?_⟩
        · rw [List.append_nil, List.flatten_cons, ← htokens, List.singleton_append]
        · rw [List.append_nil, inLines_cons, ← htext]
          simp [lineText, Text.joinWith]
        · rw [List.append_nil]
          refine ⟨?_, ?_, ?_⟩
          · exact List.forall_mem_cons.2 ⟨hline, hfilled.ne_nil⟩
          · exact List.forall_mem_cons.2 ⟨hfits, hfilled.fits⟩
          · refine hfilled.full.cons_cons fun u hu => ?_
            obtain rfl : t = u := by simpa using hu
            exact hwide
      · next hroom =>
        have hlength : (lineText (line ++ [t])).length = (lineText line).length + 1 + t.length := by
          rw [lineText_append hline, List.length_append, List.length_cons]
          omega
        obtain ⟨more, lines, htokens, htext, hfilled⟩ :=
          ih (line ++ [t]) (by simp) (.inl (by omega))
        rw [List.append_assoc] at htokens htext hfilled
        refine ⟨[t] ++ more, lines, ?_, ?_, ?_⟩
        · simpa using htokens
        · rw [hlength, lineText_append hline, ← Nat.add_assoc, ← Nat.add_assoc] at htext
          rw [List.append_assoc] at htext
          exact htext
        · simpa using hfilled

theorem exists_wrap_inLines (column width : Nat) (s : Text) : ∃ lines,
    lines.flatten = tokens s ∧ wrap column width s = inLines column lines ∧
      AreFilled column width lines := by
  unfold wrap
  cases tokens s with
  | nil => exact ⟨[], rfl, rfl, ⟨by simp, by simp, List.isChain_nil⟩⟩
  | cons t ts =>
      obtain ⟨more, lines, htokens, htext, hfilled⟩ := exists_fill_inLines [t] ts
        (List.cons_ne_nil t []) (.inr ⟨t, rfl⟩)
      exact ⟨_, by rw [List.flatten_cons, ← htokens]; rfl, htext, hfilled⟩

/-! ## lines of the text -/

/-- Spaces in front of a text are in front of its first line. -/
theorem mem_lines_spaces_append {p : Text} (h : p ∈ Text.lines (Text.spaces column ++ t)) :
    ∃ u ∈ Text.lines t, p = u ∨ p = Text.spaces column ++ u := by
  have hspace : ∀ x ∈ Text.spaces column, decide (x = '\n') = false := fun x hx => by
    obtain rfl := List.eq_of_mem_replicate hx
    rfl
  obtain ⟨u, us, ht, hlines⟩ := Text.exists_splitWhere_append hspace t
  unfold Text.lines at h ⊢
  rw [hlines] at h
  rw [ht]
  obtain rfl | h := List.mem_cons.1 h
  · exact ⟨u, List.mem_cons_self, .inr rfl⟩
  · exact ⟨p, List.mem_cons_of_mem u h, .inl rfl⟩

/-- A line of the text is a line of one of the lines. -/
theorem mem_lines_inLines {p : Text} (hlines : lines ≠ [])
    (h : p ∈ Text.lines (Text.spaces column ++ inLines column lines)) :
    ∃ line ∈ lines, p ∈ Text.lines (Text.spaces column ++ lineText line) := by
  induction lines with
  | nil => contradiction
  | cons line lines ih =>
      cases lines with
      | nil => exact ⟨line, List.mem_cons_self, h⟩
      | cons next lines =>
          rw [inLines_cons, ← List.append_assoc, ← List.append_assoc, List.append_assoc,
            List.cons_append, Text.lines_append_newline, List.mem_append] at h
          obtain h | h := h
          · exact ⟨line, List.mem_cons_self, h⟩
          · obtain ⟨line', hline', hp⟩ := ih (List.cons_ne_nil _ _) h
            exact ⟨line', List.mem_cons_of_mem _ hline', hp⟩

/-! ## tokens of a wrapped text -/

/-- A token is filled in after a gap of blanks. -/
theorem exists_gap_fill (column width used : Nat) (t : Text) (ts : List Text) :
    ∃ g used', g ≠ [] ∧ (∀ x ∈ g, Text.isBlank x = true) ∧
      fill column width used (t :: ts) = g ++ (t ++ fill column width used' ts) := by
  rw [fill]
  split
  · refine ⟨'\n' :: Text.spaces column, _, List.cons_ne_nil _ _, ?_, List.append_assoc _ _ _⟩
    exact List.forall_mem_cons.2 ⟨rfl, fun x hx => Text.isBlank_spaces hx⟩
  · exact ⟨[' '], _, List.cons_ne_nil _ _, List.forall_mem_singleton.2 rfl, rfl⟩

/-- Pieces that are filled in again are found again, but for empty ones. -/
theorem exists_pieces_fill (hpieces : pieces n s = w :: ws) (column width used : Nat) :
    ∃ us, pieces n (w ++ fill column width used (ws.filter (· ≠ []))) = w :: us ∧
      us.filter (· ≠ []) = ws.filter (· ≠ []) := by
  induction s generalizing n w ws used with
  | nil =>
      obtain ⟨rfl, rfl⟩ := List.cons.inj hpieces
      exact ⟨[], rfl, rfl⟩
  | cons c s ih =>
      by_cases hc : n.breakable c = true
      · rw [pieces_of_breakable hc] at hpieces
        obtain ⟨rfl, rfl⟩ := List.cons.inj hpieces
        obtain ⟨u, us, hs⟩ := exists_pieces n s
        rw [hs]
        cases u with
        | nil => exact ih hs used
        | cons x u =>
            obtain ⟨g, used', hg, hblank, hfill⟩ :=
              exists_gap_fill column width used (x :: u) (us.filter (· ≠ []))
            obtain ⟨vs, hvs, heq⟩ := ih hs used'
            obtain ⟨y, g, rfl⟩ := List.exists_cons_of_ne_nil hg
            rw [List.filter_cons_of_pos (by simp), List.nil_append, hfill,
              pieces_gap (fun x hx => Nesting.breakable_of_isBlank hc (hblank x hx)), hvs]
            refine ⟨List.replicate g.length [] ++ (x :: u) :: vs, rfl, ?_⟩
            rw [List.filter_append, List.filter_replicate, List.filter_cons_of_pos (by simp), heq]
            simp
      · obtain ⟨u, us, hs⟩ := exists_pieces (n.after c) s
        rw [pieces_of_not_breakable hc hs] at hpieces
        obtain ⟨rfl, rfl⟩ := List.cons.inj hpieces
        obtain ⟨vs, hvs, heq⟩ := ih hs used
        exact ⟨vs, pieces_of_not_breakable hc hvs, heq⟩

/-- **A wrapped text has the same tokens.** -/
theorem tokens_wrap (column width : Nat) (s : Text) :
    tokens (wrap column width s) = tokens s := by
  induction s with
  | nil => rfl
  | cons c s ih =>
      by_cases hc : (⟨0, false⟩ : Nesting).breakable c = true
      · -- White space in front of the first token is dropped.
        have htokens : tokens (c :: s) = tokens s := by
          rw [tokens, pieces_of_breakable hc, List.filter_cons_of_neg (by simp), tokens]
        rw [wrap_eq_of_tokens_eq htokens, ih, htokens]
      · obtain ⟨w, ws, used, hpieces, hwrap⟩ := exists_wrap hc column width s
        obtain ⟨us, hus, heq⟩ := exists_pieces_fill hpieces column width used
        rw [tokens, tokens, hwrap, hus, hpieces, List.filter_cons, List.filter_cons, heq]

/-- **A wrapped text is wrapped to itself.** -/
theorem wrap_wrap (column width : Nat) (s : Text) :
    wrap column width (wrap column width s) = wrap column width s :=
  wrap_eq_of_tokens_eq (tokens_wrap column width s) column width

/-! ## cutting a text into tokens -/

/-- No white space of a text separates tokens. -/
def Unbroken (n : Nesting) : Text → Prop
  | [] => True
  | c :: s => ¬ n.breakable c = true ∧ Unbroken (n.after c) s

/-- A text is cut into tokens: white space that separates tokens stands between any two, and there
is none in them. -/
inductive CutInto : Nesting → Text → List Text → Prop where
  | nil {n : Nesting} : CutInto n [] []
  | gap {n : Nesting} {c : Char} {s : Text} {ts : List Text} : n.breakable c = true →
      CutInto n s ts → CutInto n (c :: s) ts
  | last {n : Nesting} {t : Text} : t ≠ [] → Unbroken n t → CutInto n t [t]
  | token {n : Nesting} {t : Text} {c : Char} {s : Text} {ts : List Text} : t ≠ [] →
      Unbroken n t → (n.run t).breakable c = true → CutInto (n.run t) s ts →
      CutInto n (t ++ c :: s) (t :: ts)

theorem pieces_append_of_unbroken (ht : Unbroken n t) (hs : pieces (n.run t) s = w :: ws) :
    pieces n (t ++ s) = (t ++ w) :: ws := by
  induction t generalizing n with
  | nil => exact hs
  | cons c t ih => exact pieces_of_not_breakable ht.1 (ih ht.2 hs)

/-- The first piece of a text ends with the text, or in front of white space that separates. -/
theorem exists_of_pieces (h : pieces n s = w :: ws) : Unbroken n w ∧
    (s = w ∧ ws = [] ∨ ∃ c r, s = w ++ c :: r ∧ (n.run w).breakable c = true ∧
      ws = pieces (n.run w) r) := by
  induction s generalizing n w with
  | nil =>
      obtain ⟨rfl, rfl⟩ := List.cons.inj h
      exact ⟨trivial, .inl ⟨rfl, rfl⟩⟩
  | cons c s ih =>
      by_cases hc : n.breakable c = true
      · rw [pieces_of_breakable hc] at h
        obtain ⟨rfl, rfl⟩ := List.cons.inj h
        exact ⟨trivial, .inr ⟨c, s, rfl, hc, rfl⟩⟩
      · obtain ⟨u, us, hs⟩ := exists_pieces (n.after c) s
        rw [pieces_of_not_breakable hc hs] at h
        obtain ⟨rfl, rfl⟩ := List.cons.inj h
        obtain ⟨hu, hend⟩ := ih hs
        refine ⟨⟨hc, hu⟩, hend.imp ?_ ?_⟩
        · rintro ⟨rfl, rfl⟩
          exact ⟨rfl, rfl⟩
        · rintro ⟨x, r, rfl, hx, hws⟩
          exact ⟨x, r, rfl, hx, hws⟩

theorem CutInto.eq_filter (h : CutInto n s ts) : ts = (pieces n s).filter (· ≠ []) := by
  induction h with
  | nil => rfl
  | gap hc _ ih => rw [pieces_of_breakable hc, List.filter_cons_of_neg (by simp), ih]
  | @last n t hne ht =>
      have hone : pieces n (t ++ []) = [t ++ []] := pieces_append_of_unbroken ht rfl
      rw [List.append_nil] at hone
      rw [hone, List.filter_cons_of_pos (by simpa using hne), List.filter_nil]
  | token hne ht hc _ ih =>
      rw [pieces_append_of_unbroken ht (pieces_of_breakable hc _), List.append_nil,
        List.filter_cons_of_pos (by simpa using hne), ← ih]

theorem cutInto_filter (n : Nesting) (s : Text) : CutInto n s ((pieces n s).filter (· ≠ [])) := by
  obtain ⟨w, ws, hpieces⟩ := exists_pieces n s
  rw [hpieces]
  obtain ⟨hw, ⟨hs, rfl⟩ | ⟨c, r, hs, hc, rfl⟩⟩ := exists_of_pieces hpieces
  · rw [hs]
    cases w with
    | nil => exact .nil
    | cons x w => exact .last (List.cons_ne_nil x w) hw
  · have hrest := cutInto_filter (n.run w) r
    rw [hs]
    cases w with
    | nil => exact .gap hc hrest
    | cons x w => exact .token (List.cons_ne_nil x w) hw hc hrest
termination_by s.length
decreasing_by
  rw [hs, List.length_append, List.length_cons]
  omega

/-- **A text is cut into its tokens**, and into no others. -/
theorem cutInto_iff : CutInto ⟨0, false⟩ s ts ↔ ts = tokens s :=
  ⟨CutInto.eq_filter, fun h => h ▸ cutInto_filter ⟨0, false⟩ s⟩

/-! ## values -/

/-- A value that is written as the layout has written another one is written so again. -/
theorem value_of_written {l : Layout} {v v' : Value} (h : v'.written = l.value column v) :
    l.value column v' = l.value column v := by
  unfold Layout.value at h ⊢
  cases hwrap : l.wrap with
  | none => simpa only [hwrap] using h
  | some width =>
      rw [hwrap] at h
      dsimp only at h ⊢
      by_cases hwide : width < column + v.written.length
      · rw [if_pos hwide] at h ⊢
        split
        · rw [h, wrap_wrap]
        · exact h
      · rw [if_neg hwide] at h ⊢
        rw [h, if_neg hwide]

/-! ## filling -/

/-- **Lines are filled once and for all.**  A wrapped text is the tokens of the text in lines that
are as long as they can be, and these are its own tokens.  Every line of it, the first one at its
column, fits or is of a single token.  It is wrapped to itself, and a layout leaves alone what it
has written of a value: it writes the same of every value that is written so, and of the value that
is read again. -/
theorem wrap_filled (column width : Nat) (s : Text) :
    (∃ lines, CutInto ⟨0, false⟩ s lines.flatten ∧
      CutInto ⟨0, false⟩ (wrap column width s) lines.flatten ∧
      wrap column width s = inLines column lines ∧ AreFilled column width lines ∧
      (lines ≠ [] → ∀ p ∈ Text.lines (Text.spaces column ++ wrap column width s),
        p.length ≤ width ∨ ∃ t ∈ lines.flatten, ∃ u ∈ Text.lines t,
          p = u ∨ p = Text.spaces column ++ u)) ∧
    wrap column width (wrap column width s) = wrap column width s ∧
    ∀ (l : Layout) (v w : Value),
      (w.written = l.value column v → l.value column w = l.value column v) ∧
      (0 < column → v.IsClosed → l.value column v = v.written ∨ v.IsSolid →
        w.IsReadFrom (l.value column v) → l.value column w = l.value column v) := by
  obtain ⟨lines, htokens, htext, hfilled⟩ := exists_wrap_inLines column width s
  refine ⟨⟨lines, cutInto_iff.2 htokens, ?_, htext, hfilled, fun hne p hp => ?_⟩,
    wrap_wrap column width s, fun l v w => ⟨value_of_written, fun hcolumn hv hl hw => ?_⟩⟩
  · rw [cutInto_iff, tokens_wrap, htokens]
  · rw [htext] at hp
    obtain ⟨line, hline, hp⟩ := mem_lines_inLines hne hp
    obtain hshort | ⟨t, rfl⟩ := hfilled.fits line hline
    · refine .inl (Nat.le_trans (Text.length_le_of_mem_lines hp) ?_)
      rw [List.length_append, Text.spaces, List.length_replicate]
      exact hshort
    · refine .inr ⟨t, List.mem_flatten.2 ⟨[t], hline, List.mem_singleton_self t⟩, ?_⟩
      exact mem_lines_spaces_append hp
  · obtain ⟨v', hspelled, hsame⟩ := l.exists_spelled_value hcolumn hv hl
    rw [hw.unique hspelled.isReadFrom, hsame]

/-- A nested group is not broken, and lines are filled up to the fifteenth column. -/
theorem wrap_filled_nested :
    let v : Value := [.braced "aaa  bbb \x7bc  c\x7d ddd".toList]
    let w : Value := [.braced "aaa bbb\n    \x7bc  c\x7d ddd".toList]
    let l : Layout := { wrap := some 15 }
    wrap 4 15 v.written = w.written ∧ w.written = l.value 4 v ∧ l.value 4 w = l.value 4 v ∧
      v.IsClosed ∧ v.IsSolid ∧ w.IsReadFrom (l.value 4 v) := by
  intro v w l
  have hw : w.written = l.value 4 v := by decide
  have hread : w.IsReadFrom (l.value 4 v) :=
    hw ▸ (Value.spelled_written (v := w) (by decide)).isReadFrom
  have hv : v.IsClosed := by decide
  have hsolid : v.IsSolid := by decide
  have hsame := ((wrap_filled 4 15 v.written).2.2 l v w).2 (by decide) hv (.inr hsolid) hread
  exact ⟨by decide, hw, hsame, hv, hsolid, hread⟩

end Wrap

end Bibliography
