import Bibliography.Layout.Wrap
import Bibliography.Proofs.Scan.Classes
import Bibliography.Proofs.Text.Runs

/-!
# Bibliography.Proofs.Layout.Wrap

Wrapping changes nothing but white space.  `Wrap.Respaced` says how a text and a
wrapped one differ: where tokens may be broken, a run of white space can become
another gap, which ends with a space.  The nesting of what is around it stays
the same, so both have the same tokens, and what has been wrapped is wrapped to
itself.  `Wrap.Refilled` says what wrapping makes of a text: every run of white
space where tokens may be broken becomes a gap, and each gap is as wide as the
layout has it at least.

* `refilled_wrap` — a text is wrapped to a refilled one;
* `onlyBlanks_wrap` — where tokens of a wrapped text may be broken stand blanks;
* `Respaced.tokens_eq` — a respaced text has the same tokens;
* `length_wrap_le` — no text of the same tokens that fits on the line is shorter
  than the wrapped one.
-/

namespace Bibliography.Wrap

variable {n : Nesting} {c x : Char} {s t u v w : Text} {ws : List Text}
  {column width used : Nat}

/-! ## nesting -/

namespace Nesting

/-- The nesting after a text. -/
def run (n : Nesting) (s : Text) : Nesting := s.foldl after n

@[simp] theorem run_nil (n : Nesting) : n.run [] = n := rfl

@[simp] theorem run_cons (n : Nesting) (c : Char) (s : Text) :
    n.run (c :: s) = (n.after c).run s := rfl

theorem run_append (n : Nesting) (s t : Text) : n.run (s ++ t) = (n.run s).run t :=
  List.foldl_append

theorem after_of_isSign (h : Scan.isSign c = false) (n : Nesting) : n.after c = n := by
  simp only [Scan.isSign, List.mem_cons, List.not_mem_nil, or_false, decide_eq_false_iff_not,
    not_or] at h
  simp [after, h]

theorem breakable_iff : n.breakable c = true ↔ Unicode.isWhiteSpace c = true ∧ n.level ≤ 1 := by
  simp [breakable]

/-- Where a text may be broken, the nesting stays. -/
theorem after_of_breakable (h : n.breakable c = true) : n.after c = n :=
  after_of_isSign (Scan.isSign_of_isWhiteSpace (breakable_iff.1 h).1) n

/-- The nesting after a character is the one before, if the text may be broken there. -/
theorem breakable_after : (n.after c).breakable c = n.breakable c := by
  by_cases h : Unicode.isWhiteSpace c = true
  · rw [after_of_isSign (Scan.isSign_of_isWhiteSpace h)]
  · simp [breakable, h]

/-- Where a text may be broken, it may be broken at any white space. -/
theorem breakable_of_isBlank (h : n.breakable c = true) (hx : Text.isBlank x = true) :
    n.breakable x = true :=
  breakable_iff.2 ⟨Unicode.isWhiteSpace_of_isBlank hx, (breakable_iff.1 h).2⟩

end Nesting

/-- The blanks of a gap, which ends with a space. -/
theorem isBlank_gap (hv : ∀ x ∈ v, Text.isBlank x = true) :
    ∀ x ∈ v ++ [' '], Text.isBlank x = true :=
  List.forall_mem_append.2 ⟨hv, List.forall_mem_singleton.2 rfl⟩

/-! ## pieces and tokens -/

theorem pieces_of_breakable (h : n.breakable c = true) (s : Text) :
    pieces n (c :: s) = [] :: pieces n s := by
  rw [pieces, Nesting.after_of_breakable h, if_pos h]

theorem pieces_of_not_breakable (h : ¬ n.breakable c = true)
    (hs : pieces (n.after c) s = w :: ws) : pieces n (c :: s) = (c :: w) :: ws := by
  rw [pieces, Nesting.breakable_after, if_neg h, hs]

theorem exists_pieces (n : Nesting) (s : Text) : ∃ w ws, pieces n s = w :: ws := by
  induction s generalizing n with
  | nil => exact ⟨_, _, rfl⟩
  | cons c s ih =>
      by_cases h : n.breakable c = true
      · exact ⟨_, _, pieces_of_breakable h s⟩
      · obtain ⟨w, ws, hs⟩ := ih (n.after c)
        exact ⟨_, _, pieces_of_not_breakable h hs⟩

/-- A gap is cut into empty pieces. -/
theorem pieces_gap (hv : ∀ x ∈ v, n.breakable x = true) (s : Text) :
    pieces n (v ++ s) = List.replicate v.length [] ++ pieces n s := by
  induction v with
  | nil => rfl
  | cons x v ih =>
      obtain ⟨hx, hv⟩ := List.forall_mem_cons.1 hv
      rw [List.cons_append, pieces_of_breakable hx, ih hv]
      rfl

/-! ## other white space -/

/-- The same text with other white space where tokens may be broken: a run of white space becomes a
gap that ends with a space. -/
inductive Respaced : Nesting → Text → Text → Prop where
  | nil {n : Nesting} : Respaced n [] []
  | keep {n : Nesting} {c : Char} {s t : Text} :
      Respaced (n.after c) s t → Respaced n (c :: s) (c :: t)
  | drop {n : Nesting} {c x : Char} {s t : Text} : n.breakable c = true → n.breakable x = true →
      Respaced n (x :: s) t → Respaced n (c :: x :: s) t
  | space {n : Nesting} {c : Char} {v s t : Text} : n.breakable c = true →
      (∀ x ∈ v, Text.isBlank x = true) → Respaced n s t → Respaced n (c :: s) (v ++ ' ' :: t)

namespace Respaced

theorem refl (n : Nesting) (s : Text) : Respaced n s s := by
  induction s generalizing n with
  | nil => exact .nil
  | cons c s ih => exact .keep (ih _)

theorem append (h : Respaced n s t) (h' : Respaced (n.run s) u v) :
    Respaced n (s ++ u) (t ++ v) := by
  induction h with
  | nil => exact h'
  | keep _ ih => exact .keep (ih h')
  | drop hc hx _ ih =>
      rw [Nesting.run_cons, Nesting.after_of_breakable hc] at h'
      exact .drop hc hx (ih h')
  | space hc hv _ ih =>
      rw [Nesting.run_cons, Nesting.after_of_breakable hc] at h'
      rw [List.append_assoc]
      exact .space hc hv (ih h')

/-- The first piece is the same, and so are the others that are not empty. -/
theorem exists_pieces (h : Respaced n s t) : ∃ w us vs, pieces n s = w :: us ∧
    pieces n t = w :: vs ∧ us.filter (· ≠ []) = vs.filter (· ≠ []) := by
  induction h with
  | @nil n => exact ⟨[], [], [], rfl, rfl, rfl⟩
  | @keep n c s t _ ih =>
      obtain ⟨w, us, vs, hs, ht, heq⟩ := ih
      by_cases h : n.breakable c = true
      · rw [Nesting.after_of_breakable h] at hs ht
        refine ⟨[], w :: us, w :: vs, ?_, ?_, ?_⟩
        · rw [pieces_of_breakable h, hs]
        · rw [pieces_of_breakable h, ht]
        · rw [List.filter_cons, List.filter_cons, heq]
      · exact ⟨c :: w, us, vs, pieces_of_not_breakable h hs, pieces_of_not_breakable h ht, heq⟩
  | @drop n c x s t hc hx _ ih =>
      obtain ⟨w, us, vs, hs, ht, heq⟩ := ih
      rw [pieces_of_breakable hx] at hs
      obtain ⟨rfl, rfl⟩ := List.cons.inj hs
      refine ⟨[], [] :: pieces n s, vs, ?_, ht, heq⟩
      rw [pieces_of_breakable hc, pieces_of_breakable hx]
  | @space n c v s t hc hv _ ih =>
      obtain ⟨w, us, vs, hs, ht, heq⟩ := ih
      have hgap : ∀ x ∈ v ++ [' '], n.breakable x = true := fun x hx =>
        Nesting.breakable_of_isBlank hc (isBlank_gap hv x hx)
      have hpieces : pieces n (v ++ ' ' :: t) =
          [] :: (List.replicate v.length [] ++ pieces n t) := by
        simpa [List.replicate_succ] using pieces_gap hgap t
      refine ⟨[], w :: us, List.replicate v.length [] ++ pieces n t, ?_, hpieces, ?_⟩
      · rw [pieces_of_breakable hc, hs]
      · rw [List.filter_append, List.filter_replicate, ht, List.filter_cons, List.filter_cons, heq]
        simp

/-- **A respaced text has the same tokens.** -/
theorem tokens_eq (h : Respaced ⟨0, false⟩ s t) : tokens s = tokens t := by
  obtain ⟨w, us, vs, hs, ht, heq⟩ := h.exists_pieces
  rw [tokens, tokens, hs, ht, List.filter_cons, List.filter_cons, heq]

end Respaced

/-! ## lines -/

/-- What becomes of a text that is filled into lines: wherever tokens may be broken, white space
becomes a gap of more than `k` blanks that ends with a space. -/
inductive Refilled (k : Nat) : Nesting → Text → Text → Prop where
  | nil {n : Nesting} : Refilled k n [] []
  | keep {n : Nesting} {c : Char} {s t : Text} : ¬ n.breakable c = true →
      Refilled k (n.after c) s t → Refilled k n (c :: s) (c :: t)
  | drop {n : Nesting} {c x : Char} {s t : Text} : n.breakable c = true → n.breakable x = true →
      Refilled k n (x :: s) t → Refilled k n (c :: x :: s) t
  | space {n : Nesting} {c : Char} {v s t : Text} : n.breakable c = true →
      (∀ x ∈ v, Text.isBlank x = true) → k ≤ v.length → Refilled k n s t →
      Refilled k n (c :: s) (v ++ ' ' :: t)

theorem Refilled.respaced {k : Nat} (h : Refilled k n s t) : Respaced n s t := by
  induction h with
  | nil => exact .nil
  | keep _ _ ih => exact .keep ih
  | drop hc hx _ ih => exact .drop hc hx ih
  | space hc hv _ _ ih => exact .space hc hv ih

/-- A token is filled in after a gap, which is a new line if there is no width. -/
theorem exists_fill (hcolumn : 0 < column) (width used : Nat) (t : Text) (ts : List Text) :
    ∃ v used', (∀ x ∈ v, Text.isBlank x = true) ∧ (width = 0 → v.length = column) ∧
      fill column width used (t :: ts) = v ++ ' ' :: (t ++ fill column width used' ts) := by
  by_cases hwidth : width < used + 1 + t.length
  · obtain ⟨k, rfl⟩ : ∃ k, column = k + 1 := ⟨column - 1, by omega⟩
    refine ⟨'\n' :: Text.spaces k, k + 1 + t.length, ?_, fun _ => by simp [Text.spaces], ?_⟩
    · intro x hx
      obtain rfl | hx := List.mem_cons.1 hx
      · rfl
      · exact Text.isBlank_spaces hx
    · rw [fill, if_pos hwidth, Text.spaces, Text.spaces, List.replicate_succ']
      simp
  · refine ⟨[], used + 1 + t.length, List.forall_mem_nil _, fun hzero => ?_, ?_⟩
    · omega
    · rw [fill, if_neg hwidth]
      rfl

/-- The tokens of a text, filled into lines, are the text refilled. -/
theorem refilled_fill {k : Nat} (hcolumn : 0 < column) (hk : k ≤ if width = 0 then column else 0)
    (hend : Text.Stops Unicode.isWhiteSpace s.reverse) (hpieces : pieces n s = w :: ws)
    (used : Nat) : Refilled k n s (w ++ fill column width used (ws.filter (· ≠ []))) := by
  induction s generalizing n w ws used with
  | nil =>
      obtain ⟨rfl, rfl⟩ := List.cons.inj hpieces
      exact .nil
  | cons c s ih =>
      rw [List.reverse_cons] at hend
      have hend' := hend.of_append
      by_cases hc : n.breakable c = true
      · rw [pieces_of_breakable hc] at hpieces
        obtain ⟨rfl, rfl⟩ := List.cons.inj hpieces
        obtain ⟨u, us, hs⟩ := exists_pieces n s
        cases s with
        | nil =>
            -- White space does not end the text.
            have hwhite := Text.stops_cons.1 hend
            simp [(Nesting.breakable_iff.1 hc).1] at hwhite
        | cons x s =>
            by_cases hx : n.breakable x = true
            · -- Of a run of white space, only the last character becomes a gap.
              have hdrop := Refilled.drop hc hx (ih hend' hs used)
              rw [pieces_of_breakable hx] at hs
              obtain ⟨rfl, rfl⟩ := List.cons.inj hs
              rw [pieces_of_breakable hx]
              exact hdrop
            · obtain ⟨u', us', hs'⟩ := exists_pieces (n.after x) s
              have hpieces := pieces_of_not_breakable hx hs'
              obtain ⟨v, used', hv, hlength, hfill⟩ :=
                exists_fill hcolumn width used (x :: u') (us'.filter (· ≠ []))
              have hwide : k ≤ v.length := by
                split at hk
                · next hzero => rwa [hlength hzero]
                · omega
              rw [hpieces, List.filter_cons_of_pos (by simp), List.nil_append, hfill]
              exact .space hc hv hwide (ih hend' hpieces used')
      · obtain ⟨u, us, hs⟩ := exists_pieces (n.after c) s
        rw [pieces_of_not_breakable hc hs] at hpieces
        obtain ⟨rfl, rfl⟩ := List.cons.inj hpieces
        exact .keep hc (ih hend' hs used)

/-- A text that does not begin with a gap is wrapped by filling in its pieces. -/
theorem exists_wrap (hc : ¬ (⟨0, false⟩ : Nesting).breakable c = true) (column width : Nat)
    (s : Text) : ∃ w ws used, pieces ⟨0, false⟩ (c :: s) = w :: ws ∧
      wrap column width (c :: s) = w ++ fill column width used (ws.filter (· ≠ [])) := by
  obtain ⟨w, ws, hs⟩ := exists_pieces ((⟨0, false⟩ : Nesting).after c) s
  have hpieces := pieces_of_not_breakable hc hs
  have htokens : tokens (c :: s) = (c :: w) :: ws.filter (· ≠ []) := by
    rw [tokens, hpieces, List.filter_cons_of_pos (by simp)]
  exact ⟨c :: w, ws, _, hpieces, by rw [wrap, htokens]⟩

/-- **Wrapping refills a text**; without a width every gap is longer than the indentation. -/
theorem refilled_wrap {k : Nat} (hcolumn : 0 < column) (hk : k ≤ if width = 0 then column else 0)
    (hstart : Text.Stops Unicode.isWhiteSpace s)
    (hend : Text.Stops Unicode.isWhiteSpace s.reverse) :
    Refilled k ⟨0, false⟩ s (wrap column width s) := by
  cases s with
  | nil => exact .nil
  | cons c s =>
      have hc : ¬ (⟨0, false⟩ : Nesting).breakable c = true := by
        simp [Nesting.breakable, Text.stops_cons.1 hstart]
      obtain ⟨w, ws, used, hpieces, hwrap⟩ := exists_wrap hc column width s
      rw [hwrap]
      exact refilled_fill hcolumn hk hend hpieces used

/-- Tokens may be broken at no white space but blanks. -/
def OnlyBlanks (n : Nesting) : Text → Prop
  | [] => True
  | c :: s => (n.breakable c = true → Text.isBlank c = true) ∧ OnlyBlanks (n.after c) s

theorem onlyBlanks_append (n : Nesting) (s t : Text) :
    OnlyBlanks n (s ++ t) ↔ OnlyBlanks n s ∧ OnlyBlanks (n.run s) t := by
  induction s generalizing n with
  | nil => simp [OnlyBlanks]
  | cons c s ih => simp [OnlyBlanks, ih, and_assoc]

theorem onlyBlanks_gap (hv : ∀ x ∈ v, Text.isBlank x = true) (n : Nesting) (s : Text) :
    OnlyBlanks n (v ++ s) ↔ OnlyBlanks n s := by
  induction v with
  | nil => rfl
  | cons x v ih =>
      obtain ⟨hx, hv⟩ := List.forall_mem_cons.1 hv
      have hsame : n.after x = n := Nesting.after_of_isSign
        (Scan.isSign_of_isWhiteSpace (Unicode.isWhiteSpace_of_isBlank hx)) n
      rw [List.cons_append, OnlyBlanks, hsame, ih hv]
      exact and_iff_right fun _ => hx

/-- Tokens have no white space where they may be broken, and the gaps between them are blanks. -/
theorem onlyBlanks_fill (hcolumn : 0 < column) (hpieces : pieces n s = w :: ws) (used : Nat) :
    OnlyBlanks n (w ++ fill column width used (ws.filter (· ≠ []))) := by
  induction s generalizing n w ws used with
  | nil =>
      obtain ⟨rfl, rfl⟩ := List.cons.inj hpieces
      trivial
  | cons c s ih =>
      by_cases hc : n.breakable c = true
      · rw [pieces_of_breakable hc] at hpieces
        obtain ⟨rfl, rfl⟩ := List.cons.inj hpieces
        obtain ⟨u, us, hs⟩ := exists_pieces n s
        rw [hs]
        cases u with
        | nil => exact ih hs used
        | cons x u =>
            obtain ⟨v, used', hv, -, hfill⟩ :=
              exists_fill hcolumn width used (x :: u) (us.filter (· ≠ []))
            rw [List.filter_cons_of_pos (by simp), List.nil_append, hfill, List.append_cons,
              onlyBlanks_gap (isBlank_gap hv)]
            exact ih hs used'
      · obtain ⟨u, us, hs⟩ := exists_pieces (n.after c) s
        rw [pieces_of_not_breakable hc hs] at hpieces
        obtain ⟨rfl, rfl⟩ := List.cons.inj hpieces
        exact ⟨fun h => absurd h hc, ih hs used⟩

/-- **No other white space is left** where the tokens of a wrapped text may be broken. -/
theorem onlyBlanks_wrap (hcolumn : 0 < column) (width : Nat) (s : Text) :
    OnlyBlanks ⟨0, false⟩ (wrap column width s) := by
  induction s with
  | nil => trivial
  | cons c s ih =>
      by_cases hc : (⟨0, false⟩ : Nesting).breakable c = true
      · -- White space in front of the first token is dropped.
        have htokens : tokens (c :: s) = tokens s := by
          rw [tokens, pieces_of_breakable hc, List.filter_cons_of_neg (by simp), tokens]
        rw [wrap, htokens]
        exact ih
      · obtain ⟨w, ws, used, hpieces, hwrap⟩ := exists_wrap hc column width s
        rw [hwrap]
        exact onlyBlanks_fill hcolumn hpieces used

theorem wrap_eq_of_tokens_eq (h : tokens s = tokens t) (column width : Nat) :
    wrap column width s = wrap column width t := by
  unfold wrap
  rw [h]

/-! ## lengths -/

/-- The length of tokens that stand side by side, each with one character after it. -/
def spaced : List Text → Nat
  | [] => 0
  | t :: ts => t.length + 1 + spaced ts

theorem spaced_cons (t : Text) (ts : List Text) : spaced (t :: ts) = t.length + 1 + spaced ts := rfl

theorem spaced_filter_le (p : Text → Bool) (ts : List Text) : spaced (ts.filter p) ≤ spaced ts := by
  induction ts with
  | nil => exact Nat.le_refl _
  | cons t ts ih =>
      rw [List.filter_cons]
      split
      · exact Nat.add_le_add_left ih _
      · exact Nat.le_trans ih (Nat.le_add_left _ _)

/-- A text is as long as its pieces, with a character between any two. -/
theorem spaced_pieces (n : Nesting) (s : Text) : spaced (pieces n s) = s.length + 1 := by
  induction s generalizing n with
  | nil => rfl
  | cons c s ih =>
      by_cases h : n.breakable c = true
      · rw [pieces_of_breakable h, spaced_cons, ih n, List.length_nil, List.length_cons]
        omega
      · obtain ⟨w, ws, hs⟩ := exists_pieces (n.after c) s
        have hlength := ih (n.after c)
        rw [hs, spaced_cons] at hlength
        rw [pieces_of_not_breakable h hs, spaced_cons, List.length_cons, List.length_cons]
        omega

/-- No text is shorter than its tokens side by side. -/
theorem spaced_tokens_le (s : Text) : spaced (tokens s) ≤ s.length + 1 :=
  spaced_pieces ⟨0, false⟩ s ▸ spaced_filter_le _ _

/-- Tokens that fit on a line are filled into the line. -/
theorem length_fill {ts : List Text} (h : used + spaced ts ≤ width) :
    (fill column width used ts).length = spaced ts := by
  induction ts generalizing used with
  | nil => rfl
  | cons t ts ih =>
      rw [spaced_cons] at h ⊢
      have hfits : ¬ width < used + 1 + t.length := by omega
      have hrest : (fill column width (used + 1 + t.length) ts).length = spaced ts :=
        ih (by omega)
      rw [fill, if_neg hfits, List.cons_append, List.length_cons, List.length_append, hrest]
      omega

/-- **Where a text fits on the line**, a wrapped text with its tokens is no longer. -/
theorem length_wrap_le (htokens : tokens s = tokens t) (h : column + t.length ≤ width) :
    (wrap column width s).length ≤ t.length := by
  have hle := spaced_tokens_le t
  rw [wrap, htokens]
  cases ht : tokens t with
  | nil => exact Nat.zero_le _
  | cons x ts =>
      rw [ht, spaced_cons] at hle
      dsimp only
      rw [List.length_append, length_fill (by omega)]
      omega

end Bibliography.Wrap
