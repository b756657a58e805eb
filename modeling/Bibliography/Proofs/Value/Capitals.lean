import Bibliography.Proofs.Latex.Escape
import Bibliography.Proofs.Unicode.Capitals

/-!
# Bibliography.Proofs.Value.Capitals

Why a text is not respelled twice.  It is *settled* when it has a small letter, or
when no character of it would be respelled, whatever precedes a word more than now
does.  Dropping the capitals settles every text without letters in title case; for
the capital of such a letter is not the letter, and its small letter is another one
again.  LaTeX sequences and braces leave a settled text settled: they put letters
into commands and braces, where no spelling changes, and at most take a letter away
that came before another one in its word.

* `isSettled_dropped` — dropping the capitals settles a text;
* `IsSettled.dropped_eq` — a settled text is not respelled;
* `IsSettled.escape`, `IsSettled.braces` — settled texts stay settled.
-/

namespace Bibliography.Capitals

/-- A text that is all in capitals, with fewer of them. -/
def dropped (t : Text) : Text := if isAllCaps t then titleCase t else t

namespace Context

/-- Whether the spelling of a character cannot change here. -/
def shields (x : Context) (c : Char) : Bool :=
  x.isCommand c || !Unicode.isAlphabetic c || x.depth ≠ 0

/-- Whether a character is spelled as it would be, here and at the beginning of a word. -/
def keeps (x : Context) (c : Char) : Bool :=
  x.shields c || Unicode.upperChar c = [c] && (x.wordStart || Unicode.lowerChar c = [c])

/-- The context after a text. -/
def run (x : Context) (s : Text) : Context := s.foldl after x

variable {x y : Context} {c : Char} {s t : Text}

theorem depth_after (x : Context) (c : Char) :
    (x.after c).depth = Names.depthAfter x.depth c := by
  unfold after
  dsimp only
  split <;> rfl

theorem inCommand_after (x : Context) (c : Char) : (x.after c).inCommand = x.isCommand c := by
  unfold after
  dsimp only
  split
  · next hc => exact hc.symm
  · next hc => simpa using hc

theorem wordStart_after (x : Context) (c : Char) : (x.after c).wordStart =
    if x.isCommand c then x.wordStart
    else if Unicode.isWhiteSpace c then true
    else x.wordStart && !Unicode.isAlphanumeric c := by
  unfold after
  dsimp only
  split <;> rfl

theorem spelling_eq (x : Context) (c : Char) : x.spelling c =
    if x.shields c then [c]
    else if x.wordStart then Unicode.upperChar c else Unicode.lowerChar c := rfl

/-- What is no letter is kept. -/
theorem keeps_of_isAlphabetic (h : Unicode.isAlphabetic c = false) (x : Context) :
    x.keeps c = true := by
  simp [keeps, shields, h]

theorem spelling_of_keeps (h : x.keeps c = true) : x.spelling c = [c] := by
  rw [spelling_eq]
  split
  · rfl
  · next hshields =>
    simp only [keeps, Bool.or_eq_true, Bool.and_eq_true, decide_eq_true_eq, hshields,
      Bool.false_eq_true, false_or] at h
    obtain ⟨hupper, hstart | hlower⟩ := h
    · rw [if_pos hstart, hupper]
    · split
      · exact hupper
      · exact hlower

/-- A context allows no more changes than another one: it is as deep, in a command too, and at the
beginning of a word where the other one is. -/
structure Under (x y : Context) : Prop where
  depth : x.depth ≤ y.depth
  inCommand : x.inCommand = y.inCommand
  wordStart : x.wordStart = true → y.wordStart = true

namespace Under

theorem isCommand_eq (h : x.Under y) (c : Char) : x.isCommand c = y.isCommand c := by
  rw [isCommand, isCommand, h.inCommand]

theorem keeps (h : x.Under y) (hc : x.keeps c = true) : y.keeps c = true := by
  have hdepth := h.depth
  simp only [Context.keeps, shields, Bool.or_eq_true, Bool.and_eq_true, decide_eq_true_eq,
    ← h.isCommand_eq c] at hc ⊢
  obtain ((hcommand | halpha) | hdeep) | ⟨hupper, hstart | hlower⟩ := hc
  · exact .inl (.inl (.inl hcommand))
  · exact .inl (.inl (.inr halpha))
  · exact .inl (.inr (by omega))
  · exact .inr ⟨hupper, .inl (h.wordStart hstart)⟩
  · exact .inr ⟨hupper, .inr hlower⟩

theorem after (h : x.Under y) (c : Char) : (x.after c).Under (y.after c) where
  depth := by
    have hdepth := h.depth
    rw [depth_after, depth_after]
    unfold Names.depthAfter
    split
    · omega
    · split <;> omega
  inCommand := by rw [inCommand_after, inCommand_after, h.isCommand_eq]
  wordStart := by
    rw [wordStart_after, wordStart_after, h.isCommand_eq]
    split
    · exact h.wordStart
    · split
      · exact fun _ => rfl
      · rw [Bool.and_eq_true, Bool.and_eq_true]
        exact fun hx => ⟨h.wordStart hx.1, hx.2⟩

end Under

end Context

/-! ## settled texts -/

/-- Whether every character of a text is kept. -/
def keeps (x : Context) : Text → Bool
  | [] => true
  | c :: s => x.keeps c && keeps (x.after c) s

/-- A text that is not respelled, whatever follows it. -/
def IsSettled (x : Context) (s : Text) : Prop :=
  (∃ c ∈ s, Unicode.isLowercase c = true) ∨ keeps x s = true

variable {x y : Context} {c : Char} {s t : Text}

theorem keeps_append : keeps x (s ++ t) = (keeps x s && keeps (x.run s) t) := by
  induction s generalizing x with
  | nil => rfl
  | cons c s ih => rw [List.cons_append, keeps, keeps, ih, Bool.and_assoc]; rfl

theorem keeps_of_under (h : x.Under y) (hs : keeps x s = true) : keeps y s = true := by
  induction s generalizing x y with
  | nil => rfl
  | cons c s ih =>
      rw [keeps, Bool.and_eq_true] at hs ⊢
      exact ⟨h.keeps hs.1, ih (h.after c) hs.2⟩

theorem titleCaseFrom_eq_self (h : keeps x s = true) : titleCaseFrom x s = s := by
  induction s generalizing x with
  | nil => rfl
  | cons c s ih =>
      rw [keeps, Bool.and_eq_true] at h
      rw [titleCaseFrom, Context.spelling_of_keeps h.1, ih h.2]
      rfl

theorem not_small_of_isAllCaps (h : isAllCaps t = true) :
    ¬ ∃ c ∈ t, Unicode.isLowercase c = true := by
  simp only [isAllCaps, Bool.and_eq_true, Bool.not_eq_true', List.any_eq_false] at h
  rintro ⟨c, hc, hlower⟩
  exact h.2 c hc hlower

/-- **A settled text** is not respelled. -/
theorem IsSettled.dropped_eq (h : IsSettled {} t) : dropped t = t := by
  unfold dropped
  split
  · next hcaps =>
    obtain hsmall | hkeeps := h
    · exact absurd hsmall (not_small_of_isAllCaps hcaps)
    · exact titleCaseFrom_eq_self hkeeps
  · rfl

/-! ## dropping capitals -/

/-- A respelled text has a small letter, or nothing was respelled. -/
theorem exists_lowercase_or_keeps (x : Context) (h : ∀ c ∈ s, Unicode.upperChar c = [c]) :
    (∃ c ∈ titleCaseFrom x s, Unicode.isLowercase c = true) ∨
      titleCaseFrom x s = s ∧ keeps x s = true := by
  induction s generalizing x with
  | nil => exact .inr ⟨rfl, rfl⟩
  | cons c s ih =>
      obtain ⟨hc, hs⟩ := List.forall_mem_cons.1 h
      have hspelled : (∃ d ∈ x.spelling c, Unicode.isLowercase d = true) ∨ x.keeps c = true := by
        rw [Context.spelling_eq]
        unfold Context.keeps
        split
        · next hshields => exact .inr (by rw [hshields]; rfl)
        · split
          · next hstart => exact .inr (by simp [hc, hstart])
          · obtain hsame | ⟨hlower, -⟩ := Unicode.lowerChar_cases c
            · exact .inr (by simp [hc, hsame])
            · exact .inl hlower
      rw [titleCaseFrom]
      obtain ⟨d, hd, hlower⟩ | hkeeps := hspelled
      · exact .inl ⟨d, List.mem_append_left _ hd, hlower⟩
      · obtain ⟨d, hd, hlower⟩ | ⟨hsame, hrest⟩ := ih (x.after c) hs
        · exact .inl ⟨d, List.mem_append_right _ hd, hlower⟩
        · refine .inr ⟨?_, by rw [keeps, hkeeps, hrest]; rfl⟩
          rw [hsame, Context.spelling_of_keeps hkeeps]
          rfl

/-- A character that is respelled is kept, or becomes a small one. -/
theorem mem_titleCaseFrom {d : Char} (x : Context) (h : ∀ c ∈ s, Unicode.upperChar c = [c])
    (hd : d ∈ titleCaseFrom x s) :
    d ∈ s ∨ Unicode.isLowercase d = true ∨ d = '\u0307' := by
  induction s generalizing x with
  | nil => cases hd
  | cons c s ih =>
      obtain ⟨hc, hs⟩ := List.forall_mem_cons.1 h
      have hkept (hsame : d ∈ [c]) : d ∈ c :: s := List.mem_singleton.1 hsame ▸ List.mem_cons_self
      rw [titleCaseFrom, List.mem_append, Context.spelling_eq] at hd
      obtain hd | hd := hd
      · split at hd
        · exact .inl (hkept hd)
        · split at hd
          · exact .inl (hkept (hc ▸ hd))
          · obtain hsame | ⟨-, hlower⟩ := Unicode.lowerChar_cases c
            · exact .inl (hkept (hsame ▸ hd))
            · exact .inr (hlower d hd)
      · exact (ih _ hs hd).imp_left (List.mem_cons_of_mem c)

/-- Characters that have no other spelling are kept. -/
theorem keeps_of_forall (x : Context)
    (h : ∀ c ∈ s, Unicode.upperChar c = [c] ∧ Unicode.lowerChar c = [c]) : keeps x s = true := by
  induction s generalizing x with
  | nil => rfl
  | cons c s ih =>
      obtain ⟨⟨hupper, hlower⟩, hs⟩ := List.forall_mem_cons.1 h
      rw [keeps, ih _ hs, Context.keeps, hupper, hlower]
      simp

/-- A text without small letters has no character with another capital, but in title case. -/
theorem upperChar_of_not_small (h : ∀ c ∈ t, Unicode.isTitlecase c = false)
    (hsmall : ¬ ∃ c ∈ t, Unicode.isLowercase c = true) : ∀ c ∈ t, Unicode.upperChar c = [c] := by
  intro c hc
  obtain hsame | hlower | htitle := Unicode.upperChar_cases c
  · exact hsame
  · exact absurd ⟨c, hc, hlower⟩ hsmall
  · rw [h c hc] at htitle
    cases htitle

/-- **Dropping the capitals** settles a text without letters in title case. -/
theorem isSettled_dropped (h : ∀ c ∈ t, Unicode.isTitlecase c = false) :
    IsSettled {} (dropped t) := by
  by_cases hsmall : ∃ c ∈ t, Unicode.isLowercase c = true
  · have hcaps : isAllCaps t = false :=
      Bool.eq_false_iff.2 fun hcaps => not_small_of_isAllCaps hcaps hsmall
    rw [dropped, hcaps]
    exact .inl hsmall
  · have hupper := upperChar_of_not_small h hsmall
    unfold dropped
    split
    · obtain hlower | ⟨hsame, hkeeps⟩ := exists_lowercase_or_keeps {} hupper
      · exact .inl hlower
      · exact .inr (by rw [titleCase, hsame, hkeeps])
    · next hcaps =>
      refine .inr (keeps_of_forall {} fun c hc => ⟨hupper c hc, ?_⟩)
      obtain hsame | hcapital | htitle := Unicode.lowerChar_eq_self_or c
      · exact hsame
      · refine absurd ?_ hcaps
        simp only [isAllCaps, Bool.and_eq_true, List.any_eq_true, Bool.not_eq_true',
          List.any_eq_false]
        exact ⟨⟨c, hc, hcapital⟩, fun d hd hlower => hsmall ⟨d, hd, hlower⟩⟩
      · rw [h c hc] at htitle
        cases htitle

/-! ## other steps -/

/-- Braces around a settled text settle it all the more. -/
theorem IsSettled.braces (h : IsSettled {} t) : IsSettled {} ('{' :: t ++ ['}']) := by
  obtain ⟨c, hc, hlower⟩ | hkeeps := h
  · exact .inl ⟨c, by simp [hc], hlower⟩
  · right
    have hunder : Context.Under {} (Context.after {} '{') := by
      exact ⟨Nat.zero_le _, by decide, fun _ => by decide +kernel⟩
    have hopen := Context.keeps_of_isAlphabetic (c := '{') (by decide)
    have hclose := Context.keeps_of_isAlphabetic (c := '}') (by decide)
    rw [List.cons_append, keeps, hopen, keeps_append, keeps_of_under hunder hkeeps, keeps, hclose]
    rfl

/-- A LaTeX sequence has a small letter, or its character has none and it is kept, in a command and
outside, at the beginning of a word and after it; and the word goes on after it only if it does after
the character. -/
theorem settled_table : ∀ p ∈ Latex.table,
    (∃ d ∈ p.2.written, Unicode.isLowercase d = true) ∨
      (Unicode.isLowercase p.1 = false ∧ Unicode.isWhiteSpace p.1 = false) ∧
        ∀ start ∈ [true, false], ∀ command ∈ [true, false],
          keeps ⟨0, start, command⟩ p.2.written = true ∧
          (Context.run ⟨0, start, command⟩ p.2.written).inCommand = false ∧
          (start = true → Unicode.isAlphanumeric p.1 = false →
            (Context.run ⟨0, start, command⟩ p.2.written).wordStart = true) := by
  decide +kernel

/-- The depth of braces is that of author lists. -/
theorem Context.depth_run (x : Context) (s : Text) :
    (x.run s).depth = s.foldl Names.depthAfter x.depth := by
  induction s generalizing x with
  | nil => rfl
  | cons c s ih =>
      rw [run, List.foldl_cons, List.foldl_cons, ← depth_after]
      exact ih (x.after c)

theorem Context.Under.run (h : x.Under y) (s : Text) : (x.run s).Under (y.run s) := by
  induction s generalizing x y with
  | nil => exact h
  | cons c s ih => exact ih (h.after c)

/-- After its sequence a character may at most have come to be missing from its word. -/
theorem keeps_sequence {p : Char × Latex.Sequence} (hp : p ∈ Latex.table)
    (hsmall : ¬ ∃ d ∈ p.2.written, Unicode.isLowercase d = true) (h : x.Under y) :
    keeps y p.2.written = true ∧ (x.after p.1).Under (y.run p.2.written) := by
  obtain hlower | ⟨⟨-, hblank⟩, hkept⟩ := settled_table p hp
  · exact absurd hlower hsmall
  obtain ⟨hkeeps, hcommand, hstart⟩ := hkept y.wordStart (by simp) y.inCommand (by simp)
  obtain ⟨⟨hslash, -, halpha⟩, -⟩ := Latex.settled_table p hp
  obtain ⟨hsign, hpass⟩ := Latex.passes_table p hp
  have hflat : Context.Under ⟨0, y.wordStart, y.inCommand⟩ y := ⟨Nat.zero_le _, rfl, id⟩
  have hrun := hflat.run p.2.written
  have hcopied : x.isCommand p.1 = false := by simp [Context.isCommand, hslash, halpha]
  refine ⟨keeps_of_under hflat hkeeps, ?_, ?_, ?_⟩
  · have hsequence := Scan.Enclosure.depth_of_pass? (Scan.Enclosure.pass?_deeper id hpass y.depth)
    have hcharacter := Scan.Enclosure.depth_of_after?
      (Scan.Enclosure.after?_of_isSign hsign .braces ⟨x.depth, false⟩)
    simp only [Nat.zero_add] at hsequence
    rw [Context.depth_after, Context.depth_run, ← hcharacter, ← hsequence]
    exact h.depth
  · rw [Context.inCommand_after, hcopied, ← hrun.inCommand, hcommand]
  · rw [Context.wordStart_after, hcopied, hblank]
    simp only [Bool.false_eq_true, if_false, Bool.and_eq_true, Bool.not_eq_true']
    rintro ⟨hx, hnumeric⟩
    exact hrun.wordStart (hstart (h.wordStart hx) hnumeric)

/-- A small letter has one in its sequence. -/
theorem exists_lowercase_escapeFrom (m : Latex.Mode)
    (h : ∃ c ∈ t, Unicode.isLowercase c = true) :
    ∃ d ∈ Latex.escapeFrom m t, Unicode.isLowercase d = true := by
  induction t generalizing m with
  | nil => obtain ⟨c, hc, -⟩ := h; cases hc
  | cons c t ih =>
      rw [Latex.escapeFrom]
      obtain ⟨d, hd, hlower⟩ := h
      obtain rfl | hd := List.mem_cons.1 hd
      · obtain hsame | ⟨-, p, hp, rfl, hwritten⟩ := Latex.replaced_cases m d
        · exact ⟨d, by rw [hsame]; exact List.mem_cons_self, hlower⟩
        · obtain ⟨e, he, hsmall⟩ | ⟨⟨hnot, -⟩, -⟩ := settled_table p hp
          · exact ⟨e, by rw [hwritten]; exact List.mem_append_left _ he, hsmall⟩
          · rw [hnot] at hlower
            cases hlower
      · obtain ⟨e, he, hsmall⟩ := ih (m.after c) ⟨d, hd, hlower⟩
        exact ⟨e, List.mem_append_right _ he, hsmall⟩

theorem isSettled_escapeFrom (m : Latex.Mode) (hxy : x.Under y) (h : keeps x t = true) :
    IsSettled y (Latex.escapeFrom m t) := by
  induction t generalizing x y m with
  | nil => exact .inr rfl
  | cons c t ih =>
      rw [keeps, Bool.and_eq_true] at h
      rw [Latex.escapeFrom]
      by_cases hsmall : ∃ d ∈ Latex.replaced m c, Unicode.isLowercase d = true
      · obtain ⟨d, hd, hlower⟩ := hsmall
        exact .inl ⟨d, List.mem_append_left _ hd, hlower⟩
      have hpiece : keeps y (Latex.replaced m c) = true ∧
          (x.after c).Under (y.run (Latex.replaced m c)) := by
        obtain hsame | ⟨-, p, hp, rfl, hwritten⟩ := Latex.replaced_cases m c
        · rw [hsame]
          exact ⟨by simp [keeps, hxy.keeps h.1], hxy.after c⟩
        · rw [hwritten] at hsmall ⊢
          exact keeps_sequence hp hsmall hxy
      obtain ⟨d, hd, hlower⟩ | hrest := ih (m.after c) hpiece.2 h.2
      · exact .inl ⟨d, List.mem_append_right _ hd, hlower⟩
      · exact .inr (by rw [keeps_append, hpiece.1, hrest]; rfl)

/-- **LaTeX sequences** leave a settled text settled. -/
theorem IsSettled.escape (h : IsSettled {} t) : IsSettled {} (Latex.escape t) := by
  obtain hlower | hkeeps := h
  · exact .inl (exists_lowercase_escapeFrom .plain hlower)
  · exact isSettled_escapeFrom .plain ⟨Nat.le_refl _, rfl, id⟩ hkeeps

end Bibliography.Capitals
