import Bibliography.Proofs.Latex.Escape

/-!
# Bibliography.Proofs.Latex.Respelling

Texts in which characters have become LaTeX sequences, reduced to plain ASCII.  A
letter and its sequence are reduced to the same letters, with two exceptions: a
sequence that has a blank leaves that blank in front of its letter, and one in
mathematics leaves nothing.

* `Respelled` — the relation, which escaping and joining keep;
* `Respells` — the same for a tame text, in which all signs stand for themselves;
* `foldChar_table` — what a letter leaves;
* `fold_written` — what its sequence leaves.
-/

namespace Bibliography.Latex

/-! ## respelled texts -/

/-- A text some of whose characters have become their sequences, where only characters of a class may
have been kept. -/
inductive Respelled (kept : Char → Prop) : Text → Text → Prop
  | nil : Respelled kept [] []
  | keep {c : Char} {s s' : Text} : kept c → Respelled kept s s' →
      Respelled kept (c :: s) (c :: s')
  | sequence {c : Char} {seq : Sequence} {s s' : Text} : (c, seq) ∈ table → Respelled kept s s' →
      Respelled kept (c :: s) (seq.written ++ s')

namespace Respelled

variable {kept : Char → Prop} {s s' t t' : Text}

theorem refl (h : ∀ c ∈ s, kept c) : Respelled kept s s := by
  induction s with
  | nil => exact .nil
  | cons c s ih =>
      obtain ⟨hc, hs⟩ := List.forall_mem_cons.1 h
      exact .keep hc (ih hs)

theorem append (hs : Respelled kept s s') (ht : Respelled kept t t') :
    Respelled kept (s ++ t) (s' ++ t') := by
  induction hs with
  | nil => exact ht
  | keep hc _ ih => exact .keep hc ih
  | sequence hseq _ ih =>
      rw [List.append_assoc]
      exact .sequence hseq ih

theorem flatMap {α : Type} {f g : α → Text} {l : List α}
    (h : ∀ a ∈ l, Respelled kept (f a) (g a)) : Respelled kept (l.flatMap f) (l.flatMap g) := by
  induction l with
  | nil => exact .nil
  | cons a l ih =>
      obtain ⟨ha, hl⟩ := List.forall_mem_cons.1 h
      exact ha.append (ih hl)

end Respelled

/-- **Escaping respells** a text. -/
theorem respelled_escapeFrom (m : Mode) (s : Text) :
    Respelled (fun _ => True) s (escapeFrom m s) := by
  induction s generalizing m with
  | nil => exact .nil
  | cons c s ih =>
      rw [escapeFrom]
      obtain hc | ⟨-, p, hp, rfl, hc⟩ := replaced_cases m c
      · rw [hc]
        exact .keep trivial (ih _)
      · rw [hc]
        exact .sequence hp (ih _)

/-! ## tame texts -/

/-- The sequences of the table, each of which stands there once. -/
theorem sequence?_table : ∀ p ∈ table, sequence? p.1 = some p.2 := by
  decide +kernel

/-- A text in which a character stands for itself wherever it has a sequence: it has no commands and
no mathematics; and only letters have sequences, and it has no braces but those. -/
def IsTame (s : Text) : Prop :=
  ∀ c ∈ s, c ∉ ['\\', '$', '{', '}'] ∧ (Unicode.isAlphabetic c = true ∨ sequence? c = none)

instance (s : Text) : Decidable (IsTame s) :=
  inferInstanceAs (Decidable (∀ c ∈ s, _))

namespace IsTame

variable {c : Char} {s t : Text}

theorem of_cons (h : IsTame (c :: s)) : IsTame s := (List.forall_mem_cons.1 h).2

theorem of_subset (h : IsTame s) (ht : t ⊆ s) : IsTame t := fun c hc => h c (ht hc)

theorem append (hs : IsTame s) (ht : IsTame t) : IsTame (s ++ t) :=
  List.forall_mem_append.2 ⟨hs, ht⟩

/-- The characters of a tame text are none of those that LaTeX reads as more than themselves. -/
theorem ne_sign (h : IsTame (c :: s)) : c ≠ '\\' ∧ c ≠ '$' ∧ c ≠ '{' ∧ c ≠ '}' := by
  obtain ⟨⟨hc, -⟩, -⟩ := List.forall_mem_cons.1 h
  simpa only [List.mem_cons, List.not_mem_nil, or_false, not_or] using hc

/-- A character of a tame text that has a sequence is a letter. -/
theorem isAlphabetic {seq : Sequence} (h : IsTame (c :: s)) (hc : (c, seq) ∈ table) :
    Unicode.isAlphabetic c = true := by
  obtain ⟨⟨-, hletter⟩, -⟩ := List.forall_mem_cons.1 h
  refine hletter.resolve_right fun hnone => ?_
  rw [sequence?_table _ hc] at hnone
  cases hnone

/-- **Texts of letters, ASCII digits and spaces** are tame. -/
theorem of_forall
    (h : ∀ c ∈ s, Unicode.isAlphabetic c = true ∨ c.isDigit = true ∨ c = ' ') : IsTame s := by
  have hdigit : ∀ c : Char, c.isDigit = true → c ∉ ['\\', '$', '{', '}'] ∧ sequence? c = none :=
    fun c hc => Unicode.of_ascii c (Unicode.lt_of_isDigit hc) (by decide +kernel) hc
  intro c hc
  obtain hletter | hc | rfl := h c hc
  · refine ⟨fun hsign => ?_, .inl hletter⟩
    have hnone : ∀ c ∈ ['\\', '$', '{', '}'], Unicode.isAlphabetic c = false := by decide +kernel
    simp [hnone c hsign] at hletter
  · exact (hdigit c hc).imp_right .inr
  · decide +kernel

end IsTame

/-- A tame text, and what it is respelled to. -/
structure Respells (kept : Char → Prop) (s s' : Text) : Prop where
  tame : IsTame s
  respelled : Respelled kept s s'

namespace Respells

variable {kept : Char → Prop} {c : Char} {seq : Sequence} {s s' t t' : Text}

theorem nil : Respells kept [] [] := ⟨List.forall_mem_nil _, .nil⟩

theorem keep (hc : kept c) (htame : IsTame [c]) (h : Respells kept s s') :
    Respells kept (c :: s) (c :: s') :=
  ⟨htame.append h.tame, .keep hc h.respelled⟩

theorem sequence (hseq : (c, seq) ∈ table) (htame : IsTame [c]) (h : Respells kept s s') :
    Respells kept (c :: s) (seq.written ++ s') :=
  ⟨htame.append h.tame, .sequence hseq h.respelled⟩

theorem append (hs : Respells kept s s') (ht : Respells kept t t') :
    Respells kept (s ++ t) (s' ++ t') :=
  ⟨hs.tame.append ht.tame, hs.respelled.append ht.respelled⟩

/-- Induction over a respelled text. -/
@[elab_as_elim]
theorem induction {motive : (s s' : Text) → Respells kept s s' → Prop} (nil : motive [] [] nil)
    (keep : ∀ {c s s'} (hc : kept c) (htame : IsTame [c]) (h : Respells kept s s'),
      motive s s' h → motive (c :: s) (c :: s') (h.keep hc htame))
    (sequence : ∀ {c seq s s'} (hseq : (c, seq) ∈ table) (htame : IsTame [c])
      (h : Respells kept s s'), motive s s' h →
        motive (c :: s) (seq.written ++ s') (h.sequence hseq htame))
    (h : Respells kept s s') : motive s s' h := by
  obtain ⟨hs, h⟩ := h
  induction h with
  | nil => exact nil
  | keep hc h ih => exact keep hc (hs.of_subset (by simp)) ⟨hs.of_cons, h⟩ (ih hs.of_cons)
  | sequence hseq h ih =>
      exact sequence hseq (hs.of_subset (by simp)) ⟨hs.of_cons, h⟩ (ih hs.of_cons)

end Respells

/-- Escaping respells every letter of a tame text that has a sequence. -/
theorem IsTame.respells_escape {s : Text} (h : IsTame s) :
    Respells (fun c => sequence? c = none) s (escape s) := by
  unfold escape
  induction s with
  | nil => exact .nil
  | cons c s ih =>
      have htame : IsTame [c] := h.of_subset (by simp)
      have hafter : Mode.plain.after c = .plain := by
        simp [Mode.after, Mode.enter, h.ne_sign]
      have hreplaced : replaced .plain c = (latexFor c).getD [c] := if_pos rfl
      rw [escapeFrom, hafter, hreplaced]
      cases hseq : sequence? c with
      | none =>
          rw [latexFor, hseq]
          exact (ih h.of_cons).keep hseq htame
      | some seq =>
          obtain ⟨p, hp, rfl, hwritten⟩ := exists_of_latexFor (by rw [latexFor, hseq]; rfl)
          rw [latexFor, hseq, Option.map_some, Option.getD_some, ← hwritten]
          exact (ih h.of_cons).sequence hp htame

/-! ## what is left of letters -/

namespace Sequence

/-- A sequence of a letter. -/
def IsLetter : Sequence → Prop
  | accent mark base => mark.isAlpha = false ∧ base.isAlpha = true
  | spaced mark base => mark.isAlpha = true ∧ [mark] ∉ letterCommands ∧ base.isAlpha = true
  | command name => name.toList ∈ letterCommands
  | math name => Text.IsRun Char.isAlpha name.toList ∧ name.toList ∉ letterCommands
  | plain _ => False

instance : DecidablePred IsLetter
  | accent _ _ => inferInstanceAs (Decidable (_ ∧ _))
  | spaced _ _ => inferInstanceAs (Decidable (_ ∧ _))
  | command _ => inferInstanceAs (Decidable (_ ∈ _))
  | math _ => inferInstanceAs (Decidable (_ ∧ _))
  | plain _ => inferInstanceAs (Decidable False)

/-- What a sequence of a letter leaves. -/
def folded : Sequence → Text
  | accent _ base => [base]
  | spaced _ base => [' ', base]
  | command name => name.toList
  | math _ | plain _ => []

end Sequence

/-- **A letter leaves the letters** of its sequence, which is one of letters. -/
theorem foldChar_table : ∀ p ∈ table, Unicode.isAlphabetic p.1 = true →
    p.2.IsLetter ∧ foldChar p.1 = p.2.letters ∧ Text.IsRun Text.isAlnum p.2.letters := by
  decide +kernel

variable {c : Char}

theorem fold_command (s : Text) : fold ('\\' :: s) =
    foldCommand (commandName s) ++ fold (s.drop (commandName s).length) := by
  rw [fold, if_pos rfl]

theorem fold_cons (hc : c ≠ '\\') (s : Text) : fold (c :: s) = foldChar c ++ fold s := by
  rw [fold, if_neg hc]

theorem letterCommands_isAlpha : ∀ name ∈ letterCommands, Text.IsRun Char.isAlpha name := by
  decide

/-- An ASCII letter is kept. -/
theorem fold_letter (hc : c.isAlpha = true) (s : Text) : fold (c :: s) = c :: fold s := by
  have hne {d : Char} (hd : d.isAlpha = false) : c ≠ d := by
    rintro rfl
    simp [hc] at hd
  have hfold : foldChar c = [c] := by
    simp [foldChar, Unicode.lt_of_isAlpha hc, hne (d := '{') (by decide),
      hne (d := '}') (by decide), hne (d := '$') (by decide)]
  rw [fold_cons (hne (by decide)), hfold]
  rfl

/-- A sign that sequences are written with leaves nothing. -/
theorem fold_sign (hc : c = '{' ∨ c = '}' ∨ c = '$') (s : Text) : fold (c :: s) = fold s := by
  have hne : c ≠ '\\' := by
    rintro rfl
    simp at hc
  rw [fold_cons hne, foldChar, if_pos hc]
  rfl

/-- A command that stands for a letter leaves it, and another one nothing. -/
theorem fold_letters {name s : Text} (hname : Text.IsRun Char.isAlpha name)
    (hs : Text.Stops Char.isAlpha s) : fold ('\\' :: (name ++ s)) = foldCommand name ++ fold s := by
  rw [fold_command, commandName_letters hname hs, List.drop_left]

/-- **What the sequence of a letter leaves.** -/
theorem fold_written {seq : Sequence} (h : seq.IsLetter) (s : Text) :
    fold (seq.written ++ s) = seq.folded ++ fold s := by
  have hstops {c : Char} (hc : c.isAlpha = false) (r : Text) : Text.Stops Char.isAlpha (c :: r) :=
    Text.stops_cons.2 hc
  cases seq with
  | accent mark base =>
      obtain ⟨hmark, hbase⟩ := h
      have hnone : foldCommand [mark] = [] := if_neg fun hmem =>
        by simpa [hmark] using (letterCommands_isAlpha _ hmem).2
      change fold ('{' :: '\\' :: mark :: base :: '}' :: s) = base :: fold s
      rw [fold_sign (.inl rfl), fold_command, commandName_symbol hmark, hnone]
      change fold (base :: '}' :: s) = base :: fold s
      rw [fold_letter hbase, fold_sign (.inr (.inl rfl))]
  | spaced mark base =>
      obtain ⟨hmark, hnone, hbase⟩ := h
      have hblank : fold (' ' :: base :: '}' :: s) = ' ' :: fold (base :: '}' :: s) :=
        fold_cons (by decide) _
      change fold ('{' :: '\\' :: ([mark] ++ ' ' :: base :: '}' :: s)) = ' ' :: base :: fold s
      rw [fold_sign (.inl rfl), fold_letters ⟨by simp, by simpa using hmark⟩ (hstops (by decide) _),
        foldCommand, if_neg hnone, List.nil_append, hblank, fold_letter hbase,
        fold_sign (.inr (.inl rfl))]
  | command name =>
      have hname : name.toList ∈ letterCommands := h
      have hwritten : (Sequence.command name).written ++ s =
          '{' :: '\\' :: (name.toList ++ '}' :: s) := by
        simp [Sequence.written]
      rw [hwritten, fold_sign (.inl rfl),
        fold_letters (letterCommands_isAlpha _ hname) (hstops (by decide) s), foldCommand,
        if_pos hname, fold_sign (.inr (.inl rfl))]
      rfl
  | math name =>
      obtain ⟨hname, hnone⟩ := h
      have hwritten : (Sequence.math name).written ++ s =
          '{' :: '$' :: '\\' :: (name.toList ++ '$' :: '}' :: s) := by
        simp [Sequence.written]
      rw [hwritten, fold_sign (.inl rfl), fold_sign (.inr (.inr rfl)),
        fold_letters hname (hstops (by decide) _), foldCommand, if_neg hnone,
        fold_sign (.inr (.inr rfl)), fold_sign (.inr (.inl rfl))]
      rfl
  | plain text => exact h.elim

end Bibliography.Latex
