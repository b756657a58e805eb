import Bibliography.CitationKey.Words
import Bibliography.Proofs.Latex.Respelling
import Bibliography.Proofs.Text.Split

/-!
# Bibliography.Proofs.CitationKey.Words

The words of a text and of what escaping makes of it.  A letter and its sequence leave
the same letters, but a sequence may leave a blank in front of its letter, which
begins a new word, or nothing at all, if it is one in mathematics.  So the words are
the same exactly if the text has no letter of the second kind, and one of the first
kind only where a word begins (`words_escape_iff`); and all letters of all words are
the same exactly if it has none of the second kind (`flatten_words_escape_iff`).
-/

namespace Bibliography

namespace Latex

/-- Whether the sequence of a character is mathematics. -/
def isMathLetter (c : Char) : Bool :=
  match sequence? c with
  | some (.math _) => true
  | _ => false

/-- Whether the sequence of a character has a blank. -/
def isSpacedLetter (c : Char) : Bool :=
  match sequence? c with
  | some (.spaced _ _) => true
  | _ => false

/-- What a character leaves is nothing, a run of letters and digits, or one other character. -/
theorem foldChar_cases (c : Char) : foldChar c = [] ∨ Text.IsRun Text.isAlnum (foldChar c) ∨
    ∃ x, foldChar c = [x] ∧ Text.isAlnum x = false := by
  have hone (x : Char) (hx : foldChar c = [x]) : Text.IsRun Text.isAlnum (foldChar c) ∨
      ∃ x, foldChar c = [x] ∧ Text.isAlnum x = false := by
    cases hcase : Text.isAlnum x with
    | true => exact .inl (hx ▸ ⟨by simp, by simpa using hcase⟩)
    | false => exact .inr ⟨x, hx, hcase⟩
  by_cases hsign : c = '{' ∨ c = '}' ∨ c = '$'
  · exact .inl (if_pos hsign)
  by_cases hascii : c.toNat < 128
  · exact .inr (hone c (by rw [foldChar, if_neg hsign, if_pos hascii]))
  cases hwhite : Unicode.isWhiteSpace c with
  | true => exact .inr (hone ' ' (by rw [foldChar, if_neg hsign, if_neg hascii, if_pos hwhite]))
  | false =>
      cases hletter : Unicode.isAlphabetic c with
      | false => exact .inl (by simp [foldChar, hsign, hascii, hwhite, hletter])
      | true =>
          cases hseq : sequence? c with
          | none => exact .inl (by simp [foldChar, hsign, hascii, hwhite, hseq])
          | some seq =>
              obtain ⟨p, hp, rfl, -⟩ := exists_of_latexFor (by rw [latexFor, hseq]; rfl)
              obtain ⟨-, hfold, hrun⟩ := foldChar_table p hp hletter
              exact .inr (.inl (hfold ▸ hrun))

end Latex

namespace CitationKey

open Latex

/-- Whether a character is none of a word. -/
def separates (c : Char) : Bool := !Text.isAlnum c

theorem words_eq (s : Text) : words s = Text.runs separates (fold s) := rfl

/-! ## words that go on -/

/-- Whether a word goes on after a text. -/
def goesOn (inWord : Bool) (s : Text) : Bool :=
  match s.getLast? with
  | none => inWord
  | some c => Text.isAlnum c

/-- Whether escaping a text leaves its words: it has no letter whose sequence is mathematics, and
those whose sequences have blanks stand at the beginnings of words only; `inWord` tells whether a word
goes on. -/
def keepsWords (inWord : Bool) : Text → Bool
  | [] => true
  | c :: s => !isMathLetter c && !(inWord && isSpacedLetter c) &&
      keepsWords (goesOn inWord (foldChar c)) s

variable {kept : Char → Prop} {s s' word : Text} {c : Char}

/-- What a character leaves ends a word, or the word goes on with it. -/
theorem exists_word_after (hword : ∀ c ∈ word, Text.isAlnum c = true) (c : Char) :
    ∃ word' : Text, (∀ c ∈ word', Text.isAlnum c = true) ∧
      decide (word' ≠ []) = goesOn (decide (word ≠ [])) (foldChar c) ∧
      ∀ r r', Text.runs separates (word ++ (foldChar c ++ r')) =
          Text.runs separates (word ++ (foldChar c ++ r)) ↔
        Text.runs separates (word' ++ r') = Text.runs separates (word' ++ r) := by
  obtain hnone | ⟨hne, hrun⟩ | ⟨x, hx, hsep⟩ := foldChar_cases c
  · refine ⟨word, hword, ?_, fun r r' => ?_⟩
    · rw [hnone]
      rfl
    · rw [hnone, List.nil_append, List.nil_append]
  · refine ⟨word ++ foldChar c, List.forall_mem_append.2 ⟨hword, hrun⟩, ?_, fun r r' => ?_⟩
    · have hlast := hrun _ (List.getLast_mem hne)
      simp [goesOn, List.getLast?_eq_some_getLast hne, hlast, hne]
    · rw [List.append_assoc, List.append_assoc]
  · have hcut : separates x = true := by simp [separates, hsep]
    refine ⟨[], List.forall_mem_nil _, by simp [goesOn, hx, hsep], fun r r' => ?_⟩
    rw [hx, List.singleton_append, List.singleton_append, Text.runs_append_cons hcut,
      Text.runs_append_cons hcut, List.append_right_inj]
    rfl

/-- A letter of a tame text and its sequence leave the same letters, but for a blank before them, if
the sequence is not mathematics. -/
theorem fold_sequence {seq : Sequence} (hseq : (c, seq) ∈ table)
    (hletter : Unicode.isAlphabetic c = true) (hmath : isMathLetter c = false) (s : Text) :
    fold (seq.written ++ s) = foldChar c ++ fold s ∧ isSpacedLetter c = false ∨
      fold (seq.written ++ s) = ' ' :: (foldChar c ++ fold s) ∧ isSpacedLetter c = true := by
  have htable : sequence? c = some seq := sequence?_table _ hseq
  obtain ⟨hregular, hfold, -⟩ := foldChar_table _ hseq hletter
  rw [fold_written hregular, hfold]
  unfold isMathLetter at hmath
  unfold isSpacedLetter
  rw [htable] at hmath ⊢
  cases seq with
  | accent mark base => exact .inl ⟨rfl, rfl⟩
  | spaced mark base => exact .inr ⟨rfl, rfl⟩
  | command name => exact .inl ⟨rfl, rfl⟩
  | math name => cases hmath
  | plain text => exact hregular.elim

/-- A blank in front of a letter begins a new word. -/
theorem runs_blank_ne (hne : word ≠ []) (hword : ∀ c ∈ word, Text.isAlnum c = true)
    {x : Text} (hx : Text.IsRun Text.isAlnum x) (r r' : Text) :
    Text.runs separates (word ++ ' ' :: (x ++ r')) ≠ Text.runs separates (word ++ (x ++ r)) := by
  have hstays {w : Text} (hw : ∀ c ∈ w, Text.isAlnum c = true) : ∀ c ∈ w, separates c = false :=
    fun c hc => by simp [separates, hw c hc]
  obtain ⟨hxne, hx⟩ := hx
  obtain ⟨u, v, huv⟩ := Text.exists_runs_append (w := word ++ x) (by simp [hne])
    (hstays (List.forall_mem_append.2 ⟨hword, hx⟩)) r
  rw [Text.runs_append_cons (by decide), Text.runs_eq_singleton hne (hstays hword),
    ← List.append_assoc, huv]
  intro heq
  have hhead := (List.cons.inj heq).1
  rw [List.append_assoc, List.self_eq_append_right, List.append_eq_nil_iff] at hhead
  exact hxne hhead.1

/-- **The words of a respelled text** that has no letters in mathematics.  If it keeps no letter
whose sequence has a blank, they are those of the text just if these letters begin words. -/
theorem runs_respelled (h : Respells kept s s') (hmath : ∀ c ∈ s, isMathLetter c = false)
    (hword : ∀ c ∈ word, Text.isAlnum c = true) :
    (keepsWords (decide (word ≠ [])) s = true →
      Text.runs separates (word ++ fold s') = Text.runs separates (word ++ fold s)) ∧
    ((∀ c, kept c → isSpacedLetter c = false) →
      Text.runs separates (word ++ fold s') = Text.runs separates (word ++ fold s) →
        keepsWords (decide (word ≠ [])) s = true) := by
  induction h using Respells.induction generalizing word with
  | nil => exact ⟨fun _ => rfl, fun _ _ => rfl⟩
  | @keep c s s' hc htame h ih =>
      obtain ⟨hcmath, hmath⟩ := List.forall_mem_cons.1 hmath
      obtain ⟨word', hword', hgoes, hstep⟩ := exists_word_after hword c
      obtain ⟨hif, honly⟩ := ih hmath hword'
      rw [fold_cons htame.ne_sign.1, fold_cons htame.ne_sign.1, hstep, keepsWords, ← hgoes,
        Bool.and_eq_true]
      refine ⟨fun hkeeps => hif hkeeps.2, fun hkept heq => ⟨?_, honly hkept heq⟩⟩
      simp [hcmath, hkept c hc]
  | @sequence c seq s s' hseq htame h ih =>
      obtain ⟨hcmath, hmath⟩ := List.forall_mem_cons.1 hmath
      have hletter := htame.isAlphabetic hseq
      obtain ⟨word', hword', hgoes, hstep⟩ := exists_word_after hword c
      obtain ⟨hif, honly⟩ := ih hmath hword'
      rw [fold_cons htame.ne_sign.1, keepsWords, ← hgoes, hcmath]
      obtain ⟨hfold, hspaced⟩ | ⟨hfold, hspaced⟩ := fold_sequence hseq hletter hcmath s'
      · rw [hfold, hstep, hspaced]
        simp only [Bool.and_false, Bool.not_false, Bool.true_and]
        exact ⟨hif, honly⟩
      · by_cases hne : word = []
        · subst hne
          have hblank : Text.runs separates (' ' :: (foldChar c ++ fold s')) =
              Text.runs separates ([] ++ (foldChar c ++ fold s')) :=
            Text.runs_cons (by decide) _
          rw [hfold, List.nil_append, hblank, hstep]
          simp only [ne_eq, not_true_eq_false, decide_false, Bool.false_and, Bool.not_false,
            Bool.true_and]
          exact ⟨hif, honly⟩
        · rw [hfold, hspaced]
          have hrun : Text.IsRun Text.isAlnum (foldChar c) := by
            obtain ⟨-, hletters, hrun⟩ := foldChar_table _ hseq hletter
            exact hletters ▸ hrun
          refine ⟨fun hkeeps => ?_, fun _ heq => absurd heq (runs_blank_ne hne hword hrun _ _)⟩
          simp [hne] at hkeeps

/-! ## all letters -/

theorem flatten_words (s : Text) : (words s).flatten = (fold s).filter Text.isAlnum := by
  rw [words_eq, Text.flatten_runs]
  simp [separates]

/-- A letter and its sequence leave the same letters, if the sequence is not mathematics. -/
theorem filter_fold_sequence {seq : Sequence} (hseq : (c, seq) ∈ table)
    (hletter : Unicode.isAlphabetic c = true) (hmath : isMathLetter c = false) (s : Text) :
    (fold (seq.written ++ s)).filter Text.isAlnum =
      (foldChar c).filter Text.isAlnum ++ (fold s).filter Text.isAlnum := by
  rw [← List.filter_append]
  obtain ⟨hfold, -⟩ | ⟨hfold, -⟩ := fold_sequence hseq hletter hmath s
  · rw [hfold]
  · rw [hfold]
    exact List.filter_cons_of_neg (by decide)

/-- A sequence in mathematics leaves nothing. -/
theorem fold_math {seq : Sequence} (hseq : (c, seq) ∈ table)
    (hletter : Unicode.isAlphabetic c = true) (hmath : isMathLetter c = true) (s : Text) :
    fold (seq.written ++ s) = fold s := by
  have htable : sequence? c = some seq := sequence?_table _ hseq
  rw [fold_written (foldChar_table _ hseq hletter).1]
  unfold isMathLetter at hmath
  rw [htable] at hmath
  cases seq with
  | math name => rfl
  | _ => cases hmath

/-- **The letters of a respelled text** that has no letters in mathematics are those of the text. -/
theorem flatten_words_respelled (h : Respells kept s s')
    (hmath : ∀ c ∈ s, isMathLetter c = false) : (words s').flatten = (words s).flatten := by
  rw [flatten_words, flatten_words]
  induction h using Respells.induction with
  | nil => rfl
  | @keep c s s' hc htame h ih =>
      rw [fold_cons htame.ne_sign.1, fold_cons htame.ne_sign.1, List.filter_append,
        List.filter_append, ih (List.forall_mem_cons.1 hmath).2]
  | @sequence c seq s s' hseq htame h ih =>
      obtain ⟨hcmath, hmath⟩ := List.forall_mem_cons.1 hmath
      rw [filter_fold_sequence hseq (htame.isAlphabetic hseq) hcmath, fold_cons htame.ne_sign.1,
        List.filter_append, ih hmath]

/-- Every letter in mathematics that is not kept is missing. -/
theorem length_words_respelled (h : Respells kept s s')
    (hkept : ∀ c, kept c → isMathLetter c = false) :
    (words s').flatten.length + (s.filter isMathLetter).length ≤ (words s).flatten.length := by
  rw [flatten_words, flatten_words]
  induction h using Respells.induction with
  | nil => exact Nat.le_refl _
  | @keep c s s' hc htame h ih =>
      rw [fold_cons htame.ne_sign.1, fold_cons htame.ne_sign.1, List.filter_append,
        List.filter_append, List.filter_cons_of_neg (by simp [hkept c hc]), List.length_append,
        List.length_append]
      omega
  | @sequence c seq s s' hseq htame h ih =>
      have hletter := htame.isAlphabetic hseq
      rw [fold_cons htame.ne_sign.1, List.filter_append, List.length_append]
      cases hmath : isMathLetter c with
      | false =>
          rw [filter_fold_sequence hseq hletter hmath, List.length_append,
            List.filter_cons_of_neg (by simp [hmath])]
          omega
      | true =>
          obtain ⟨-, hletters, hne, hrun⟩ := foldChar_table _ hseq hletter
          have hall : (foldChar c).filter Text.isAlnum = seq.letters := by
            rw [hletters, List.filter_eq_self]
            exact hrun
          have hpos : 0 < seq.letters.length := List.length_pos_iff.2 hne
          rw [fold_math hseq hletter hmath, hall, List.filter_cons_of_pos hmath, List.length_cons]
          omega

/-! ## escaping -/

theorem isMathLetter_of_none (h : sequence? c = none) : isMathLetter c = false := by
  rw [isMathLetter, h]

theorem isSpacedLetter_of_none (h : sequence? c = none) : isSpacedLetter c = false := by
  rw [isSpacedLetter, h]

/-- **Escaping leaves all letters** of a text exactly if it has none in mathematics. -/
theorem flatten_words_escape_iff (hs : IsTame s) :
    (words (escape s)).flatten = (words s).flatten ↔ ∀ c ∈ s, isMathLetter c = false := by
  refine ⟨fun heq => ?_, flatten_words_respelled hs.respells_escape⟩
  have hlength := length_words_respelled hs.respells_escape fun _ => isMathLetter_of_none
  rw [heq] at hlength
  have hnone : s.filter isMathLetter = [] := List.length_eq_zero_iff.1 (by omega)
  simpa using List.filter_eq_nil_iff.1 hnone

theorem isMathLetter_of_keepsWords {inWord : Bool} (h : keepsWords inWord s = true) :
    ∀ c ∈ s, isMathLetter c = false := by
  induction s generalizing inWord with
  | nil => exact List.forall_mem_nil _
  | cons c s ih =>
      rw [keepsWords, Bool.and_eq_true, Bool.and_eq_true] at h
      exact List.forall_mem_cons.2 ⟨by simpa using h.1.1, ih h.2⟩

/-- Respelling leaves the words of a text that it may leave. -/
theorem words_respelled (h : Respells kept s s') (hkeeps : keepsWords false s = true) :
    words s' = words s :=
  (runs_respelled h (isMathLetter_of_keepsWords hkeeps) (List.forall_mem_nil _)).1 hkeeps

theorem titleWords_respelled (h : Respells kept s s') (hkeeps : keepsWords false s = true) :
    titleWords s' = titleWords s := by
  unfold titleWords
  rw [words_respelled h hkeeps]

/-- **Escaping leaves the words** of a text exactly if it has no letters in mathematics, and those
whose sequences have blanks only where words begin. -/
theorem words_escape_iff (hs : IsTame s) :
    words (escape s) = words s ↔ keepsWords false s = true := by
  refine ⟨fun heq => ?_, words_respelled hs.respells_escape⟩
  have hmath := (flatten_words_escape_iff hs).1 (congrArg List.flatten heq)
  exact (runs_respelled hs.respells_escape hmath (List.forall_mem_nil _)).2
    (fun _ => isSpacedLetter_of_none) heq

end CitationKey

end Bibliography
