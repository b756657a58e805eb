import Mathlib.Data.List.Forall2
import Bibliography.Proofs.CitationKey.Words
import Bibliography.Proofs.Names

/-!
# Bibliography.Proofs.CitationKey.Surnames

The surnames of an author list and of what escaping makes of it.  The sequence of a
letter stands in braces, so that neither names nor words are cut within it, and begins
and ends with a sign that is not trimmed.  So a respelled list is cut into respelled
names (`Respells.split`), and a respelled name has a respelled surname
(`Respells.surname`).  The surnames are the same exactly if they have no letters whose
sequences are mathematics (`ofList_escape_iff`).
-/

namespace Bibliography

namespace Names

variable {c : Char} {s t w : Text}

/-! ## groups in braces -/

/-- A text in braces that has no others. -/
def IsBraced (w : Text) : Prop :=
  ∃ inner : Text, w = '{' :: inner ++ ['}'] ∧ ∀ c ∈ inner, c ≠ '{' ∧ c ≠ '}'

theorem depthAfter_of_ne (hc : c ≠ '{' ∧ c ≠ '}') (d : Nat) : depthAfter d c = d := by
  rw [depthAfter, if_neg hc.1, if_neg hc.2]

/-- A group in braces belongs to the first piece. -/
theorem pieces_braced (hw : IsBraced w) (s : Text) : ∃ first rest, pieces 0 s = first :: rest ∧
    pieces 0 (w ++ s) = (w ++ first) :: rest := by
  obtain ⟨inner, rfl, hinner⟩ := hw
  obtain ⟨first, rest, hs⟩ := List.exists_cons_of_ne_nil (pieces_ne_nil 0 s)
  have hclose : pieces 1 (inner ++ '}' :: s) = (inner ++ '}' :: first) :: rest := by
    induction inner with
    | nil =>
        rw [List.nil_append, pieces_cons, if_neg (by simp), show depthAfter 1 '}' = 0 from rfl, hs]
        rfl
    | cons c inner ih =>
        obtain ⟨hc, hinner⟩ := List.forall_mem_cons.1 hinner
        rw [List.cons_append, pieces_cons, if_neg (by simp), depthAfter_of_ne hc, ih hinner]
        rfl
  refine ⟨first, rest, hs, ?_⟩
  have hopen : ¬ startsAnd ('{' :: (inner ++ '}' :: s)) = true :=
    fun hand => absurd (isBlank_of_startsAnd hand) (by decide)
  rw [show '{' :: inner ++ ['}'] ++ s = '{' :: (inner ++ '}' :: s) by simp, pieces_cons,
    if_neg fun hand => hopen hand.2, show depthAfter 0 '{' = 1 from rfl, hclose]
  simp [consFirst]

/-- The comma of a name is not looked for in a group. -/
theorem beforeComma?_braced (hw : IsBraced w) (s : Text) :
    beforeComma? 0 (w ++ s) = (beforeComma? 0 s).map (w ++ ·) := by
  obtain ⟨inner, rfl, hinner⟩ := hw
  have hclose : beforeComma? 1 (inner ++ '}' :: s) =
      (beforeComma? 0 s).map (inner ++ '}' :: ·) := by
    induction inner with
    | nil =>
        rw [List.nil_append, beforeComma?, if_neg (by simp)]
        rfl
    | cons c inner ih =>
        obtain ⟨hc, hinner⟩ := List.forall_mem_cons.1 hinner
        rw [List.cons_append, beforeComma?, if_neg (by simp), depthAfter_of_ne hc, ih hinner,
          Option.map_map]
        rfl
  rw [show '{' :: inner ++ ['}'] ++ s = '{' :: (inner ++ '}' :: s) by simp, beforeComma?,
    if_neg (by simp), show depthAfter 0 '{' = 1 from rfl, hclose, Option.map_map]
  congr 1
  funext t
  simp

/-- A group belongs to the last word. -/
theorem lastWord_braced (hw : IsBraced w) (word s : Text) :
    lastWord 0 word (w ++ s) = lastWord 0 (w.reverse ++ word) s := by
  obtain ⟨inner, rfl, hinner⟩ := hw
  have hclose (word : Text) : lastWord 1 word (inner ++ '}' :: s) =
      lastWord 0 ('}' :: (inner.reverse ++ word)) s := by
    induction inner generalizing word with
    | nil =>
        rw [List.nil_append, lastWord, if_neg (by simp)]
        rfl
    | cons c inner ih =>
        obtain ⟨hc, hinner⟩ := List.forall_mem_cons.1 hinner
        rw [List.cons_append, lastWord, if_neg (by simp), depthAfter_of_ne hc, ih hinner]
        simp
  rw [show '{' :: inner ++ ['}'] ++ s = '{' :: (inner ++ '}' :: s) by simp, lastWord,
    if_neg (by decide), show depthAfter 0 '{' = 1 from rfl, hclose]
  simp

/-- An ` and ` is five ASCII characters, none of them a brace. -/
theorem exists_and (h : startsAnd s = true) : ∃ w t : Text, s = w ++ t ∧ w ≠ [] ∧
    (∀ c ∈ w, c.toNat < 128 ∧ c ≠ '{') ∧
      ∀ t, startsAnd (w ++ t) = true ∧ pieces 0 (w ++ t) = [] :: pieces 0 t := by
  obtain ⟨b, a, n, x, e, r, rfl, hb, hand⟩ := startsAnd_iff.1 h
  have hletters := hand
  simp only [isAnd, Bool.and_eq_true, decide_eq_true_eq] at hletters
  obtain ⟨⟨⟨ha, hn⟩, hx⟩, he⟩ := hletters
  have hblank {b : Char} (hb : Text.isBlank b = true) : b.toNat < 128 ∧ b ≠ '{' := by
    simp only [Text.isBlank, Bool.or_eq_true, decide_eq_true_eq] at hb
    obtain (((rfl | rfl) | rfl) | rfl) | rfl := hb <;> decide
  have hletter {a b : Char} (hb : b.toNat < 128 ∧ b ≠ '{') (ha : a.toLower = b) :
      a.toNat < 128 ∧ a ≠ '{' := by
    refine ⟨Unicode.ascii_of_toLower (ha ▸ hb.1), ?_⟩
    rintro rfl
    exact hb.2 ha.symm
  have hstarts (t : Text) : startsAnd (b :: a :: n :: x :: e :: t) = true :=
    startsAnd_iff.2 ⟨b, a, n, x, e, t, rfl, hb, hand⟩
  refine ⟨[b, a, n, x, e], r, rfl, by simp, ?_, fun t => ⟨hstarts t, ?_⟩⟩
  · simp only [List.forall_mem_cons]
    exact ⟨hblank hb, hletter (by decide) ha, hletter (by decide) hn, hletter (by decide) hx,
      hblank he, List.forall_mem_nil _⟩
  · exact (pieces_cons 0 b _).trans (if_pos ⟨rfl, hstarts t⟩)

end Names

namespace Latex

open Names

variable {kept : Char → Prop} {c : Char} {s s' t w : Text} {seq : Sequence}

/-! ## letters in braces -/

/-- A letter that has a sequence is beyond ASCII and no white space, and its sequence stands in
braces. -/
theorem braces_table : ∀ p ∈ table, Unicode.isAlphabetic p.1 = true →
    128 ≤ p.1.toNat ∧ Unicode.isWhiteSpace p.1 = false ∧
      p.2.written = '{' :: p.2.written.tail.dropLast ++ ['}'] ∧
        ∀ c ∈ p.2.written.tail.dropLast, c ≠ '{' ∧ c ≠ '}' := by
  decide +kernel

/-- So it is for the letters of a tame text. -/
theorem IsTame.isBraced (h : IsTame (c :: s)) (hseq : (c, seq) ∈ table) :
    128 ≤ c.toNat ∧ Unicode.isWhiteSpace c = false ∧ IsBraced seq.written := by
  obtain ⟨hascii, hwhite, hwritten, hinner⟩ := braces_table _ hseq (h.isAlphabetic hseq)
  exact ⟨hascii, hwhite, _, hwritten, hinner⟩

namespace Respells

theorem eq_nil_iff (h : Respells kept s s') : s' = [] ↔ s = [] := by
  cases h using Respells.induction with
  | nil => simp
  | keep => simp
  | sequence hseq htame h =>
      obtain ⟨-, -, inner, hwritten, -⟩ := htame.isBraced hseq
      simp [hwritten]

/-- ASCII characters are kept. -/
theorem append_ascii (h : Respells kept (w ++ s) s') (hw : ∀ c ∈ w, c.toNat < 128) :
    ∃ t', s' = w ++ t' ∧ Respells kept s t' := by
  induction w generalizing s' with
  | nil => exact ⟨s', rfl, h⟩
  | cons c w ih =>
      obtain ⟨hc, hw⟩ := List.forall_mem_cons.1 hw
      generalize hr : c :: w ++ s = r at h
      cases h using Respells.induction with
      | nil => cases hr
      | keep hkept htame h =>
          obtain ⟨rfl, rfl⟩ := List.cons.inj hr
          obtain ⟨t', rfl, ht⟩ := ih h hw
          exact ⟨t', rfl, ht⟩
      | sequence hseq htame h =>
          obtain ⟨hascii, -⟩ := htame.isBraced hseq
          obtain ⟨rfl, -⟩ := List.cons.inj hr
          omega

/-- Characters that open no sequences were kept. -/
theorem append_of_ne (h : Respells kept s (w ++ s')) (hw : ∀ c ∈ w, c ≠ '{') :
    ∃ t, s = w ++ t ∧ Respells kept t s' := by
  induction w generalizing s with
  | nil => exact ⟨s, rfl, h⟩
  | cons c w ih =>
      obtain ⟨hc, hw⟩ := List.forall_mem_cons.1 hw
      generalize hr : c :: w ++ s' = r at h
      cases h using Respells.induction with
      | nil => cases hr
      | keep hkept htame h =>
          obtain ⟨rfl, rfl⟩ := List.cons.inj hr
          obtain ⟨t, rfl, ht⟩ := ih h hw
          exact ⟨t, rfl, ht⟩
      | sequence hseq htame h =>
          obtain ⟨-, -, inner, hwritten, -⟩ := htame.isBraced hseq
          rw [hwritten] at hr
          exact absurd (List.cons.inj hr).1 hc

/-! ## trimming -/

theorem trimEnd (h : Respells kept s s') :
    Respells kept (Text.trimEnd Unicode.isWhiteSpace s) (Text.trimEnd Unicode.isWhiteSpace s') := by
  induction h using Respells.induction with
  | nil => exact nil
  | @keep c s s' hc htame h ih =>
      cases hwhite : Unicode.isWhiteSpace c with
      | false =>
          rw [Text.trimEnd_cons hwhite, Text.trimEnd_cons hwhite]
          exact ih.keep hc htame
      | true =>
          rw [Text.trimEnd_cons_of_pos hwhite, Text.trimEnd_cons_of_pos hwhite]
          by_cases hnil : Text.trimEnd Unicode.isWhiteSpace s = []
          · rw [if_pos hnil, if_pos (ih.eq_nil_iff.2 hnil)]
            exact nil
          · rw [if_neg hnil, if_neg fun h => hnil (ih.eq_nil_iff.1 h)]
            exact ih.keep hc htame
  | @sequence c seq s s' hseq htame h ih =>
      obtain ⟨-, hwhite, inner, hwritten, -⟩ := htame.isBraced hseq
      have hstops : Text.Stops Unicode.isWhiteSpace seq.written.reverse := by
        rw [hwritten, List.reverse_append]
        exact Text.stops_cons.2 (by decide)
      rw [Text.trimEnd_cons hwhite, Text.trimEnd_append_of_stops hstops]
      exact ih.sequence hseq htame

theorem strip (h : Respells kept s s') : Respells kept s.strip s'.strip := by
  suffices hstart : Respells kept (s.dropWhile Unicode.isWhiteSpace)
      (s'.dropWhile Unicode.isWhiteSpace) from hstart.trimEnd
  induction h using Respells.induction with
  | nil => exact nil
  | @keep c s s' hc htame h ih =>
      cases hwhite : Unicode.isWhiteSpace c with
      | false =>
          rw [List.dropWhile_cons_of_neg (by simp [hwhite]),
            List.dropWhile_cons_of_neg (by simp [hwhite])]
          exact h.keep hc htame
      | true =>
          rw [List.dropWhile_cons_of_pos hwhite, List.dropWhile_cons_of_pos hwhite]
          exact ih
  | @sequence c seq s s' hseq htame h ih =>
      obtain ⟨-, hwhite, inner, hwritten, -⟩ := htame.isBraced hseq
      have hstops : Text.Stops Unicode.isWhiteSpace (seq.written ++ s') := by
        rw [hwritten]
        exact Text.stops_cons.2 (by decide)
      rw [List.dropWhile_cons_of_neg (by simp [hwhite]), hstops.dropWhile_eq]
      exact h.sequence hseq htame

/-! ## names -/

/-- An ` and ` is kept, and none comes about. -/
theorem startsAnd_eq (h : Respells kept s s') : startsAnd s' = startsAnd s := by
  rw [Bool.eq_iff_iff]
  constructor
  · intro hand
    obtain ⟨w, t', rfl, -, hw, hcut⟩ := exists_and hand
    obtain ⟨t, rfl, -⟩ := h.append_of_ne fun c hc => (hw c hc).2
    exact (hcut t).1
  · intro hand
    obtain ⟨w, t, rfl, -, hw, hcut⟩ := exists_and hand
    obtain ⟨t', rfl, -⟩ := h.append_ascii fun c hc => (hw c hc).1
    exact (hcut t').1

/-- **A list is cut at the same places.** -/
theorem pieces {s s' : Text} (h : Respells kept s s') :
    List.Forall₂ (Respells kept) (Names.pieces 0 s) (Names.pieces 0 s') := by
  by_cases hand : startsAnd s = true
  · obtain ⟨w, t, rfl, hne, hw, hcut⟩ := exists_and hand
    obtain ⟨t', rfl, ht⟩ := h.append_ascii fun c hc => (hw c hc).1
    have hshorter : t.length < (w ++ t).length := by
      simpa using List.length_pos_iff.2 hne
    rw [(hcut t).2, (hcut t').2]
    exact .cons nil ht.pieces
  · have hsame := h.startsAnd_eq
    cases h using Respells.induction with
    | nil =>
        rw [Names.pieces]
        exact .cons nil .nil
    | @keep c s s' hc htame h =>
        obtain ⟨first, rest, hs⟩ := List.exists_cons_of_ne_nil (pieces_ne_nil 0 s)
        obtain ⟨first', rest', hfirst, hrest, hs'⟩ := List.forall₂_cons_left_iff.1 (hs ▸ h.pieces)
        rw [pieces_cons, pieces_cons, hsame, if_neg fun hcut => hand hcut.2,
          if_neg fun hcut => hand hcut.2, depthAfter_of_ne htame.ne_sign.2.2, hs, hs']
        exact .cons (hfirst.keep hc htame) hrest
    | @sequence c seq s s' hseq htame h =>
        obtain ⟨-, -, hbraced⟩ := htame.isBraced hseq
        obtain ⟨first', rest', hs', hbraced⟩ := pieces_braced hbraced s'
        obtain ⟨first, rest, hfirst, hrest, hs⟩ := List.forall₂_cons_right_iff.1 (hs' ▸ h.pieces)
        rw [pieces_cons, if_neg fun hcut => hand hcut.2, depthAfter_of_ne htame.ne_sign.2.2, hs, hbraced]
        exact .cons (hfirst.sequence hseq htame) hrest
termination_by s.length

/-- **So are the names of a list found.** -/
theorem split (h : Respells kept s s') :
    List.Forall₂ (Respells kept) (Names.split s) (Names.split s') := by
  have hstrip : List.Forall₂ (Respells kept) ((Names.pieces 0 s).map Text.strip)
      ((Names.pieces 0 s').map Text.strip) := List.rel_map (fun _ _ h => h.strip) h.pieces
  exact List.rel_filter (fun t t' h => by simp [h.eq_nil_iff]) hstrip

/-- A name is the placeholder, whatever became of it. -/
theorem isOthers_eq (h : Respells kept s s') : isOthers s' = isOthers s := by
  have hthere {t : Text} (ht : t.asciiLower = others) : ∀ c ∈ t, c.toNat < 128 ∧ c ≠ '{' := by
    intro c hc
    have hmem : c.toLower ∈ others := ht ▸ List.mem_map_of_mem hc
    have hascii : ∀ x ∈ others, x.toNat < 128 ∧ x ≠ '{' := by decide
    refine ⟨Unicode.ascii_of_toLower (hascii _ hmem).1, ?_⟩
    rintro rfl
    exact absurd hmem (by decide)
  have hiff (t : Text) : isOthers t = true ↔ t.strip.asciiLower = others := by
    simp [isOthers, Text.eqIgnoreAsciiCase, show Text.asciiLower others = others from by decide]
  have hstrip := h.strip
  rw [Bool.eq_iff_iff, hiff, hiff]
  constructor
  · intro hothers
    rw [← List.append_nil s'.strip] at hstrip
    obtain ⟨t, ht, hnil⟩ := hstrip.append_of_ne fun c hc => (hthere hothers c hc).2
    rwa [ht, hnil.eq_nil_iff.1 rfl, List.append_nil]
  · intro hothers
    rw [← List.append_nil s.strip] at hstrip
    obtain ⟨t, ht, hnil⟩ := hstrip.append_ascii fun c hc => (hthere hothers c hc).1
    rwa [ht, hnil.eq_nil_iff.2 rfl, List.append_nil]

/-! ## surnames -/

theorem beforeComma? (h : Respells kept s s') :
    Option.Rel (Respells kept) (Names.beforeComma? 0 s) (Names.beforeComma? 0 s') := by
  induction h using Respells.induction with
  | nil => exact .none
  | @keep c s s' hc htame h ih =>
      rw [Names.beforeComma?, Names.beforeComma?]
      split
      · exact .some nil
      · rw [depthAfter_of_ne htame.ne_sign.2.2]
        generalize Names.beforeComma? 0 s = o, Names.beforeComma? 0 s' = o' at ih ⊢
        cases ih with
        | none => exact .none
        | some ht => exact .some (ht.keep hc htame)
  | @sequence c seq s s' hseq htame h ih =>
      obtain ⟨hascii, hwhite, hbraced⟩ := htame.isBraced hseq
      have hcomma : ¬ (c = ',' ∧ 0 = 0) := by
        rintro ⟨rfl, -⟩
        exact absurd hascii (by decide)
      rw [Names.beforeComma?, if_neg hcomma, depthAfter_of_ne htame.ne_sign.2.2,
        beforeComma?_braced hbraced]
      generalize Names.beforeComma? 0 s = o, Names.beforeComma? 0 s' = o' at ih ⊢
      cases ih with
      | none => exact .none
      | some ht => exact .some (ht.sequence hseq htame)

theorem lastWord (h : Respells kept s s') {word word' : Text}
    (hword : Respells kept word.reverse word'.reverse) :
    Respells kept (Names.lastWord 0 word s) (Names.lastWord 0 word' s') := by
  induction h using Respells.induction generalizing word word' with
  | nil => exact hword
  | @keep c s s' hc htame h ih =>
      rw [Names.lastWord, Names.lastWord]
      split
      · exact ih nil
      · rw [depthAfter_of_ne htame.ne_sign.2.2]
        refine ih ?_
        rw [List.reverse_cons, List.reverse_cons]
        exact hword.append (nil.keep hc htame)
  | @sequence c seq s s' hseq htame h ih =>
      obtain ⟨hascii, hwhite, hbraced⟩ := htame.isBraced hseq
      have hblank : ¬ (Text.isBlank c = true ∧ 0 = 0) := by
        rintro ⟨hblank, -⟩
        rw [Unicode.isWhiteSpace_of_isBlank hblank] at hwhite
        cases hwhite
      rw [Names.lastWord, if_neg hblank, depthAfter_of_ne htame.ne_sign.2.2, lastWord_braced hbraced]
      refine ih ?_
      rw [List.reverse_cons, List.reverse_append, List.reverse_reverse]
      exact hword.append (List.append_nil seq.written ▸ nil.sequence hseq htame)

/-- **The surname of a respelled name** is respelled. -/
theorem surname (h : Respells kept s s') : Respells kept (Names.surname s) (Names.surname s') := by
  have hcomma := h.strip.beforeComma?
  unfold Names.surname
  generalize Names.beforeComma? 0 s.strip = o, Names.beforeComma? 0 s'.strip = o' at hcomma
  cases hcomma with
  | none => exact h.strip.lastWord nil
  | some ht => exact ht.strip

end Respells

end Latex

namespace CitationKey

open Latex Names

variable {kept : Char → Prop} {s s' : Text}

/-! ## author lists -/

/-- The names of an author list but the placeholder. -/
def namesOf (s : Text) : List Text := (split s).filter (!isOthers ·)

/-- The letters and digits of the surname of a name. -/
def surnameLetters (name : Text) : Text := (words (surname name)).flatten

theorem surnames_ofList (s : Text) :
    (Authors.ofList s).surnames = ((namesOf s).map surnameLetters).filter (· ≠ []) := rfl

/-- Whether escaping an author list leaves its surnames: they have no letters whose sequences are
mathematics. -/
def KeepsSurnames (s : Text) : Prop :=
  ∀ name ∈ namesOf s, ∀ c ∈ surname name, isMathLetter c = false

instance (s : Text) : Decidable (KeepsSurnames s) :=
  inferInstanceAs (Decidable (∀ name ∈ namesOf s, _))

theorem namesOf_respelled (h : Respells kept s s') :
    List.Forall₂ (Respells kept) (namesOf s) (namesOf s') :=
  List.rel_filter (fun t t' ht => by simp [ht.isOthers_eq]) h.split

/-- Respelling leaves an author list that it may leave. -/
theorem ofList_respelled (h : Respells kept s s') (hkeeps : KeepsSurnames s) :
    Authors.ofList s' = Authors.ofList s := by
  have hsurnames : List.Forall₂ Eq ((namesOf s').map surnameLetters)
      ((namesOf s).map surnameLetters) := by
    refine (List.rel_map (fun name name' hname => ?_)
      ((List.forall₂_and_left _ _).2 ⟨hkeeps, namesOf_respelled h⟩)).flip
    exact flatten_words_respelled hname.2.surname hname.1
  have hothers : List.Forall₂ Eq ((split s').map isOthers) ((split s).map isOthers) :=
    (List.rel_map (fun name name' hname => hname.isOthers_eq) h.split).flip
  rw [List.forall₂_eq_eq_eq] at hsurnames hothers
  have htruncated := congrArg (·.any id) hothers
  simp only [List.any_map, Function.id_comp] at htruncated
  rw [Authors.mk.injEq]
  exact ⟨congrArg (List.filter (· ≠ [])) hsurnames, htruncated⟩

/-- Every letter of a surname in mathematics that is not kept is missing. -/
theorem length_surnames_respelled {names names' : List Text}
    (h : List.Forall₂ (Respells kept) names names') (hkept : ∀ c, kept c → isMathLetter c = false) :
    (names'.map surnameLetters).flatten.length +
        (names.flatMap fun name => (surname name).filter isMathLetter).length ≤
      (names.map surnameLetters).flatten.length := by
  induction h with
  | nil => exact Nat.le_refl _
  | @cons name name' names names' hname h ih =>
      have hfirst := length_words_respelled hname.surname hkept
      simp only [List.map_cons, List.flatten_cons, List.flatMap_cons, List.length_append]
      simp only [surnameLetters] at ih ⊢
      omega

/-- **Escaping leaves an author list** exactly if its surnames have no letters in mathematics. -/
theorem ofList_escape_iff (hs : IsTame s) :
    Authors.ofList (escape s) = Authors.ofList s ↔ KeepsSurnames s := by
  refine ⟨fun heq => ?_, ofList_respelled hs.respells_escape⟩
  have hsurnames := congrArg (fun a => a.surnames.flatten) heq
  rw [surnames_ofList, surnames_ofList, Text.flatten_filter_ne_nil, Text.flatten_filter_ne_nil]
    at hsurnames
  have hlength := length_surnames_respelled (namesOf_respelled hs.respells_escape)
    fun _ => isMathLetter_of_none
  rw [hsurnames] at hlength
  have hnone : ((namesOf s).flatMap fun name => (surname name).filter isMathLetter) = [] :=
    List.length_eq_zero_iff.1 (by omega)
  intro name hname
  simpa using List.filter_eq_nil_iff.1 (List.flatMap_eq_nil_iff.1 hnone name hname)

end CitationKey

end Bibliography
