import Bibliography.Offset.Latex
import Bibliography.Proofs.Latex.Respelling
import Bibliography.Proofs.Offset.Slice

/-!
# Bibliography.Proofs.Offset.Latex

Escaping and folding by offsets.  The text that has been passed is in front, and its
size is the offset; a command, mathematics and a character are slices of what follows
(`Latex.Spanned`).  What a step makes of each of them is carried on to the whole text
by the same loop (`replaceFrom_piece`).

* `escape_eq` — escaping, span by span;
* `fold_eq` — folding, command by command and character by character.
-/

namespace Bibliography

open Latex (Span Spanned commandName)

namespace Offset

variable {t r v w : Text} {c : Char}

/-! ## commands -/

/-- **The command** that a text begins with has a backslash and its name. -/
theorem commandLength_eq (s : Text) :
    commandLength ('\\' :: s) = some (Text.utf8Size ('\\' :: commandName s)) := by
  have hrest := sliceFrom?_append ['\\'] s
  have hclass : Text.IsOctetClass Char.isAlpha :=
    ⟨false, fun x hx => Bool.eq_false_iff.2 fun h =>
      absurd (Unicode.lt_of_isAlpha h) (Nat.not_lt.2 hx)⟩
  have hone : Text.utf8Size ['\\'] = 1 := rfl
  rw [hone, List.singleton_append] at hrest
  rw [commandLength, hrest, commandName]
  simp only [Option.bind_eq_bind, Option.bind_some, Text.takeWhile_octets hclass,
    Text.length_octets]
  cases s.takeWhile Char.isAlpha with
  | nil => cases s <;> rfl
  | cons x name =>
      have hpos := Char.utf8Size_pos x
      rw [if_pos (by rw [Text.utf8Size]; omega)]
      rfl

theorem utf8Size_cons_ascii (hc : c.toNat < 128) (s : Text) :
    Text.utf8Size (c :: s) = s.utf8Size + 1 := by
  rw [Text.utf8Size, Text.utf8Size_of_ascii hc, Nat.add_comm]

/-! ## pieces -/

section

variable {step : Text → Nat → Option (Option Replacement)}

theorem replaceFrom_end {s : Text} (hstep : step s s.utf8Size = some none) (out : Text) :
    replaceFrom step s out s.utf8Size = some out := by
  rw [replaceFrom, hstep]
  rfl

/-- A piece is replaced, and the rest follows. -/
theorem replaceFrom_piece (hw : w ≠ [])
    (hstep : step (t ++ (w ++ r)) t.utf8Size = some (some ⟨v, t.utf8Size + w.utf8Size⟩))
    (out : Text) :
    replaceFrom step (t ++ (w ++ r)) out t.utf8Size =
      replaceFrom step ((t ++ w) ++ r) (out ++ v) (Text.utf8Size (t ++ w)) := by
  have honward := isOnward_append t hw r
  rw [replaceFrom, hstep, List.append_assoc, Text.utf8Size_append t w]
  simp only [Option.bind_eq_bind, Option.bind_some, dif_pos honward]

end

/-! ## escaping -/

theorem escapeStep_end (s : Text) : escapeStep s s.utf8Size = some none := by
  have hrest := sliceFrom?_append s []
  rw [List.append_nil] at hrest
  rw [escapeStep, hrest]
  rfl

/-- A command is copied. -/
theorem escapeStep_command (hname : commandName (w ++ r) = w) (t : Text) :
    escapeStep (t ++ ('\\' :: w ++ r)) t.utf8Size =
      some (some ⟨'\\' :: w, t.utf8Size + Text.utf8Size ('\\' :: w)⟩) := by
  have hlength := commandLength_eq (w ++ r)
  have hslice := slice?_append t ('\\' :: w) r
  rw [hname] at hlength
  rw [List.cons_append] at hslice
  rw [escapeStep, sliceFrom?_append]
  simp only [List.cons_append, Option.bind_eq_bind, Option.bind_some, if_true, hlength, hslice]
  rfl

theorem eq_false_of_notMem (hw : '$' ∉ w) : ∀ x ∈ w, decide (x = '$') = false :=
  fun _ hx => decide_eq_false fun h => hw (h ▸ hx)

/-- Mathematics is copied. -/
theorem escapeStep_math (hw : '$' ∉ w) (t r : Text) :
    escapeStep (t ++ ('$' :: (w ++ ['$']) ++ r)) t.utf8Size =
      some (some ⟨'$' :: (w ++ ['$']), t.utf8Size + Text.utf8Size ('$' :: (w ++ ['$']))⟩) := by
  have hinside := sliceFrom?_append (t ++ ['$']) (w ++ '$' :: r)
  have hslice := slice?_append t ('$' :: (w ++ ['$'])) r
  have hfind := find?_append (p := (· = '$')) (eq_false_of_notMem hw) (decide_eq_true rfl) r
  have hopen : Text.utf8Size (t ++ ['$']) = t.utf8Size + 1 := Text.utf8Size_append _ _
  have hone : Char.utf8Size '$' = 1 := rfl
  have hstop : t.utf8Size + Text.utf8Size ('$' :: (w ++ ['$'])) =
      t.utf8Size + 1 + w.utf8Size + 1 := by
    simp only [Text.utf8Size_append, Text.utf8Size, hone]
    omega
  rw [hopen] at hinside
  rw [hstop] at hslice ⊢
  simp only [List.append_assoc, List.cons_append, List.nil_append] at hinside hslice ⊢
  rw [escapeStep, sliceFrom?_append]
  simp only [Option.bind_eq_bind, Option.bind_some, if_true, hinside, hfind, hslice,
    if_neg (show '$' ≠ '\\' by decide)]
  rfl

/-- Mathematics that does not end is copied to the end. -/
theorem escapeStep_openMath (hw : '$' ∉ w) (t : Text) :
    escapeStep (t ++ ('$' :: w ++ [])) t.utf8Size =
      some (some ⟨'$' :: w, t.utf8Size + Text.utf8Size ('$' :: w)⟩) := by
  have hinside := sliceFrom?_append (t ++ ['$']) w
  have hslice := slice?_append t ('$' :: w) []
  have hfind := find?_eq_none (p := (· = '$')) (eq_false_of_notMem hw)
  have hopen : Text.utf8Size (t ++ ['$']) = t.utf8Size + 1 := Text.utf8Size_append _ _
  rw [hopen, List.append_assoc, List.singleton_append] at hinside
  rw [List.append_nil] at hslice ⊢
  rw [escapeStep, sliceFrom?_append]
  simp only [Option.bind_eq_bind, Option.bind_some, if_true, hinside, hfind,
    Text.utf8Size_append t ('$' :: w), hslice, if_neg (show '$' ≠ '\\' by decide)]
  rfl

/-- A character is replaced. -/
theorem escapeStep_char (hslash : c ≠ '\\') (hdollar : c ≠ '$') (t r : Text) :
    escapeStep (t ++ ([c] ++ r)) t.utf8Size =
      some (some ⟨(Latex.latexFor c).getD [c], t.utf8Size + Text.utf8Size [c]⟩) := by
  rw [escapeStep, sliceFrom?_append]
  simp only [List.singleton_append, Option.bind_eq_bind, Option.bind_some, if_neg hslash,
    if_neg hdollar]
  rfl

/-- The invariant: `t` has been passed, and has become `out`. -/
theorem replaceFrom_escapeStep {ss : List Span} {u : Text} (h : Spanned ss u) (t out : Text) :
    replaceFrom escapeStep (t ++ u) out t.utf8Size = some (out ++ ss.flatMap Span.escaped) := by
  induction h generalizing t out with
  | nil =>
      rw [List.append_nil, replaceFrom_end (escapeStep_end t), List.flatMap_nil, List.append_nil]
  | letters hw hr _ ih =>
      have hstep := escapeStep_command (Latex.commandName_letters hw hr) t
      have hpiece := (replaceFrom_piece (List.cons_ne_nil _ _) hstep out).trans (ih _ _)
      simpa [Span.escaped, Span.text] using hpiece
  | @symbol c r _ hc _ ih =>
      have hname : commandName ([c] ++ r) = [c] := Latex.commandName_symbol hc r
      have hstep := escapeStep_command hname t
      have hpiece := (replaceFrom_piece (List.cons_ne_nil _ _) hstep out).trans (ih _ _)
      simpa [Span.escaped, Span.text] using hpiece
  | slash =>
      have hname : commandName ([] ++ []) = [] := rfl
      have hpiece := replaceFrom_piece (List.cons_ne_nil _ _) (escapeStep_command hname t) out
      rw [List.append_nil, List.append_nil, replaceFrom_end (escapeStep_end _)] at hpiece
      exact hpiece
  | @math w r _ hw _ ih =>
      have hstep := escapeStep_math hw t r
      have hpiece := (replaceFrom_piece (List.cons_ne_nil _ _) hstep out).trans (ih _ _)
      simpa [Span.escaped, Span.text] using hpiece
  | openMath hw =>
      have hpiece := replaceFrom_piece (List.cons_ne_nil _ _) (escapeStep_openMath hw t) out
      rw [List.append_nil, List.append_nil, replaceFrom_end (escapeStep_end _)] at hpiece
      simpa [Span.escaped, Span.text] using hpiece
  | @char c r _ hslash hdollar _ ih =>
      have hstep := escapeStep_char hslash hdollar t r
      have hpiece := (replaceFrom_piece (List.cons_ne_nil c []) hstep out).trans (ih _ _)
      simpa [Span.escaped] using hpiece

/-- **Escaping by offsets** is escaping. -/
theorem escape_eq (s : Text) : escape s = some (Latex.escape s) := by
  have hspans := Latex.spanned_spans s
  rw [Latex.escape_of_spanned hspans]
  exact replaceFrom_escapeStep hspans [] []

/-! ## folding -/

/-- **The letters in a sequence of the table** are found in it as it is written. -/
theorem sequenceLetters_table : ∀ p ∈ Latex.table,
    sequenceLetters p.2.written = some p.2.letters := by
  decide +kernel

/-- A character beyond ASCII leaves what it leaves by offsets. -/
theorem foldWide_eq (hc : 128 ≤ c.toNat) : foldWide c = some (Latex.foldChar c) := by
  have hne (x : Char) (hx : x.toNat < 128) : c ≠ x := by
    rintro rfl
    omega
  have hsign : ¬ (c = '{' ∨ c = '}' ∨ c = '$') := by
    simp [hne '{' (by decide), hne '}' (by decide), hne '$' (by decide)]
  rw [foldWide, Latex.foldChar, if_neg hsign, if_neg (Nat.not_lt.2 hc)]
  split
  · rfl
  · split
    · cases hlatex : Latex.latexFor c with
      | none =>
          have hnone : Latex.sequence? c = none := Option.map_eq_none_iff.1 hlatex
          rw [hnone]
          rfl
      | some latex =>
          obtain ⟨p, hp, rfl, rfl⟩ := Latex.exists_of_latexFor hlatex
          rw [Latex.sequence?_table p hp]
          exact sequenceLetters_table p hp
    · rfl

theorem foldStep_end (s : Text) : foldStep s s.utf8Size = some none := by
  have hrest := sliceFrom?_append s []
  rw [List.append_nil] at hrest
  rw [foldStep, hrest]
  rfl

/-- A command leaves what it stands for. -/
theorem foldStep_command (hname : commandName (w ++ r) = w) (t : Text) :
    foldStep (t ++ ('\\' :: w ++ r)) t.utf8Size =
      some (some ⟨Latex.foldCommand w, t.utf8Size + Text.utf8Size ('\\' :: w)⟩) := by
  have hlength := commandLength_eq (w ++ r)
  have hslice := slice?_append (t ++ ['\\']) w r
  have hopen : Text.utf8Size (t ++ ['\\']) = t.utf8Size + 1 := Text.utf8Size_append _ _
  have hstop : t.utf8Size + 1 + w.utf8Size = t.utf8Size + Text.utf8Size ('\\' :: w) := by
    rw [utf8Size_cons_ascii (by decide), Nat.add_assoc, Nat.add_comm 1]
  rw [hname] at hlength
  rw [List.append_assoc, List.singleton_append, hopen, hstop] at hslice
  rw [foldStep, sliceFrom?_append]
  simp only [List.cons_append, Option.bind_eq_bind, Option.bind_some, if_true, hlength, hslice]
  rfl

/-- A character leaves what it leaves. -/
theorem foldStep_char (hslash : c ≠ '\\') (t r : Text) :
    foldStep (t ++ ([c] ++ r)) t.utf8Size =
      some (some ⟨Latex.foldChar c, t.utf8Size + Text.utf8Size [c]⟩) := by
  have hsize : Text.utf8Size [c] = c.utf8Size := rfl
  rw [foldStep, sliceFrom?_append, hsize]
  simp only [List.singleton_append, Option.bind_eq_bind, Option.bind_some, if_neg hslash]
  by_cases hsign : c = '{' ∨ c = '}' ∨ c = '$'
  · have hascii : c.toNat < 128 := by obtain rfl | rfl | rfl := hsign <;> decide
    rw [if_pos hsign, Latex.foldChar, if_pos hsign, Text.utf8Size_of_ascii hascii]
    rfl
  · rw [if_neg hsign]
    by_cases hascii : c.toNat < 128
    · rw [if_pos hascii, Latex.foldChar, if_neg hsign, if_pos hascii, Text.utf8Size_of_ascii hascii]
      rfl
    · rw [if_neg hascii, foldWide_eq (Nat.le_of_not_lt hascii)]
      rfl

/-- The name of a command is the beginning of what follows its backslash. -/
theorem commandName_append_drop (s : Text) :
    commandName s ++ s.drop (commandName s).length = s := by
  refine List.prefix_iff_eq_append.1 ?_
  unfold commandName
  split
  · exact List.take_prefix 1 s
  · exact List.takeWhile_prefix _

/-- The invariant: `t` has been passed, and has become `out`. -/
theorem replaceFrom_foldStep (t u out : Text) :
    replaceFrom foldStep (t ++ u) out t.utf8Size = some (out ++ Latex.fold u) := by
  fun_induction Latex.fold u generalizing t out with
  | case1 => rw [List.append_nil, replaceFrom_end (foldStep_end t), List.append_nil]
  | case2 s ih =>
      have hcut := commandName_append_drop s
      have hname : commandName (commandName s ++ s.drop (commandName s).length) =
          commandName s := by
        rw [hcut]
      have hpiece := replaceFrom_piece (List.cons_ne_nil _ _) (foldStep_command hname t) out
      rw [ih, List.cons_append, hcut, List.append_assoc] at hpiece
      exact hpiece
  | case3 c s hslash ih =>
      have hpiece := replaceFrom_piece (List.cons_ne_nil c []) (foldStep_char hslash t s) out
      rw [ih, List.append_assoc] at hpiece
      exact hpiece

/-- **Folding by offsets** is folding. -/
theorem fold_eq (s : Text) : fold s = some (Latex.fold s) := replaceFrom_foldStep [] s []

end Offset

end Bibliography
