import Bibliography.Latex.Fold
import Bibliography.Proofs.Value.Rewriting

/-!
# Bibliography.Proofs.Latex.Escape

What is replaced by LaTeX sequences.  A text is a sequence of *spans*: commands,
mathematics between dollar signs, and characters that stand for themselves.  It is
one in exactly one way (`spanned_iff`), and only the characters of the last kind
are replaced.  A sequence is read as what was written on purpose when the text is
escaped again: its reading begins and ends in plain text (`settled_replaced`), so
that nothing in it or after it is replaced once more.

* `escape_of_spanned` — escaping goes span by span;
* `escapeFrom_escapeFrom` — escaping again changes nothing, from any mode on;
* `escape_spans` — both, and braces stay balanced.
-/

namespace Bibliography.Latex

/-! ## spans -/

/-- A stretch of a text that is copied or replaced as a whole. -/
inductive Span where
  /-- A backslash with the letters or the one character after it. -/
  | command (name : Text)
  /-- Mathematics between two dollar signs. -/
  | math (body : Text)
  /-- Mathematics that no dollar sign ends. -/
  | openMath (body : Text)
  /-- A character that stands for itself. -/
  | char (c : Char)
deriving DecidableEq, Inhabited

namespace Span

/-- The characters of a span. -/
def text : Span → Text
  | command name => '\\' :: name
  | math body => '$' :: body ++ ['$']
  | openMath body => '$' :: body
  | char c => [c]

/-- A span with LaTeX sequences: only a character that stands for itself is replaced. -/
def escaped : Span → Text
  | char c => (latexFor c).getD [c]
  | s => s.text

end Span

/-- A text is cut into spans from left to right.  A command takes all the letters that follow its
backslash, or else one character if there is one; mathematics goes to the next dollar sign, or to
the end of the text if there is none. -/
inductive Spanned : List Span → Text → Prop
  | nil : Spanned [] []
  | letters {w t : Text} {ss : List Span} : Text.IsRun Char.isAlpha w → Text.Stops Char.isAlpha t →
      Spanned ss t → Spanned (.command w :: ss) ('\\' :: (w ++ t))
  | symbol {c : Char} {t : Text} {ss : List Span} : c.isAlpha = false →
      Spanned ss t → Spanned (.command [c] :: ss) ('\\' :: c :: t)
  | slash : Spanned [.command []] ['\\']
  | math {w t : Text} {ss : List Span} : '$' ∉ w →
      Spanned ss t → Spanned (.math w :: ss) ('$' :: (w ++ '$' :: t))
  | openMath {w : Text} : '$' ∉ w → Spanned [.openMath w] ('$' :: w)
  | char {c : Char} {t : Text} {ss : List Span} : c ≠ '\\' → c ≠ '$' →
      Spanned ss t → Spanned (.char c :: ss) (c :: t)

/-- The spans of a text. -/
def spans (t : Text) : List Span :=
  match t with
  | [] => []
  | c :: t =>
    if c = '\\' then .command (commandName t) :: spans (t.drop (commandName t).length)
    else if c = '$' then
      match _ : t.dropWhile (· ≠ '$') with
      | [] => [.openMath t]
      | _ :: r => .math (t.takeWhile (· ≠ '$')) :: spans r
    else .char c :: spans t
termination_by t.length
decreasing_by
  · simp only [List.length_drop, List.length_cons]
    omega
  · exact Nat.lt_succ_of_lt (Text.length_lt_of_dropWhile ‹_›)
  · exact Nat.lt_succ_self _

variable {s t : Text} {ss : List Span} {c : Char}

/-- Spans are all of a text. -/
theorem Spanned.text_eq (h : Spanned ss t) : ss.flatMap Span.text = t := by
  induction h with
  | nil | slash => rfl
  | letters _ _ _ ih | symbol _ _ ih | math _ _ ih | char _ _ _ ih =>
      rw [List.flatMap_cons, ih]
      simp [Span.text]
  | openMath => simp [Span.text]

theorem spans_command (t : Text) :
    spans ('\\' :: t) = .command (commandName t) :: spans (t.drop (commandName t).length) := by
  rw [spans, if_pos rfl]

theorem spans_char (hslash : c ≠ '\\') (hdollar : c ≠ '$') (t : Text) :
    spans (c :: t) = .char c :: spans t := by
  rw [spans, if_neg hslash, if_neg hdollar]

/-- The characters of mathematics are other than the dollar sign. -/
theorem forall_ne_dollar (h : '$' ∉ t) : ∀ x ∈ t, decide (x ≠ '$') = true := by
  intro x hx
  exact decide_eq_true fun hd => h (hd ▸ hx)

theorem spans_math (h : '$' ∉ s) (t : Text) :
    spans ('$' :: (s ++ '$' :: t)) = .math s :: spans t := by
  have hstops : Text.Stops (fun x => decide (x ≠ '$')) ('$' :: t) := Text.stops_cons.2 rfl
  have hdrop := Text.dropWhile_append_of_run (forall_ne_dollar h) hstops
  have htake := Text.takeWhile_append_of_run (forall_ne_dollar h) hstops
  rw [spans, if_neg (by decide), if_pos rfl]
  split
  · next hnil =>
    rw [hdrop] at hnil
    cases hnil
  · next x r hr =>
    rw [hdrop] at hr
    cases hr
    rw [htake]

theorem spans_openMath (h : '$' ∉ t) : spans ('$' :: t) = [.openMath t] := by
  have hdrop : t.dropWhile (fun x => decide (x ≠ '$')) = [] := by
    simpa using Text.dropWhile_append_of_run (forall_ne_dollar h) Text.stops_nil
  rw [spans, if_neg (by decide), if_pos rfl]
  split
  · rfl
  · next hr =>
    rw [hdrop] at hr
    cases hr

theorem commandName_letters (hs : Text.IsRun Char.isAlpha s) (ht : Text.Stops Char.isAlpha t) :
    commandName (s ++ t) = s := by
  rw [commandName, Text.takeWhile_append_of_run hs.2 ht]
  obtain ⟨hne, -⟩ := hs
  cases s with
  | nil => contradiction
  | cons c s => rfl

theorem commandName_symbol (hc : c.isAlpha = false) (t : Text) : commandName (c :: t) = [c] := by
  rw [commandName, List.takeWhile_cons_of_neg (by simp [hc])]
  rfl

/-- A text that is cut has these spans. -/
theorem Spanned.eq_spans (h : Spanned ss t) : ss = spans t := by
  induction h with
  | nil => rw [spans]
  | letters hw ht _ ih =>
      rw [spans_command, commandName_letters hw ht, List.drop_left, ih]
  | symbol hc _ ih =>
      rw [spans_command, commandName_symbol hc, ih]
      rfl
  | slash =>
      rw [spans_command, show commandName [] = [] from rfl]
      simp [spans]
  | math hw _ ih => rw [spans_math hw, ih]
  | openMath hw => rw [spans_openMath hw]
  | char hslash hdollar _ ih => rw [spans_char hslash hdollar, ih]

/-- What stands before the first dollar sign has none. -/
theorem not_mem_takeWhile (t : Text) : '$' ∉ t.takeWhile (fun x => decide (x ≠ '$')) := by
  intro h
  simpa using Text.mem_takeWhile h

/-- Every text is cut into its spans. -/
theorem spanned_spans (t : Text) : Spanned (spans t) t := by
  fun_induction spans t with
  | case1 => exact .nil
  | case2 t ih =>
      cases t with
      | nil =>
          rw [show commandName [] = [] from rfl, List.drop_nil, spans]
          exact .slash
      | cons d t =>
          cases hd : d.isAlpha with
          | true =>
              have hname : commandName (d :: t) = (d :: t).takeWhile Char.isAlpha := by
                rw [commandName, List.takeWhile_cons_of_pos hd]
              have hdrop : (d :: t).drop ((d :: t).takeWhile Char.isAlpha).length =
                  (d :: t).dropWhile Char.isAlpha := by
                rw [List.dropWhile_eq_drop_findIdx_not, List.takeWhile_eq_take_findIdx_not]
                simp
              rw [hname, hdrop] at ih ⊢
              have hne : (d :: t).takeWhile Char.isAlpha ≠ [] := by simp [hd]
              have h := Spanned.letters (Text.isRun_takeWhile hne) (Text.stops_dropWhile _ _) ih
              rwa [List.takeWhile_append_dropWhile] at h
          | false =>
              rw [commandName_symbol hd] at ih ⊢
              exact .symbol hd ih
  | case3 t hnil =>
      have hall : '$' ∉ t := by
        rw [← List.takeWhile_append_dropWhile (p := fun x => decide (x ≠ '$')) (l := t), hnil,
          List.append_nil]
        exact not_mem_takeWhile t
      exact .openMath hall
  | case4 t x r hr _ ih =>
      obtain rfl : x = '$' := by
        have hstops := Text.stops_dropWhile (fun x => decide (x ≠ '$')) t
        rw [hr] at hstops
        simpa using Text.stops_cons.1 hstops
      have h := Spanned.math (not_mem_takeWhile t) ih
      rwa [← hr, List.takeWhile_append_dropWhile] at h
  | case5 c t hslash hdollar ih => exact .char hslash hdollar ih

/-- **A text is cut into spans in one way.** -/
theorem spanned_iff : Spanned ss t ↔ ss = spans t :=
  ⟨fun h => h.eq_spans, fun h => h ▸ spanned_spans t⟩

/-! ## modes and spans -/

/-- What is copied without a change of the mode. -/
theorem escapeFrom_of_copied {m : Mode} (hs : ∀ x ∈ s, replaced m x = [x] ∧ m.after x = m)
    (t : Text) : escapeFrom m (s ++ t) = s ++ escapeFrom m t := by
  induction s with
  | nil => rfl
  | cons c s ih =>
      obtain ⟨⟨hcopied, hafter⟩, hs⟩ := List.forall_mem_cons.1 hs
      rw [List.cons_append, escapeFrom, hcopied, hafter, ih hs]
      rfl

/-- The letters of a command are copied. -/
theorem escapeFrom_letters (hs : ∀ x ∈ s, x.isAlpha = true) (t : Text) :
    escapeFrom .letters (s ++ t) = s ++ escapeFrom .letters t := by
  refine escapeFrom_of_copied (fun x hx => ?_) t
  have hcopied : replaced .letters x = [x] := by simp [replaced, Mode.isPlain, hs x hx]
  have hafter : Mode.letters.after x = .letters := if_pos (hs x hx)
  exact ⟨hcopied, hafter⟩

/-- After the letters of a command plain text goes on. -/
theorem escapeFrom_of_stops (h : Text.Stops Char.isAlpha t) :
    escapeFrom .letters t = escapeFrom .plain t := by
  cases t with
  | nil => rfl
  | cons c t =>
      have hc : c.isAlpha = false := Text.stops_cons.1 h
      have hreplaced : replaced .letters c = replaced .plain c := by
        simp [replaced, Mode.isPlain, hc]
      have hafter : Mode.letters.after c = Mode.plain.after c := if_neg (by simp [hc])
      rw [escapeFrom, escapeFrom, hreplaced, hafter]

theorem escapeFrom_slash (t : Text) :
    escapeFrom .plain ('\\' :: t) = '\\' :: escapeFrom .backslash t := rfl

theorem escapeFrom_backslash (c : Char) (t : Text) :
    escapeFrom .backslash (c :: t) =
      c :: escapeFrom (if c.isAlpha then .letters else .plain) t := rfl

/-- Mathematics is copied. -/
theorem escapeFrom_math (hs : '$' ∉ s) (t : Text) :
    escapeFrom .math (s ++ t) = s ++ escapeFrom .math t := by
  refine escapeFrom_of_copied (fun x hx => ?_) t
  have hne : x ≠ '$' := ne_of_mem_of_not_mem hx hs
  have hafter : Mode.math.after x = .math := if_neg hne
  exact ⟨rfl, hafter⟩

/-- **Escaping goes span by span.** -/
theorem escape_of_spanned (h : Spanned ss t) : escape t = ss.flatMap Span.escaped := by
  unfold escape
  induction h with
  | nil | slash => rfl
  | @letters w t ss hw ht _ ih =>
      obtain ⟨hne, hw⟩ := hw
      cases w with
      | nil => contradiction
      | cons c w =>
          obtain ⟨hc, hw⟩ := List.forall_mem_cons.1 hw
          rw [escapeFrom_slash, List.cons_append, escapeFrom_backslash, if_pos hc,
            escapeFrom_letters hw, escapeFrom_of_stops ht, ih]
          rfl
  | @symbol c t ss hc _ ih =>
      rw [escapeFrom_slash, escapeFrom_backslash, if_neg (by simp [hc]), ih]
      rfl
  | @math w t ss hw _ ih =>
      have hopen : escapeFrom .plain ('$' :: (w ++ '$' :: t)) =
          '$' :: escapeFrom .math (w ++ '$' :: t) := rfl
      have hclose : escapeFrom .math ('$' :: t) = '$' :: escapeFrom .plain t := rfl
      rw [hopen, escapeFrom_math hw, hclose, ih]
      simp [Span.escaped, Span.text]
  | @openMath w hw =>
      have hopen : escapeFrom .plain ('$' :: w) = '$' :: escapeFrom .math w := rfl
      have hend := escapeFrom_math hw []
      rw [List.append_nil] at hend
      rw [hopen, hend]
      simp [Span.escaped, Span.text, escapeFrom]
  | @char c t ss hslash hdollar _ ih =>
      have hafter : Mode.plain.after c = .plain := by
        simp [Mode.after, Mode.enter, hslash, hdollar]
      rw [escapeFrom, hafter, ih]
      rfl

/-! ## escaping again -/

/-- Whether no character of a text is replaced. -/
def isClear (m : Mode) : Text → Bool
  | [] => true
  | c :: s => replaced m c = [c] && isClear (m.after c) s

theorem isClear_append (m : Mode) (s t : Text) :
    isClear m (s ++ t) = (isClear m s && isClear (m.run s) t) := by
  induction s generalizing m with
  | nil => rfl
  | cons c s ih =>
      rw [List.cons_append, isClear, isClear, ih, Bool.and_assoc]
      rfl

/-- Where nothing is replaced, escaping changes nothing. -/
theorem escapeFrom_eq_self {m : Mode} (h : isClear m s = true) : escapeFrom m s = s := by
  induction s generalizing m with
  | nil => rfl
  | cons c s ih =>
      rw [isClear, Bool.and_eq_true, decide_eq_true_eq] at h
      rw [escapeFrom, h.1, ih h.2]
      rfl

/-- Braces around a text without anything to replace are not replaced either. -/
theorem isClear_braces (h : isClear .plain t = true) : isClear .plain ('{' :: t ++ ['}']) = true := by
  have hopen : replaced .plain '{' = ['{'] := by decide +kernel
  have hclose : ∀ m : Mode, isClear m ['}'] = true := by
    intro m
    cases m <;> decide +kernel
  have hafter : Mode.plain.after '{' = .plain := rfl
  rw [List.cons_append, isClear, hopen, hafter, isClear_append, h, hclose]
  rfl

/-- The characters that have a sequence are no part of commands, and their sequences are read from
plain text to plain text without a character that has one. -/
theorem settled_table : ∀ p ∈ table, (p.1 ≠ '\\' ∧ p.1 ≠ '$' ∧ p.1.isAlpha = false) ∧
    ∀ m ∈ [Mode.plain, Mode.letters],
      isClear m p.2.written = true ∧ m.run p.2.written = .plain := by
  decide +kernel

/-- **What a character becomes** is not replaced again, and is read to the same mode. -/
theorem settled_replaced (m : Mode) (c : Char) :
    isClear m (replaced m c) = true ∧ m.run (replaced m c) = m.after c := by
  have hkept (hc : replaced m c = [c]) :
      isClear m (replaced m c) = true ∧ m.run (replaced m c) = m.after c := by
    rw [hc]
    exact ⟨by simp [isClear, hc], rfl⟩
  obtain hc | ⟨hplain, p, hp, rfl, hc⟩ := replaced_cases m c
  · exact hkept hc
  · obtain ⟨⟨hslash, hdollar, halpha⟩, htable⟩ := settled_table p hp
    have henter : Mode.enter p.1 = .plain := by simp [Mode.enter, hslash, hdollar]
    rw [hc]
    cases m with
    | plain =>
        obtain ⟨hclear, hrun⟩ := htable .plain (by simp)
        exact ⟨hclear, hrun.trans henter.symm⟩
    | letters =>
        obtain ⟨hclear, hrun⟩ := htable .letters (by simp)
        exact ⟨hclear, by simp [hrun, Mode.after, halpha, henter]⟩
    | backslash => cases hplain
    | math => cases hplain

/-- A character of an escaped text is one of the text, or of a sequence. -/
theorem mem_escapeFrom {x : Char} {m : Mode} (h : x ∈ escapeFrom m s) :
    x ∈ s ∨ ∃ p ∈ table, x ∈ p.2.written := by
  induction s generalizing m with
  | nil => cases h
  | cons c s ih =>
      rw [escapeFrom, List.mem_append] at h
      obtain h | h := h
      · obtain hc | ⟨-, p, hp, -, hc⟩ := replaced_cases m c
        · rw [hc] at h
          exact .inl (List.mem_singleton.1 h ▸ List.mem_cons_self)
        · rw [hc] at h
          exact .inr ⟨p, hp, h⟩
      · exact (ih h).imp_left (List.mem_cons_of_mem c)

/-- What has been escaped has nothing to replace, from any mode on. -/
theorem isClear_escapeFrom (m : Mode) (s : Text) : isClear m (escapeFrom m s) = true := by
  induction s generalizing m with
  | nil => rfl
  | cons c s ih =>
      obtain ⟨hclear, hrun⟩ := settled_replaced m c
      rw [escapeFrom, isClear_append, hclear, hrun, ih]
      rfl

/-- **Escaping again changes nothing**, from any mode on. -/
theorem escapeFrom_escapeFrom (m : Mode) (s : Text) :
    escapeFrom m (escapeFrom m s) = escapeFrom m s :=
  escapeFrom_eq_self (isClear_escapeFrom m s)

/-- **LaTeX sequences.**  Escaping again changes nothing; a text is cut into commands, mathematics
and other characters in one way, and exactly the other characters that have a sequence are replaced
by it; and a balanced text stays balanced. -/
theorem escape_spans (t : Text) :
    escape (escape t) = escape t ∧
    (∃ ss, Spanned ss t ∧ (∀ ss', Spanned ss' t → ss' = ss) ∧
      ss.flatMap Span.text = t ∧ escape t = ss.flatMap Span.escaped) ∧
    (t.IsBalanced → (escape t).IsBalanced) := by
  have hspans := spanned_spans t
  refine ⟨escapeFrom_escapeFrom .plain t, ⟨spans t, hspans, fun ss h => h.eq_spans,
    hspans.text_eq, escape_of_spanned hspans⟩, fun h => ?_⟩
  have hclosed := closes_escape (Scan.Enclosure.closes_braces_iff.2 h)
  exact Scan.Enclosure.closes_braces_iff.1 hclosed

/-- An umlaut beside commands and mathematics. -/
example : escape "\\\"u \\emph\x7bö\x7d $ü$ & ü".toList =
    "\\\"u \\emph\x7b\x7b\\\"o\x7d\x7d $ü$ \\& \x7b\\\"u\x7d".toList := by
  decide +kernel

end Bibliography.Latex
