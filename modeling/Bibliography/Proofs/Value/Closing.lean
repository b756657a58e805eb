import Bibliography.Parse.Document
import Bibliography.Proofs.Grammar.Scanners
import Bibliography.Proofs.Parse.Sound
import Bibliography.Proofs.Render.RoundTrip
import Bibliography.Proofs.Value.Normalization

/-!
# Bibliography.Proofs.Value.Closing

Which steps leave a value that is read again.  A value is read where it is written
exactly if each of its segments is closed (`Value.isReread_iff`), and every step
but one keeps it so.  The removal of braces keeps a text in braces closed too; in
quotation marks it takes away what hid a mark inside the text, or what stood between
a backslash and the closing mark (`Normalization.Uncovers`).

* `Normalization.isReread_value_iff` — what a step leaves is closed, and is read
  again, exactly if it uncovers nothing.
-/

namespace Bibliography

/-! ## reading a value again -/

/-- A value is read where it is written, at any place and before anything that can follow it. -/
def Value.IsReread (v : Value) : Prop :=
  ∀ (c : Cursor) (d : Delimiter) (r : Text), c.after = ' ' :: (v.written ++ r) → EndsItem d r →
    ∃ p, c.value = .read v p ∧ p.after.dropWhile Text.isBlank = r.dropWhile Text.isBlank

/-- **A value is read again** exactly if it is closed. -/
theorem Value.isReread_iff {v : Value} : v.IsReread ↔ v.IsClosed := by
  constructor
  · intro h
    obtain ⟨p, hp, -⟩ := h ⟨[], ' ' :: (v.written ++ [','])⟩ .brace [','] rfl
      ⟨',', [], rfl, .inl rfl⟩
    exact Cursor.isClosed_of_value hp
  · intro h c d r hc hr
    exact Cursor.exists_value_spelled (Value.spelled_written h) hc hr

namespace Normalization

/-! ## braces that are taken away -/

/-- The text inside a pair of braces that encloses all of a text is balanced. -/
theorem isBalanced_of_enclosed? {s t : Text} (h : enclosed? s = some t) : t.IsBalanced := by
  unfold enclosed? at h
  split at h
  · next u =>
    split at h
    · next inside hscan =>
      cases h
      exact ((Scan.balanced_eq_closed_iff (by decide)).1 hscan).2
    · cases h
  · cases h

/-- Taking braces away uncovers something: the braces of a text in quotation marks hid a mark in it,
or stood between a backslash and the closing mark. -/
def Uncovers (n : Normalization) (f : Field) : Prop :=
  n = .stripEnclosingBraces ∧ ∃ s t : Text, f.value = [.quoted s] ∧ enclosed? s = some t ∧
    (t.slashesAtEnd % 2 = 1 ∨ ∃ u v : Text, t = u ++ '"' :: v ∧ Scan.AwaitsMark u)

/-- A balanced text is closed in quotation marks, unless a mark closes in it or is escaped after
it. -/
theorem isClosed_quoted_iff_of_isBalanced {t : Text} (h : t.IsBalanced) :
    (Segment.quoted t).IsClosed ↔
      ¬ (t.slashesAtEnd % 2 = 1 ∨ ∃ u v : Text, t = u ++ '"' :: v ∧ Scan.AwaitsMark u) := by
  rw [Segment.IsClosed, Scan.quoted_eq_closed_iff_awaitsMark, Scan.AwaitsMark]
  simp only [true_and, h, not_or, not_exists, not_and, Nat.mod_two_ne_one]

/-- **Removing braces** leaves a closed segment closed, unless it uncovers something. -/
theorem isClosed_stripBraces_iff {s : Segment} (h : s.IsClosed) :
    (stripBraces s).IsClosed ↔ ∀ u t : Text, s = .quoted u → enclosed? u = some t →
      (Segment.quoted t).IsClosed := by
  cases hs : enclosed? s.text with
  | none =>
      have hkept : stripBraces s = s := by rw [stripBraces, hs, Option.getD_none, s.withText_text]
      rw [hkept]
      refine iff_of_true h ?_
      rintro u t rfl ht
      rw [Segment.text, ht] at hs
      cases hs
  | some inside =>
      have hstripped : stripBraces s = s.withText inside := by
        rw [stripBraces, hs, Option.getD_some]
      rw [hstripped]
      cases s with
      | literal u =>
          -- A bare token has no brace to take away.
          have hu : u = '{' :: inside ++ ['}'] := enclosed?_eq_some hs
          have hbrace : '{' ∈ u := hu ▸ List.mem_cons_self
          exact absurd (h.2 _ hbrace) (by decide)
      | braced u =>
          refine iff_of_true (isBalanced_of_enclosed? hs) ?_
          rintro u t hu -
          cases hu
      | quoted u =>
          constructor
          · rintro hinside _ t ⟨⟩ ht
            obtain rfl : inside = t := Option.some.inj (hs.symm.trans ht)
            exact hinside
          · exact fun hkeeps => hkeeps u inside rfl hs

/-- The removal of braces, as a step. -/
theorem isClosed_strip_iff {f : Field} (h : f.value.IsClosed) :
    (value .stripEnclosingBraces f).IsClosed ↔ ¬ Uncovers .stripEnclosingBraces f := by
  rw [value, Value.mapSole]
  split
  · next s hs =>
    obtain ⟨hvalue, hdelimited⟩ := Value.sole?_eq_some_iff.1 hs
    have hclosed : s.IsClosed := h s (by rw [hvalue]; exact List.mem_cons_self)
    have hone : Value.IsClosed [stripBraces s] ↔ (stripBraces s).IsClosed := by
      simp [Value.IsClosed]
    rw [hone, isClosed_stripBraces_iff hclosed, Uncovers, hvalue]
    constructor
    · rintro hkeeps ⟨-, u, t, hu, ht, huncovers⟩
      have hclosed := hkeeps u t (List.cons.inj hu).1 ht
      exact (isClosed_quoted_iff_of_isBalanced (isBalanced_of_enclosed? ht)).1 hclosed huncovers
    · rintro hnot u t rfl ht
      refine (isClosed_quoted_iff_of_isBalanced (isBalanced_of_enclosed? ht)).2 fun huncovers => ?_
      exact hnot ⟨rfl, u, t, rfl, ht, huncovers⟩
  · next hs =>
    refine iff_of_true h ?_
    rintro ⟨-, u, t, hu, -⟩
    rw [hu] at hs
    cases hs

/-! ## steps -/

/-- **What a step leaves** of a closed value is closed again, and is read again wherever it is
written, exactly if the step uncovers nothing. -/
theorem isReread_value_iff {n : Normalization} {f : Field} (h : f.value.IsClosed) :
    ((n.value f).IsClosed ↔ ¬ Uncovers n f) ∧ ((n.value f).IsReread ↔ ¬ Uncovers n f) := by
  rw [Value.isReread_iff, and_self_iff]
  by_cases hn : n = .stripEnclosingBraces
  · subst hn
    exact isClosed_strip_iff h
  · exact iff_of_true (isClosed_value hn h) fun huncovers => hn huncovers.1

/-- Braces that are taken from around a mark in further braces uncover nothing. -/
theorem isReread_value_umlaut :
    Value.IsClosed [.quoted "\x7bM\x7b\\\"u\x7dller\x7d".toList] ∧
    Value.IsReread [.quoted "M\x7b\\\"u\x7dller".toList] := by
  have hclosed : Value.IsClosed [.quoted "\x7bM\x7b\\\"u\x7dller\x7d".toList] := by decide +kernel
  have h := isReread_value_iff (n := .stripEnclosingBraces)
    (f := ⟨"author".toList, [.quoted "\x7bM\x7b\\\"u\x7dller\x7d".toList]⟩) hclosed
  have hvalue : value .stripEnclosingBraces
      ⟨"author".toList, [.quoted "\x7bM\x7b\\\"u\x7dller\x7d".toList]⟩ =
        [.quoted "M\x7b\\\"u\x7dller".toList] := by decide +kernel
  rw [hvalue] at h
  exact ⟨hclosed, h.2.2 (h.1.1 (by decide +kernel))⟩

/-- Braces that are taken from around a mark uncover it: the value is not closed any more, and what
is written is a malformed block. -/
theorem isReread_value_uncovered :
    Value.IsClosed [.quoted "\x7ba\"b\x7d".toList] ∧
    value .stripEnclosingBraces ⟨"title".toList, [.quoted "\x7ba\"b\x7d".toList]⟩ =
      [.quoted "a\"b".toList] ∧
    ¬ Value.IsClosed [.quoted "a\"b".toList] ∧
    ((Document.parse "@misc\x7bk,\n  title = \"a\"b\"\n\x7d".toList).2.map fun w => w.code) =
      ["MALFORMED_BLOCK"] := by
  refine ⟨?_, ?_, ?_, ?_⟩ <;> decide +kernel

end Normalization

end Bibliography
