import Bibliography.Proofs.Parse.Payload

/-!
# Bibliography.Proofs.Grammar.Scanners

The scanners find the ends of the grammar's tokens.  The grammar reads a quoted
text from left to right and takes backslashes in pairs; whether a quotation mark
closes can also be told at the mark, from the braces before it and the length of
the run of backslashes that it follows.  Both agree with the scanner, which keeps
one bit of that run.

* `Scan.pass?_marks_iff` — the state of the scanner of quoted texts, from the text
  before it;
* `Scan.ends_iff` — where the scanners close, and the grammar stops.
-/

namespace Bibliography

/-- The number of backslashes at the end of a text. -/
def Text.slashesAtEnd (t : Text) : Nat := (t.reverse.takeWhile (· = '\\')).length

@[simp] theorem Text.slashesAtEnd_nil : slashesAtEnd [] = 0 := rfl

@[simp] theorem Text.slashesAtEnd_snoc (t : Text) (c : Char) :
    slashesAtEnd (t ++ [c]) = if c = '\\' then slashesAtEnd t + 1 else 0 := by
  by_cases hc : c = '\\' <;> simp [slashesAtEnd, hc]

/-- A backslash after an even run of them makes an odd one. -/
theorem Text.odd_slashesAtEnd_snoc (t : Text) (c : Char) :
    decide (slashesAtEnd (t ++ [c]) % 2 = 1) =
      (c = '\\' && !decide (slashesAtEnd t % 2 = 1)) := by
  rw [slashesAtEnd_snoc]
  by_cases hc : c = '\\'
  · simp only [hc, if_true, decide_true, Bool.true_and, ← decide_not]
    exact decide_eq_decide.2 (by omega)
  · simp [hc]

namespace Scan

/-- A quotation mark after this text would close it: no brace is open, and the backslashes in
front of the mark escape each other. -/
def AwaitsMark (t : Text) : Prop := t.IsBalanced ∧ t.slashesAtEnd % 2 = 0

instance (t : Text) : Decidable (AwaitsMark t) := inferInstanceAs (Decidable (_ ∧ _))

variable {t s i r : Text}

/-! ## quotation marks -/

/-- A character of a quoted text counts as a brace as anywhere else, and as a backslash if none
escapes it. -/
theorem after?_eq_some_iff {n m : Nat} {e e' : Bool} {c : Char} :
    Quotation.after? ⟨n, e⟩ c = some ⟨m, e'⟩ ↔
      bracket? '{' '}' n c = some m ∧ e' = (c = '\\' && !e) ∧ ¬ (c = '"' ∧ n = 0 ∧ e = false) := by
  unfold Quotation.after? bracket?
  by_cases hmark : c = '"' ∧ n = 0 ∧ e = false
  · simp [hmark]
  · rw [if_neg hmark]
    by_cases ho : c = '{'
    · simp [ho, eq_comm]
    · by_cases hc : c = '}'
      · by_cases hn : n = 0 <;> simp [hc, hn, eq_comm]
      · simp [ho, hc, hmark, eq_comm]

/-- No mark closes in a text that is one character longer, exactly if none closes before that
character, and this one does not. -/
theorem forall_marks_snoc {P : Text → Prop} {c : Char} :
    (∀ u v : Text, t ++ [c] = u ++ '"' :: v → ¬ P u) ↔
      (∀ u v : Text, t = u ++ '"' :: v → ¬ P u) ∧ (c = '"' → ¬ P t) := by
  constructor
  · intro h
    refine ⟨fun u v huv => h u (v ++ [c]) (by simp [huv]), ?_⟩
    rintro rfl
    exact h t [] rfl
  · rintro ⟨hbefore, hlast⟩ u v huv
    induction v using List.reverseRecOn with
    | nil =>
        obtain ⟨rfl, hc⟩ := List.append_inj' huv rfl
        exact hlast (List.cons.inj hc).1
    | append_singleton v d _ =>
        rw [← List.cons_append, ← List.append_assoc] at huv
        obtain ⟨rfl, -⟩ := List.append_inj' huv rfl
        exact hbefore u v rfl

/-- **The scanner of quoted texts** counts the braces, knows whether the run of backslashes before
it is odd, and stops at the first mark that closes. -/
theorem pass?_marks_iff {q : Quotation} :
    pass? Quotation.after? .bare t = some q ↔
      depth? '{' '}' 0 t = some q.depth ∧ q.escaped = decide (t.slashesAtEnd % 2 = 1) ∧
        ∀ u v : Text, t = u ++ '"' :: v → ¬ AwaitsMark u := by
  induction t using List.reverseRecOn generalizing q with
  | nil =>
      obtain ⟨n, e⟩ := q
      simp [depth?, eq_comm]
  | append_singleton t c ih =>
      obtain ⟨m, e'⟩ := q
      rw [forall_marks_snoc, pass?_append, Option.bind_eq_some_iff, depth?, pass?_append,
        Option.bind_eq_some_iff]
      constructor
      · rintro ⟨⟨n, e⟩, ht, hc⟩
        obtain ⟨hdepth, rfl, hmarks⟩ := ih.1 ht
        rw [pass?_cons, Option.bind_eq_some_iff] at hc
        obtain ⟨q, hc, hq⟩ := hc
        cases hq
        obtain ⟨hbracket, rfl, hmark⟩ := after?_eq_some_iff.1 hc
        refine ⟨⟨n, hdepth, by rw [pass?_cons, hbracket]; rfl⟩,
          (Text.odd_slashesAtEnd_snoc t c).symm, hmarks, ?_⟩
        · rintro rfl ⟨hbalanced, heven⟩
          have hn : n = 0 := Option.some.inj (hdepth.symm.trans hbalanced)
          exact hmark ⟨rfl, hn, by simp [heven]⟩
      · rintro ⟨⟨n, hdepth, hc⟩, he, hmarks, hmark⟩
        rw [pass?_cons, Option.bind_eq_some_iff] at hc
        obtain ⟨m', hbracket, hm⟩ := hc
        cases hm
        refine ⟨⟨n, decide (Text.slashesAtEnd t % 2 = 1)⟩, ih.2 ⟨hdepth, rfl, hmarks⟩, ?_⟩
        rw [pass?_cons, after?_eq_some_iff.2 ⟨hbracket, ?_, ?_⟩]
        · rfl
        · exact he.trans (Text.odd_slashesAtEnd_snoc t c)
        · rintro ⟨rfl, rfl, heven⟩
          exact hmark rfl ⟨hdepth, by simpa using heven⟩

/-- **A quotation mark closes** exactly if it is the first one that is bare: outside of braces,
after an even run of backslashes. -/
theorem quoted_eq_closed_iff_awaitsMark :
    quoted s = .closed i r ↔ s = i ++ '"' :: r ∧ AwaitsMark i ∧
      ∀ u v : Text, i = u ++ '"' :: v → ¬ AwaitsMark u := by
  rw [quoted_eq_closed_iff, pass?_marks_iff, AwaitsMark, Text.IsBalanced]
  simp [and_assoc]

/-! ## braces -/

/-- A scan for a closing bracket finds no other one. -/
theorem balancedFrom_ne_stray {o c : Char} {n : Nat} : balancedFrom o c n s ≠ .stray i r := by
  intro h
  fun_induction balancedFrom o c n s generalizing i with
  | case1 | case3 => cases h
  | case2 _ _ ih | case4 _ _ _ ih | case5 _ _ _ _ _ ih =>
      obtain ⟨j, -, hj⟩ := eq_of_cons_stray h
      exact ih hj

theorem cons_eq_open_iff (c : Char) (a : Closing) (n : Nat) :
    a.cons c = .unclosed n ↔ a = .unclosed n := by
  cases a <;> simp [Closing.cons]

/-- A payload in braces that has no end is missing its own brace besides. -/
theorem payloadFrom_of_unclosed {n m : Nat} (h : balancedFrom '{' '}' n s = .unclosed m) :
    payloadFrom .brace n s = .unclosed (m + 1) 0 := by
  induction s generalizing n with
  | nil =>
      cases h
      rfl
  | cons c s ih =>
      cases hc : bracket? '{' '}' n c with
      | none =>
          obtain ⟨rfl, rfl⟩ := (bracket?_eq_none_iff (by decide)).1 hc
          simp [balancedFrom] at h
      | some l =>
          rw [balancedFrom_cons s hc, cons_eq_open_iff] at h
          rw [payloadFrom_cons s (payload?_brace ▸ hc), cons_eq_unclosed_iff]
          exact ih h

theorem payload_eq_closed_iff_balanced :
    payload .brace s = .closed i r ↔ balanced '{' '}' s = .closed i r := by
  rw [payload_eq_closed_iff, payload?_brace, balanced_eq_closed_iff (by decide)]
  rfl

/-- **What stands in quotation marks** can stand in braces. -/
theorem isBalanced_of_quoted (h : quoted s = .closed i r) : i.IsBalanced :=
  (quoted_eq_closed_iff_awaitsMark.1 h).2.1.1

/-! ## tokens -/

/-- **The scanners end where the grammar's tokens do.**  A text in braces closes where the grammar
stops at a closing brace, and so does a payload in braces; without an end, a payload has one brace
more open than the text.  A quoted text closes where the grammar stops at a quotation mark, which
is the first mark outside of braces that an even run of backslashes precedes; and what is quoted
can be put into braces. -/
theorem ends_iff (s : Text) :
    (∀ i r : Text, balanced '{' '}' s = .closed i r ↔
      s = i ++ '}' :: r ∧ (Grammar.balancedMany s).1 = '}' :: r) ∧
    (∀ i r : Text, quoted s = .closed i r ↔
      s = i ++ '"' :: r ∧ (Grammar.quotedMany s).1 = '"' :: r) ∧
    (∀ i r : Text, quoted s = .closed i r ↔ s = i ++ '"' :: r ∧ AwaitsMark i ∧
      ∀ u v : Text, i = u ++ '"' :: v → ¬ AwaitsMark u) ∧
    (∀ i r : Text, payload .brace s = .closed i r ↔ balanced '{' '}' s = .closed i r) ∧
    ((∀ i r : Text, balanced '{' '}' s ≠ .closed i r) →
      ∃ n, balanced '{' '}' s = .unclosed n ∧ payload .brace s = .unclosed (n + 1) 0) ∧
    (∀ i r : Text, quoted s = .closed i r →
      ∀ rest : Text, balanced '{' '}' (i ++ '}' :: rest) = .closed i rest) := by
  refine ⟨fun i r => ?_, fun i r => ?_, fun i r => quoted_eq_closed_iff_awaitsMark,
    fun i r => payload_eq_closed_iff_balanced, fun hopen => ?_, fun i r h rest => ?_⟩
  · rw [balanced_eq_closed_iff (by decide), Grammar.balancedMany_eq_close_iff]
    constructor
    · rintro ⟨rfl, hi⟩
      exact ⟨rfl, i, rfl, hi⟩
    · rintro ⟨rfl, t, ht, hbalanced⟩
      obtain rfl := List.append_cancel_right ht
      exact ⟨rfl, hbalanced⟩
  · rw [quoted_eq_closed_iff, Grammar.quotedMany_eq_mark_iff]
    constructor
    · rintro ⟨rfl, hi⟩
      exact ⟨rfl, i, rfl, hi⟩
    · rintro ⟨rfl, t, ht, hpass⟩
      obtain rfl := List.append_cancel_right ht
      exact ⟨rfl, hpass⟩
  · cases hs : balanced '{' '}' s with
    | closed i r => exact absurd hs (hopen i r)
    | stray i r => exact absurd hs balancedFrom_ne_stray
    | unclosed n => exact ⟨n, rfl, payloadFrom_of_unclosed hs⟩
  · exact (balanced_eq_closed_iff (by decide)).2 ⟨rfl, isBalanced_of_quoted h⟩

/-- Of two marks after backslashes, the one after a pair of them closes. -/
example : quoted "a\\\"b\\\\\" c\"".toList = .closed "a\\\"b\\\\".toList " c\"".toList := by decide

end Scan

end Bibliography
