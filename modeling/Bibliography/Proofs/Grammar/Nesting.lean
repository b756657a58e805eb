import Bibliography.Grammar.Tree
import Bibliography.Proofs.Scan.Enclosure

/-!
# Bibliography.Proofs.Grammar.Nesting

The nested tokens of the grammar, and the machines of the scanners.  The grammar
goes down into a group and comes back after its closing brace; a scanner counts
braces.  They agree because a text that closes a brace splits there: what stands
before it is balanced (`exists_close`).

* `exists_balancedMany`, `balancedMany_append` — what the grammar takes is
  balanced, and it takes all of a balanced text;
* `group_eq_some_iff`, `quotedText_eq_some_iff` — a text in delimiters;
* `exists_roundMany` — what stands in parentheses is balanced in braces.
-/

namespace Bibliography

open Scan

/-! ## balanced texts -/

namespace Text.IsBalanced

variable {s t : Text}

theorem nil : IsBalanced [] := rfl

theorem append (hs : IsBalanced s) (ht : IsBalanced t) : IsBalanced (s ++ t) := by
  unfold IsBalanced depth? at *
  rw [pass?_append, hs, Option.bind_some, ht]

/-- What is balanced leaves as many braces open as there were. -/
theorem depth?_eq (h : IsBalanced t) (n : Nat) : depth? '{' '}' n t = some n := by
  obtain ⟨e, he⟩ := (Enclosure.exists_pass?_braces false).1 h
  have hn := Enclosure.pass?_deeper (l := .braces) (by simp) he n
  rw [Nat.zero_add] at hn
  exact (Enclosure.exists_pass?_braces false).2 ⟨e, hn⟩

/-- A group in braces. -/
theorem enclose (h : IsBalanced t) : IsBalanced ('{' :: t ++ ['}']) := by
  have hopen : bracket? '{' '}' 0 '{' = some 1 := rfl
  rw [IsBalanced, depth?, List.cons_append, pass?_cons, hopen, Option.bind_some, pass?_append]
  rw [show pass? (bracket? '{' '}') 1 t = some 1 from h.depth?_eq 1]
  rfl

/-- A character that is no brace. -/
theorem singleton {c : Char} (ho : c ≠ '{') (hc : c ≠ '}') : IsBalanced [c] := by
  simp [IsBalanced, depth?, bracket?, ho, hc]

end Text.IsBalanced

namespace Scan.Enclosure

/-- **Where a brace is closed**, a text splits, and what stands before the brace is balanced. -/
theorem exists_close {k : Enclosure} {n m j : Nat} {e e' : Bool} {t : Text}
    (h : pass? k.after? ⟨n + 1 + j, e⟩ t = some ⟨m, e'⟩) (hm : m ≤ n) :
    ∃ u v, t = u ++ '}' :: v ∧ depth? '{' '}' j u = some 0 ∧
      pass? k.after? ⟨n, false⟩ v = some ⟨m, e'⟩ := by
  induction t generalizing j e with
  | nil =>
      obtain ⟨hm', -⟩ := Quotation.mk.inj (Option.some.inj h)
      omega
  | cons c t ih =>
      rw [pass?_cons] at h
      obtain ⟨⟨l, e₁⟩, hc, ht⟩ := Option.bind_eq_some_iff.1 h
      have hdepth : l = Names.depthAfter (n + 1 + j) c := depth_of_after? hc
      unfold Names.depthAfter at hdepth
      by_cases ho : c = '{'
      · subst ho
        rw [if_pos rfl] at hdepth
        subst hdepth
        obtain ⟨u, v, rfl, hu, hv⟩ := ih (j := j + 1) ht
        exact ⟨'{' :: u, v, rfl, hu, hv⟩
      by_cases hb : c = '}'
      · subst hb
        cases j with
        | zero =>
            have hl : l = n := hdepth
            obtain rfl : e₁ = false := by
              simpa [after?] using (congrArg (Option.map Quotation.escaped) hc).symm
            exact ⟨[], t, rfl, rfl, hl ▸ ht⟩
        | succ j =>
            have hl : l = n + 1 + j := hdepth
            obtain ⟨u, v, rfl, hu, hv⟩ := ih (hl ▸ ht)
            exact ⟨'}' :: u, v, rfl, hu, hv⟩
      · rw [if_neg ho, if_neg hb] at hdepth
        subst hdepth
        obtain ⟨u, v, rfl, hu, hv⟩ := ih ht
        refine ⟨c :: u, v, rfl, ?_, hv⟩
        rw [depth?, pass?_cons, bracket?, if_neg ho, if_neg hb]
        exact hu

/-- Within braces, quotation marks do not count. -/
theorem pass?_inside (k : Enclosure) {n m : Nat} {e e' : Bool} {t : Text}
    (h : pass? braces.after? ⟨n, e⟩ t = some ⟨m, e'⟩) :
    pass? k.after? ⟨n + 1, e⟩ t = some ⟨m + 1, e'⟩ := by
  induction t generalizing n e with
  | nil =>
      cases h
      rfl
  | cons c t ih =>
      rw [pass?_cons] at h ⊢
      obtain ⟨⟨l, e₁⟩, hc, ht⟩ := Option.bind_eq_some_iff.1 h
      have hk : k.after? ⟨n + 1, e⟩ c = braces.after? ⟨n + 1, e⟩ c := by simp [after?]
      rw [hk, after?_deeper (l := braces) (by simp) hc 1, Option.bind_some]
      exact ih ht

end Scan.Enclosure

/-- A balanced text that begins with a brace splits where the brace is closed. -/
theorem Text.IsBalanced.exists_close {t : Text} (h : IsBalanced ('{' :: t)) :
    ∃ u v, t = u ++ '}' :: v ∧ IsBalanced u ∧ IsBalanced v := by
  obtain ⟨e, he⟩ := (Enclosure.exists_pass?_braces false).1 h
  obtain ⟨u, v, ht, hu, hv⟩ := Enclosure.exists_close (n := 0) (j := 0) (k := .braces) he
    (Nat.le_refl 0)
  exact ⟨u, v, ht, hu, (Enclosure.exists_pass?_braces false).2 ⟨e, hv⟩⟩

namespace Grammar

/-- A closing bracket comes next. -/
theorem closedBy_eq_some_iff {c closing : Char} {t : Text} {r : NoLonger t}
    {u : Shorter (c :: t)} : closedBy closing r = some u ↔ r.1 = closing :: u.1 := by
  obtain ⟨r, hr⟩ := r
  obtain ⟨u, hu⟩ := u
  unfold closedBy after
  cases r with
  | nil => simp
  | cons d r =>
      by_cases hd : d = closing
      · simp [hd, Shorter.weaken]
      · simp [hd]

/-! ## braces -/

variable {s t : Text} {c : Char}

theorem balanced_char (ho : c ≠ '{') (hc : c ≠ '}') (t : Text) :
    balanced (c :: t) = some ⟨t, Nat.lt_succ_self _⟩ := by
  rw [balanced]
  · exact ho
  · exact hc

theorem balanced_open (t : Text) : balanced ('{' :: t) = closedBy '}' (balancedMany t) := by
  rw [balanced]

theorem balancedMany_of_some {r : Shorter s} (h : balanced s = some r) :
    (balancedMany s).1 = (balancedMany r.1).1 := by
  obtain ⟨r, hr⟩ := r
  rw [balancedMany]
  simp only [h]

theorem balancedMany_of_none (h : balanced s = none) : (balancedMany s).1 = s := by
  rw [balancedMany]
  simp only [h]

/-- **What the grammar takes is balanced**, and it stops where no more can be taken. -/
theorem exists_balancedMany (s : Text) : ∃ t : Text, s = t ++ (balancedMany s).1 ∧ t.IsBalanced ∧
    balanced (balancedMany s).1 = none := by
  induction s using (measure List.length).wf.induction with
  | h s ih =>
      cases hs : balanced s with
      | none =>
          rw [balancedMany_of_none hs]
          exact ⟨[], rfl, .nil, hs⟩
      | some r =>
          -- One of them, and then the others.
          obtain ⟨u, hu, hbalanced⟩ : ∃ u : Text, s = u ++ r.1 ∧ u.IsBalanced := by
            cases s with
            | nil => simp [balanced] at hs
            | cons c t =>
                by_cases ho : c = '{'
                · subst ho
                  rw [balanced_open, closedBy_eq_some_iff] at hs
                  obtain ⟨u, hu, hbalanced, -⟩ := ih t (Nat.lt_succ_self _)
                  rw [hs] at hu
                  exact ⟨'{' :: u ++ ['}'], by simpa using hu, hbalanced.enclose⟩
                · by_cases hc : c = '}'
                  · subst hc
                    simp [balanced] at hs
                  · rw [balanced_char ho hc] at hs
                    cases hs
                    exact ⟨[c], rfl, .singleton ho hc⟩
          obtain ⟨v, hv, hbalanced', hend⟩ := ih r.1 r.2
          rw [balancedMany_of_some hs]
          exact ⟨u ++ v, by rw [List.append_assoc, ← hv, ← hu], hbalanced.append hbalanced', hend⟩

/-- What stands inside a group, and what stands after it, is shorter. -/
theorem length_lt_of_close (u v : Text) :
    u.length < ('{' :: (u ++ '}' :: v)).length ∧ v.length < ('{' :: (u ++ '}' :: v)).length := by
  simp only [List.length_cons, List.length_append]
  omega

/-- **The grammar takes all of a balanced text.** -/
theorem balancedMany_append (h : t.IsBalanced) (r : Text) :
    (balancedMany (t ++ r)).1 = (balancedMany r).1 := by
  induction t using (measure List.length).wf.induction generalizing r with
  | h t ih =>
      cases t with
      | nil => rfl
      | cons c t =>
          by_cases ho : c = '{'
          · subst ho
            obtain ⟨u, v, rfl, hu, hv⟩ := h.exists_close
            obtain ⟨hlu, hlv⟩ := length_lt_of_close u v
            have hinside : (balancedMany (u ++ ('}' :: (v ++ r)))).1 = '}' :: (v ++ r) := by
              rw [ih _ hlu hu, balancedMany_of_none (by rw [balanced])]
            have hgroup : balanced ('{' :: (u ++ ('}' :: (v ++ r)))) =
                some ⟨v ++ r, (length_lt_of_close u _).2⟩ := by
              rw [balanced_open, closedBy_eq_some_iff, hinside]
            rw [List.cons_append, List.append_assoc, List.cons_append,
              balancedMany_of_some hgroup]
            exact ih _ hlv hv r
          · have hc : c ≠ '}' := by
              rintro rfl
              simp [Text.IsBalanced, depth?, bracket?] at h
            have htail : Text.IsBalanced t := by
              simpa [Text.IsBalanced, depth?, bracket?, ho, hc] using h
            rw [List.cons_append, balancedMany_of_some (balanced_char ho hc _)]
            exact ih _ (Nat.lt_succ_self _) htail r

/-- The grammar takes a text to its end exactly if it is balanced. -/
theorem balancedMany_eq_nil_iff : (balancedMany s).1 = [] ↔ s.IsBalanced := by
  constructor
  · intro h
    obtain ⟨t, ht, hbalanced, -⟩ := exists_balancedMany s
    rw [h, List.append_nil] at ht
    exact ht ▸ hbalanced
  · intro h
    have happend := balancedMany_append h []
    rw [List.append_nil] at happend
    rw [happend, balancedMany_of_none (by rw [balanced])]

/-- **The grammar stops in front of a closing brace** exactly after a balanced text. -/
theorem balancedMany_eq_close_iff {r : Text} :
    (balancedMany s).1 = '}' :: r ↔ ∃ t : Text, s = t ++ '}' :: r ∧ t.IsBalanced := by
  constructor
  · intro h
    obtain ⟨t, ht, hbalanced, -⟩ := exists_balancedMany s
    exact ⟨t, by rw [← h, ← ht], hbalanced⟩
  · rintro ⟨t, rfl, ht⟩
    rw [balancedMany_append ht, balancedMany_of_none (by rw [balanced])]

/-- **A group in braces** is a balanced text between two. -/
theorem group_eq_some_iff {r : Shorter s} :
    group s = some r ↔ ∃ t : Text, s = '{' :: t ++ '}' :: r.1 ∧ t.IsBalanced := by
  cases s with
  | nil => simp [group]
  | cons c s =>
      by_cases ho : c = '{'
      · subst ho
        rw [group, closedBy_eq_some_iff, balancedMany_eq_close_iff]
        simp
      · have hnone : group (c :: s) = none := by
          rw [group]
          exact fun t h => ho (List.cons.inj h).1
        simp [hnone, ho]

/-! ## parentheses -/

theorem round_open (t : Text) : round ('(' :: t) = closedBy ')' (roundMany t) := by
  rw [round]

theorem roundMany_of_some {r : Shorter s} (h : round s = some r) :
    (roundMany s).1 = (roundMany r.1).1 := by
  obtain ⟨r, hr⟩ := r
  rw [roundMany]
  simp only [h]

theorem roundMany_of_none (h : round s = none) : (roundMany s).1 = s := by
  rw [roundMany]
  simp only [h]

/-- **What stands in parentheses is balanced in braces.** -/
theorem exists_roundMany (s : Text) : ∃ t : Text, s = t ++ (roundMany s).1 ∧ t.IsBalanced := by
  induction s using (measure List.length).wf.induction with
  | h s ih =>
      cases hs : round s with
      | none => exact ⟨[], by rw [roundMany_of_none hs]; rfl, .nil⟩
      | some r =>
          obtain ⟨u, hu, hbalanced⟩ : ∃ u : Text, s = u ++ r.1 ∧ u.IsBalanced := by
            rw [round.eq_def] at hs
            split at hs
            · cases hs
            · next t =>
              rw [closedBy_eq_some_iff] at hs
              obtain ⟨u, hu, hbalanced⟩ := ih t (Nat.lt_succ_self _)
              rw [hs] at hu
              have hopen : Text.IsBalanced ['('] := by decide
              have hclose : Text.IsBalanced [')'] := by decide
              exact ⟨['('] ++ u ++ [')'], by simpa using hu, (hopen.append hbalanced).append hclose⟩
            · obtain ⟨t, ht, hbalanced⟩ := group_eq_some_iff.1 hs
              exact ⟨'{' :: t ++ ['}'], by simpa using ht, hbalanced.enclose⟩
            · cases hs
            · cases hs
            · next c t _ ho hc _ =>
              cases hs
              exact ⟨[c], rfl, .singleton ho hc⟩
          obtain ⟨v, hv, hbalanced'⟩ := ih r.1 r.2
          rw [roundMany_of_some hs]
          exact ⟨u ++ v, by rw [List.append_assoc, ← hv, ← hu], hbalanced.append hbalanced'⟩

/-! ## quotation marks -/

theorem quotedChar_group (t : Text) : quotedChar ('{' :: t) = group ('{' :: t) := by
  rw [quotedChar]

theorem quotedChar_mark (t : Text) : quotedChar ('"' :: t) = none := by
  rw [quotedChar]

/-- A character that is no brace and no mark, and does not escape what follows. -/
theorem quotedChar_char (ho : c ≠ '{') (hc : c ≠ '}') (hquote : c ≠ '"') {t : Text}
    (ht : c = '\\' → ∀ x ∈ t.head?, x ≠ '\\' ∧ x ≠ '"') :
    quotedChar (c :: t) = some ⟨t, Nat.lt_succ_self _⟩ := by
  rw [quotedChar]
  · rintro u hslash rfl
    exact (ht hslash _ rfl).1 rfl
  · rintro u hslash rfl
    exact (ht hslash _ rfl).2 rfl
  · exact ho
  · exact hc
  · exact hquote

theorem after?_char (ho : c ≠ '{') (hc : c ≠ '}') (hquote : c ≠ '"') (q : Quotation) :
    q.after? c = some ⟨q.depth, c = '\\' && !q.escaped⟩ := by
  rw [Quotation.after?, if_neg fun h => hquote h.1, if_neg ho, if_neg hc]

theorem quotedMany_of_some {r : Shorter s} (h : quotedChar s = some r) :
    (quotedMany s).1 = (quotedMany r.1).1 := by
  obtain ⟨r, hr⟩ := r
  rw [quotedMany]
  simp only [h]

theorem quotedMany_of_none (h : quotedChar s = none) : (quotedMany s).1 = s := by
  rw [quotedMany]
  simp only [h]

/-- A backslash that the grammar has taken alone escapes nothing. -/
def Unescaping (escaped : Bool) (s : Text) : Prop :=
  escaped = true → ∀ c ∈ s.head?, c ≠ '\\' ∧ c ≠ '"'

/-- A text in braces leaves the state of a quoted text bare. -/
theorem pass?_group (e : Bool) (h : t.IsBalanced) :
    pass? Quotation.after? ⟨0, e⟩ ('{' :: t ++ ['}']) = some .bare := by
  obtain ⟨e', he⟩ := (Enclosure.exists_pass?_braces false).1 h
  have hopen : Quotation.after? ⟨0, e⟩ '{' = some ⟨1, false⟩ := by simp [Quotation.after?]
  have hclose : Quotation.after? ⟨1, e'⟩ '}' = some .bare := by simp [Quotation.after?]
  have hinside := Enclosure.pass?_inside .marks he
  rw [Enclosure.after?_marks] at hinside
  rw [List.cons_append, pass?_cons, hopen, Option.bind_some, pass?_append, hinside,
    Option.bind_some, pass?_cons, hclose]
  rfl

/-- One character of the grammar, in the machine of the scanner. -/
theorem exists_quotedChar {r : Shorter s} {e : Bool} (he : Unescaping e s)
    (h : quotedChar s = some r) : ∃ (t : Text) (e' : Bool), s = t ++ r.1 ∧
      pass? Quotation.after? ⟨0, e⟩ t = some ⟨0, e'⟩ ∧ Unescaping e' r.1 := by
  rw [quotedChar.eq_def] at h
  split at h
  · cases h
  · next t =>
    cases h
    obtain rfl : e = false := Bool.eq_false_iff.2 fun htrue => (he htrue _ rfl).1 rfl
    exact ⟨['\\', '\\'], false, rfl, rfl, fun h => by cases h⟩
  · next t =>
    cases h
    obtain rfl : e = false := Bool.eq_false_iff.2 fun htrue => (he htrue _ rfl).1 rfl
    exact ⟨['\\', '"'], false, rfl, rfl, fun h => by cases h⟩
  · next t =>
    obtain ⟨u, hu, hbalanced⟩ := group_eq_some_iff.1 h
    exact ⟨'{' :: u ++ ['}'], false, by simpa using hu, pass?_group e hbalanced,
      fun h => by cases h⟩
  · cases h
  · cases h
  · next c t hslash hmark ho hc hquote =>
    cases h
    refine ⟨[c], c = '\\' && !e, rfl, by rw [pass?_cons, after?_char ho hc hquote]; rfl, ?_⟩
    intro hescaped x hx
    obtain ⟨rfl, -⟩ : c = '\\' ∧ e = false := by simpa using hescaped
    obtain ⟨u, rfl⟩ := List.head?_eq_some_iff.1 hx
    exact ⟨by rintro rfl; exact hslash u rfl rfl, by rintro rfl; exact hmark u rfl rfl⟩

/-- **What the grammar takes of a quoted text** is passed by the scanner. -/
theorem exists_quotedMany {e : Bool} (he : Unescaping e s) :
    ∃ (t : Text) (e' : Bool), s = t ++ (quotedMany s).1 ∧
      pass? Quotation.after? ⟨0, e⟩ t = some ⟨0, e'⟩ ∧ Unescaping e' (quotedMany s).1 := by
  induction s using (measure List.length).wf.induction generalizing e with
  | h s ih =>
      cases hs : quotedChar s with
      | none =>
          rw [quotedMany_of_none hs]
          exact ⟨[], e, rfl, rfl, he⟩
      | some r =>
          obtain ⟨t, e₁, ht, hpass, he₁⟩ := exists_quotedChar he hs
          obtain ⟨u, e₂, hu, hpass', he₂⟩ := ih r.1 r.2 he₁
          rw [quotedMany_of_some hs]
          refine ⟨t ++ u, e₂, by rw [List.append_assoc, ← hu, ← ht], ?_, he₂⟩
          rw [pass?_append, hpass, Option.bind_some, hpass']

/-- **The grammar takes all of a text that the scanner passes**, up to the mark. -/
theorem quotedMany_append {e : Bool} {r : Text} (he : Unescaping e (t ++ '"' :: r))
    (h : pass? Quotation.after? ⟨0, e⟩ t = some .bare) :
    (quotedMany (t ++ '"' :: r)).1 = '"' :: r := by
  induction t using (measure List.length).wf.induction generalizing e with
  | h t ih =>
      cases t with
      | nil => exact quotedMany_of_none (quotedChar_mark r)
      | cons c t =>
          have hquote : c ≠ '"' := by
            rintro rfl
            cases e with
            | false => simp [Quotation.after?] at h
            | true => exact (he rfl _ rfl).2 rfl
          have hc : c ≠ '}' := by
            rintro rfl
            simp [Quotation.after?] at h
          by_cases ho : c = '{'
          · subst ho
            have hopen : Quotation.after? ⟨0, e⟩ '{' = some ⟨1, false⟩ := by
              simp [Quotation.after?]
            rw [pass?_cons, hopen, Option.bind_some, ← Enclosure.after?_marks] at h
            obtain ⟨u, v, rfl, hu, hv⟩ :=
              Enclosure.exists_close (n := 0) (j := 0) h (Nat.le_refl 0)
            have hgroup : quotedChar ('{' :: (u ++ '}' :: (v ++ '"' :: r))) =
                some ⟨v ++ '"' :: r, (length_lt_of_close u _).2⟩ := by
              rw [quotedChar_group, group_eq_some_iff]
              exact ⟨u, rfl, hu⟩
            rw [List.cons_append, List.append_assoc, List.cons_append, quotedMany_of_some hgroup]
            rw [Enclosure.after?_marks] at hv
            exact ih v (length_lt_of_close u v).2 (fun h => by cases h) hv
          rw [pass?_cons, after?_char ho hc hquote, Option.bind_some] at h
          by_cases hslash : c = '\\'
          · subst hslash
            -- What comes before it does not escape it.
            obtain rfl : e = false := Bool.eq_false_iff.2 fun htrue => (he htrue _ rfl).1 rfl
            cases t with
            | nil => cases h
            | cons d t =>
                by_cases hd : d = '\\' ∨ d = '"'
                · have hpair : quotedChar ('\\' :: d :: (t ++ '"' :: r)) =
                      some ⟨t ++ '"' :: r, Nat.lt_succ_of_lt (Nat.lt_succ_self _)⟩ := by
                    obtain rfl | rfl := hd <;> rw [quotedChar]
                  have htail : pass? Quotation.after? ⟨0, false⟩ t = some .bare := by
                    obtain rfl | rfl := hd <;> exact h
                  rw [List.cons_append, List.cons_append, quotedMany_of_some hpair]
                  exact ih t (Nat.lt_succ_of_lt (Nat.lt_succ_self _)) (fun h => by cases h) htail
                · have hd : ∀ x ∈ ((d :: t) ++ '"' :: r).head?, x ≠ '\\' ∧ x ≠ '"' := by
                    intro x hx
                    obtain rfl : d = x := Option.some.inj hx
                    exact not_or.1 hd
                  rw [List.cons_append,
                    quotedMany_of_some (quotedChar_char ho hc hquote fun _ => hd)]
                  exact ih (d :: t) (Nat.lt_succ_self _) (fun _ => hd) h
          · rw [List.cons_append,
              quotedMany_of_some (quotedChar_char ho hc hquote fun h => absurd h hslash)]
            have h : pass? Quotation.after? ⟨0, false⟩ t = some .bare := by simpa [hslash] using h
            exact ih t (Nat.lt_succ_self _) (fun h => by cases h) h

/-- **The grammar stops in front of a quotation mark** exactly after a text that the scanner
passes. -/
theorem quotedMany_eq_mark_iff {r : Text} : (quotedMany s).1 = '"' :: r ↔
    ∃ t : Text, s = t ++ '"' :: r ∧ pass? Quotation.after? .bare t = some .bare := by
  constructor
  · intro h
    obtain ⟨t, e, ht, hpass, he⟩ := exists_quotedMany (s := s) (e := false) (fun h => by cases h)
    rw [h] at ht he
    obtain rfl : e = false := Bool.eq_false_iff.2 fun htrue => (he htrue _ rfl).2 rfl
    exact ⟨t, ht, hpass⟩
  · rintro ⟨t, rfl, ht⟩
    exact quotedMany_append (fun h => by cases h) ht

/-- **A text in quotation marks** is one that the scanner passes. -/
theorem quotedText_eq_some_iff {r : Shorter s} : quotedText s = some r ↔
    ∃ t : Text, s = '"' :: t ++ '"' :: r.1 ∧ pass? Quotation.after? .bare t = some .bare := by
  cases s with
  | nil => simp [quotedText]
  | cons c s =>
      by_cases hquote : c = '"'
      · subst hquote
        rw [quotedText, closedBy_eq_some_iff, quotedMany_eq_mark_iff]
        simp
      · have hnone : quotedText (c :: s) = none := by
          rw [quotedText]
          exact fun t h => hquote (List.cons.inj h).1
        simp [hnone, hquote]

end Grammar

end Bibliography
