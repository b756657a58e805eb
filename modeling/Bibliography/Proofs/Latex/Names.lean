import Bibliography.Proofs.Latex.Escape
import Bibliography.Proofs.Names

/-!
# Bibliography.Proofs.Latex.Names

LaTeX sequences in author lists.  An ` and ` and the white space around a name end
a command, and open and close nothing, so that a name begins in plain text or in
mathematics (`Mode.IsBetween`), whichever names stand in front of it: what has
nothing to replace in a list has nothing to replace in the names that are left of
it (`isClear_truncateAuthors`).
-/

namespace Bibliography

/-! ## between names -/

namespace Latex.Mode

/-- The mode after an ` and `, or any other white space. -/
def rest (m : Mode) : Mode := if m = math then math else plain

variable {m : Mode} {s t : Text}

theorem run_append (m : Mode) (s t : Text) : m.run (s ++ t) = (m.run s).run t := List.foldl_append

/-- Where a name begins there is plain text or mathematics. -/
def IsBetween (m : Mode) : Prop := m = plain ∨ m = math

theorem isBetween_rest (m : Mode) : m.rest.IsBetween := by
  unfold rest
  split
  · exact .inr rfl
  · exact .inl rfl

theorem IsBetween.rest_eq (h : m.IsBetween) : m.rest = m := by
  obtain rfl | rfl := h <;> rfl

/-- White space is part of no command, and neither opens nor closes anything. -/
theorem ne_of_isWhiteSpace {b : Char} (hb : Unicode.isWhiteSpace b = true) :
    (b ≠ '\\' ∧ b ≠ '$') ∧ b.isAlpha = false := by
  refine ⟨⟨?_, ?_⟩, ?_⟩
  · rintro rfl
    exact absurd hb (by decide)
  · rintro rfl
    exact absurd hb (by decide)
  · cases halpha : b.isAlpha with
    | false => rfl
    | true =>
        have hletter := (Unicode.isWhiteSpace_cases hb).1
        rw [Unicode.isAlphabetic, if_pos (Unicode.lt_of_isAlpha halpha), halpha] at hletter
        cases hletter

/-- Between names other characters do not matter. -/
theorem IsBetween.run_eq (h : m.IsBetween) (hs : ∀ c ∈ s, c ≠ '\\' ∧ c ≠ '$') : m.run s = m := by
  induction s with
  | nil => rfl
  | cons c s ih =>
      obtain ⟨⟨hslash, hdollar⟩, hs⟩ := List.forall_mem_cons.1 hs
      have hafter : m.after c = m := by
        obtain rfl | rfl := h <;> simp [after, enter, hslash, hdollar]
      rw [run, List.foldl_cons, hafter]
      exact ih hs

/-- White space, and what follows it without backslashes and dollar signs, ends a command. -/
theorem run_eq_rest {b : Char} (hb : Unicode.isWhiteSpace b = true)
    (hs : ∀ c ∈ s, c ≠ '\\' ∧ c ≠ '$') : m.run (b :: s) = m.rest := by
  have hafter : m.after b = m.rest := by
    obtain ⟨⟨hslash, hdollar⟩, halpha⟩ := ne_of_isWhiteSpace hb
    cases m <;> simp [after, enter, rest, hslash, hdollar, halpha]
  rw [run, List.foldl_cons, hafter]
  exact (isBetween_rest m).run_eq hs

end Latex.Mode

/-! ## names -/

namespace Names

open Latex

variable {m : Mode} {b : Char} {s t w r : Text} {ns : List Text}

/-- Nothing of the names of a list is replaced by LaTeX sequences. -/
def AreClear (m : Mode) : List Text → Prop
  | [] => True
  | w :: ns => isClear m w = true ∧ AreClear (m.run w).rest ns

theorem AreClear.take (h : AreClear m ns) (l : Nat) : AreClear m (ns.take l) := by
  induction ns generalizing m l with
  | nil => simpa using h
  | cons w ns ih =>
      cases l with
      | zero => trivial
      | succ l => exact ⟨h.1, ih h.2 l⟩

/-- The placeholder does not matter for what follows it. -/
theorem rest_run_of_isOthers (hm : m.IsBetween) (h : isOthers w = true) : (m.run w).rest = m := by
  have hlower : w.strip.map Char.toLower = others := of_decide_eq_true h
  obtain ⟨u, v, hw, hu, hv⟩ := Text.exists_trim Unicode.isWhiteSpace w
  have hblank {s : Text} (hs : ∀ c ∈ s, Unicode.isWhiteSpace c = true) :
      ∀ c ∈ s, c ≠ '\\' ∧ c ≠ '$' := fun c hc => (Mode.ne_of_isWhiteSpace (hs c hc)).1
  have hname : ∀ c ∈ w.strip, c ≠ '\\' ∧ c ≠ '$' := by
    intro c hc
    have hmem : c.toLower ∈ others := hlower ▸ List.mem_map_of_mem hc
    constructor <;> rintro rfl <;> exact absurd hmem (by decide)
  rw [hw, hm.run_eq, hm.rest_eq]
  simp only [List.mem_append]
  rintro c ((hc | hc) | hc)
  · exact hblank hu c hc
  · exact hname c hc
  · exact hblank hv c hc

theorem AreClear.filter_others (hm : m.IsBetween) (h : AreClear m ns) :
    AreClear m (ns.filter (!isOthers ·)) := by
  induction ns generalizing m with
  | nil => exact h
  | cons w ns ih =>
      obtain ⟨hw, hns⟩ := h
      have hrest := ih (Mode.isBetween_rest (m.run w)) hns
      cases hothers : isOthers w with
      | true =>
          rw [List.filter_cons_of_neg (by simp [hothers])]
          rwa [rest_run_of_isOthers hm hothers] at hrest
      | false =>
          rw [List.filter_cons_of_pos (by simp [hothers])]
          exact ⟨hw, hrest⟩

theorem isClear_and : ∀ m : Mode, isClear m " and ".toList = true := by
  intro m
  cases m <;> decide +kernel

theorem isClear_others : ∀ m : Mode, isClear m others = true := by
  intro m
  cases m <;> decide +kernel

/-- Names with nothing to replace are joined without it. -/
theorem AreClear.isClear_join (h : AreClear m ns) : isClear m (join (ns ++ [others])) = true := by
  induction ns generalizing m with
  | nil => exact isClear_others m
  | cons w ns ih =>
      have hand : (m.run w).run " and ".toList = (m.run w).rest :=
        Mode.run_eq_rest (by decide) (by decide)
      rw [join_cons_others, isClear_append, isClear_append, h.1, isClear_and, hand, ih h.2]
      rfl

/-- After an ` and ` a name begins in plain text or mathematics. -/
theorem isClear_drop_of_startsAnd (hand : startsAnd (b :: r) = true)
    (h : isClear m (b :: r) = true) : isClear m.rest (r.drop 4) = true := by
  obtain ⟨b, a, n, x, e, r, heq, hb, hletters⟩ := startsAnd_iff.1 hand
  cases heq
  simp only [isAnd, Bool.and_eq_true, decide_eq_true_eq] at hletters
  obtain ⟨⟨⟨ha, hn⟩, hx⟩, he⟩ := hletters
  have hother {c d : Char} (hc : c.toLower = d) (hd : d ∈ ['a', 'n', 'd']) : c ≠ '\\' ∧ c ≠ '$' := by
    constructor <;> rintro rfl <;> subst hc <;> revert hd <;> decide
  have hrun : m.run [b, a, n, x, e] = m.rest := by
    refine Mode.run_eq_rest (Unicode.isWhiteSpace_of_isBlank hb) ?_
    simp only [List.mem_cons, List.not_mem_nil, or_false, forall_eq_or_imp, forall_eq]
    exact ⟨hother ha (by decide), hother hn (by decide), hother hx (by decide),
      (Mode.ne_of_isWhiteSpace (Unicode.isWhiteSpace_of_isBlank he)).1⟩
  have happ : isClear m ([b, a, n, x, e] ++ r) = true := h
  rw [isClear_append, Bool.and_eq_true, hrun] at happ
  exact happ.2

/-- The one name of a list has nothing to replace if the list has not. -/
theorem areClear_strip (hm : m.IsBetween) (h : isClear m w = true) :
    AreClear m ([w.strip].filter (· ≠ [])) ∧ (m.run w).rest = (m.run w.strip).rest := by
  obtain ⟨u, v, hw, hu, hv⟩ := Text.exists_trim Unicode.isWhiteSpace w
  have hbefore : m.run u = m := hm.run_eq fun c hc => (Mode.ne_of_isWhiteSpace (hu c hc)).1
  have hafter : (m.run w).rest = (m.run w.strip).rest := by
    have hrun : m.run w = (m.run w.strip).run v := by
      calc
        m.run w = m.run (u ++ w.strip ++ v) := congrArg m.run hw
        _ = (m.run w.strip).run v := by rw [Mode.run_append, Mode.run_append, hbefore]
    rw [hrun]
    cases v with
    | nil => rfl
    | cons c v =>
        obtain ⟨hc, hv⟩ := List.forall_mem_cons.1 hv
        rw [Mode.run_eq_rest hc fun x hx => (Mode.ne_of_isWhiteSpace (hv x hx)).1,
          (Mode.isBetween_rest _).rest_eq]
  refine ⟨?_, hafter⟩
  rw [hw, isClear_append, isClear_append, hbefore, Bool.and_eq_true, Bool.and_eq_true] at h
  by_cases hne : w.strip = []
  · simp [hne, AreClear]
  · rw [List.filter_cons_of_pos (by simpa using hne)]
    exact ⟨h.1.2, trivial⟩

/-- **The names of a list** have nothing to replace if the list has not. -/
theorem areClear_split (hm : m.IsBetween) (h : isClear m t = true) : AreClear m (split t) := by
  induction t using pieces_induction generalizing m with
  | one t hone =>
      rw [split_of_one hone]
      exact (areClear_strip hm h).1
  | cut w b r hand hw hdepth ih =>
      rw [isClear_append, Bool.and_eq_true] at h
      obtain ⟨hname, hrun⟩ := areClear_strip hm h.1
      have hrest := ih (Mode.isBetween_rest (m.run w)) (isClear_drop_of_startsAnd hand h.2)
      rw [split_of_cut hand hw hdepth]
      by_cases hne : w.strip = []
      · have hstart : (m.run w).rest = m := by
          rw [hrun, hne]
          exact hm.rest_eq
        simpa [hne, hstart] using hrest
      · rw [List.filter_cons_of_pos (by simpa using hne)] at hname ⊢
        exact ⟨hname.1, hrun ▸ hrest⟩

end Names

namespace Normalization

/-- **What is left of a list** has nothing to escape if the list has not. -/
theorem isClear_truncateAuthors {l : Nat} {t : Text} (h : Latex.isClear .plain t = true) :
    Latex.isClear .plain (truncateAuthors l t) = true := by
  have hplain : Latex.Mode.plain.IsBetween := .inl rfl
  obtain hsame | hcut := truncateAuthors_eq l t
  · rwa [hsame]
  · rw [hcut]
    exact (((Names.areClear_split hplain h).take l).filter_others hplain).isClear_join

end Normalization

end Bibliography
