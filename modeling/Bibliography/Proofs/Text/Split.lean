import Mathlib.Data.List.TakeWhile
import Bibliography.Text

/-!
# Bibliography.Proofs.Text.Split

Splitting texts, and the runs between the characters at which a text is split.  A text
is split at such a character whatever stands before and after it
(`runs_append_cons`); a run without one goes on into what follows it
(`exists_runs_append`).
-/

namespace Bibliography.Text

variable {p : Char → Bool} {c : Char} {s t w : Text}

theorem splitWhere_eq_splitOnP (p : Char → Bool) (s : Text) : splitWhere p s = s.splitOnP p := by
  induction s with
  | nil => rfl
  | cons c s ih =>
      rw [splitWhere, List.splitOnP_cons_eq_if_modifyHead, ← ih]
      split
      · rfl
      · cases h : splitWhere p s with
        | nil => exact absurd h (splitWhere_ne_nil p s)
        | cons w ws => rfl

/-- The pieces of a split have none of the characters at which it cuts. -/
theorem eq_false_of_mem_splitWhere (h : w ∈ splitWhere p s) : ∀ c ∈ w, p c = false := by
  induction s generalizing w with
  | nil =>
      obtain rfl := List.mem_singleton.1 h
      exact List.forall_mem_nil _
  | cons c s ih =>
      rw [splitWhere] at h
      split at h
      · obtain rfl | h := List.mem_cons.1 h
        · exact List.forall_mem_nil _
        · exact ih h
      · next hc =>
        cases hs : splitWhere p s with
        | nil => exact absurd hs (splitWhere_ne_nil p s)
        | cons v vs =>
            simp only [hs] at h ih
            obtain rfl | h := List.mem_cons.1 h
            · exact List.forall_mem_cons.2 ⟨by simpa using hc, ih List.mem_cons_self⟩
            · exact ih (List.mem_cons_of_mem v h)

/-- The pieces of a split are all of the text but the characters at which it cuts. -/
theorem flatten_splitWhere (p : Char → Bool) (s : Text) :
    (splitWhere p s).flatten = s.filter (!p ·) := by
  induction s with
  | nil => rfl
  | cons c s ih =>
      rw [splitWhere]
      split
      · next hc => simpa [hc] using ih
      · next hc =>
        cases hs : splitWhere p s with
        | nil => exact absurd hs (splitWhere_ne_nil p s)
        | cons w ws =>
            rw [hs, List.flatten_cons] at ih
            simp [hc, ← ih]

/-- What stands in front of a text without a cut is in front of its first piece. -/
theorem exists_splitWhere_append (hw : ∀ c ∈ w, p c = false) (t : Text) :
    ∃ v vs, splitWhere p t = v :: vs ∧ splitWhere p (w ++ t) = (w ++ v) :: vs := by
  obtain ⟨v, vs, ht⟩ := List.exists_cons_of_ne_nil (splitWhere_ne_nil p t)
  refine ⟨v, vs, ht, ?_⟩
  induction w with
  | nil => exact ht
  | cons c w ih =>
      obtain ⟨hc, hw⟩ := List.forall_mem_cons.1 hw
      rw [List.cons_append, splitWhere, if_neg (by simp [hc]), ih hw]
      rfl

/-- The first piece of a split is what stands before the first cut. -/
theorem head?_splitWhere (p : Char → Bool) (s : Text) :
    (splitWhere p s).head? = some (s.takeWhile (!p ·)) := by
  have hrun : ∀ x ∈ s.takeWhile (!p ·), p x = false := fun x hx => by
    simpa using List.mem_takeWhile_imp hx
  obtain ⟨v, vs, hrest, hs⟩ := exists_splitWhere_append hrun (s.dropWhile (!p ·))
  rw [List.takeWhile_append_dropWhile] at hs
  have hv : v = [] := by
    have hstop := List.head?_dropWhile_not (!p ·) s
    cases hdrop : s.dropWhile (!p ·) with
    | nil => rw [hdrop] at hrest; exact (List.cons.inj hrest).1.symm
    | cons c r =>
        rw [hdrop] at hrest hstop
        rw [splitWhere, if_pos (by simpa using hstop)] at hrest
        exact (List.cons.inj hrest).1.symm
  rw [hs, hv, List.append_nil, List.head?_cons]

theorem lines_append_newline (s t : Text) : lines (s ++ '\n' :: t) = lines s ++ lines t := by
  unfold lines
  simp only [splitWhere_eq_splitOnP]
  exact List.splitOnP_append_cons s t (decide_eq_true rfl)

theorem length_le_of_mem_lines (h : w ∈ lines t) : w.length ≤ t.length := by
  have hflatten := (List.sublist_flatten_of_mem h).length_le
  unfold lines at hflatten
  rw [flatten_splitWhere] at hflatten
  exact Nat.le_trans hflatten (List.length_filter_le _ _)

theorem flatten_filter_ne_nil (ws : List Text) : (ws.filter (· ≠ [])).flatten = ws.flatten := by
  induction ws with
  | nil => rfl
  | cons w ws ih =>
      by_cases hw : w = []
      · simpa [hw] using ih
      · simp [hw, ← ih]

/-- **Runs** are all of the text but the characters at which it is split. -/
theorem flatten_runs (p : Char → Bool) (s : Text) : (runs p s).flatten = s.filter (!p ·) :=
  (flatten_filter_ne_nil _).trans (flatten_splitWhere p s)

/-- **A text is split** at a character whatever stands before and after it. -/
theorem runs_append_cons (hc : p c = true) (s t : Text) :
    runs p (s ++ c :: t) = runs p s ++ runs p t := by
  unfold runs
  rw [splitWhere_eq_splitOnP, List.splitOnP_append_cons s t hc, List.filter_append,
    ← splitWhere_eq_splitOnP, ← splitWhere_eq_splitOnP]

theorem runs_cons (hc : p c = true) (t : Text) : runs p (c :: t) = runs p t :=
  runs_append_cons hc [] t

/-- A text that is not split is one run. -/
theorem runs_eq_singleton (hne : w ≠ []) (hw : ∀ c ∈ w, p c = false) : runs p w = [w] := by
  unfold runs
  rw [splitWhere_eq_splitOnP, List.splitOnP_eq_singleton fun c hc => by simp [hw c hc]]
  simp [hne]

theorem mem_joinWith {x : Char} {sep : Text} {ws : List Text}
    (h : x ∈ joinWith sep ws) : x ∈ sep ∨ ∃ w ∈ ws, x ∈ w := by
  induction ws with
  | nil => cases h
  | cons w ws ih =>
      cases ws with
      | nil => exact .inr ⟨w, List.mem_cons_self, h⟩
      | cons v ws =>
          rw [joinWith, List.append_assoc, List.mem_append, List.mem_append] at h
          obtain h | h | h := h
          · exact .inr ⟨w, List.mem_cons_self, h⟩
          · exact .inl h
          · obtain hsep | ⟨u, hu, hx⟩ := ih h
            · exact .inl hsep
            · exact .inr ⟨u, List.mem_cons_of_mem w hu, hx⟩

/-- **Joined words** are the runs between what joins them. -/
theorem runs_joinWith {ws : List Text} (h : ∀ w ∈ ws, w ≠ [] ∧ c ∉ w) :
    runs (· = c) (joinWith [c] ws) = ws := by
  induction ws with
  | nil => rfl
  | cons w ws ih =>
      obtain ⟨⟨hne, hw⟩, hws⟩ := List.forall_mem_cons.1 h
      have hrun : runs (· = c) w = [w] :=
        runs_eq_singleton hne fun x hx => decide_eq_false fun heq => hw (heq ▸ hx)
      cases ws with
      | nil => exact hrun
      | cons v ws =>
          rw [joinWith, List.append_assoc, List.singleton_append,
            runs_append_cons (decide_eq_true rfl), hrun, ih hws, List.singleton_append]

/-- **A run goes on** into what follows it, up to where the text is split. -/
theorem exists_runs_append (hne : w ≠ []) (hw : ∀ c ∈ w, p c = false) (s : Text) :
    ∃ u v, runs p (w ++ s) = (w ++ u) :: runs p v := by
  induction s generalizing w with
  | nil =>
      refine ⟨[], [], ?_⟩
      rw [List.append_nil, runs_eq_singleton hne hw]
      rfl
  | cons c s ih =>
      cases hc : p c with
      | true =>
          refine ⟨[], s, ?_⟩
          rw [runs_append_cons hc, runs_eq_singleton hne hw, List.append_nil]
          rfl
      | false =>
          have hwc : ∀ x ∈ w ++ [c], p x = false := by
            simpa [or_imp, forall_and] using And.intro hw hc
          obtain ⟨u, v, huv⟩ := ih (by simp) hwc
          exact ⟨c :: u, v, by simpa using huv⟩

end Bibliography.Text
