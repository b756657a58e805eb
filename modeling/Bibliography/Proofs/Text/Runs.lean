import Bibliography.Text

/-!
# Bibliography.Proofs.Text.Runs

Runs of characters of a class at the front of a text.  A run goes on into what
is appended unless that *stops* the class, that is, unless it is empty or begins
with a character outside of the class.  Everything that reads a text to the end
of a run is compared on two texts through these lemmas.
-/

namespace Bibliography.Text

/-- No character of a class comes first. -/
def Stops (p : Char → Bool) (r : Text) : Prop := ∀ x ∈ r.head?, p x = false

/-- One or more characters of a class. -/
def IsRun (p : Char → Bool) (s : Text) : Prop := s ≠ [] ∧ ∀ x ∈ s, p x = true

instance (p : Char → Bool) (s : Text) : Decidable (IsRun p s) :=
  decidable_of_iff (s ≠ [] ∧ s.all p = true) (by rw [List.all_eq_true]; rfl)

section

variable {p : Char → Bool} {s r : Text} {x : Char}

@[simp] theorem stops_nil : Stops p [] := by simp [Stops]

@[simp] theorem stops_cons : Stops p (x :: r) ↔ p x = false := by simp [Stops]

theorem Stops.append (h : Stops p s) (hne : s ≠ []) (r : Text) : Stops p (s ++ r) := by
  cases s with
  | nil => contradiction
  | cons c s => exact stops_cons.2 (stops_cons.1 h)

theorem Stops.of_append (h : Stops p (s ++ r)) : Stops p s := by
  cases s with
  | nil => exact stops_nil
  | cons c s => exact stops_cons.2 (stops_cons.1 h)

/-- What follows a run stops its class. -/
theorem stops_dropWhile (p : Char → Bool) (s : Text) : Stops p (s.dropWhile p) := by
  induction s with
  | nil => exact stops_nil
  | cons c s ih =>
      by_cases hc : p c = true
      · rw [List.dropWhile_cons_of_pos hc]
        exact ih
      · rw [List.dropWhile_cons_of_neg hc, stops_cons]
        simpa using hc

theorem Stops.dropWhile_eq (h : Stops p r) : r.dropWhile p = r := by
  cases r with
  | nil => rfl
  | cons c r => rw [List.dropWhile_cons_of_neg (by simp [stops_cons.1 h])]

theorem Stops.takeWhile_eq (h : Stops p r) : r.takeWhile p = [] := by
  cases r with
  | nil => rfl
  | cons c r => rw [List.takeWhile_cons_of_neg (by simp [stops_cons.1 h])]

theorem takeWhile_eq_nil_iff : s.takeWhile p = [] ↔ Stops p s := by
  refine ⟨fun h => ?_, fun h => h.takeWhile_eq⟩
  cases s with
  | nil => exact stops_nil
  | cons c s =>
      by_cases hc : p c = true
      · simp [hc] at h
      · simpa using hc

/-- A run does not go on into a text that stops it. -/
theorem Stops.dropWhile_append (h : Stops p r) (s : Text) :
    (s ++ r).dropWhile p = s.dropWhile p ++ r := by
  rw [List.dropWhile_append]
  split
  · next hs =>
    rw [h.dropWhile_eq, List.isEmpty_iff.1 hs, List.nil_append]
  · rfl

theorem Stops.takeWhile_append (h : Stops p r) (s : Text) :
    (s ++ r).takeWhile p = s.takeWhile p := by
  have happ : (s ++ r).takeWhile p ++ (s ++ r).dropWhile p =
      s.takeWhile p ++ (s ++ r).dropWhile p := by
    rw [List.takeWhile_append_dropWhile, h.dropWhile_append, ← List.append_assoc,
      List.takeWhile_append_dropWhile]
  exact List.append_cancel_right happ

/-- A text of characters of the class is the run, if what follows stops it. -/
theorem takeWhile_append_of_run (hs : ∀ x ∈ s, p x = true) (h : Stops p r) :
    (s ++ r).takeWhile p = s := by
  rw [List.takeWhile_append_of_pos hs, h.takeWhile_eq, List.append_nil]

theorem dropWhile_append_of_run (hs : ∀ x ∈ s, p x = true) (h : Stops p r) :
    (s ++ r).dropWhile p = r := by
  rw [List.dropWhile_append_of_pos hs, h.dropWhile_eq]

/-- What is gone when a run is dropped is of the class. -/
theorem forall_of_dropWhile_append (h : (s ++ r).dropWhile p = r.dropWhile p) :
    ∀ x ∈ s, p x = true := by
  induction s with
  | nil => exact List.forall_mem_nil _
  | cons x s ih =>
      by_cases hx : p x = true
      · rw [List.cons_append, List.dropWhile_cons_of_pos hx] at h
        exact List.forall_mem_cons.2 ⟨hx, ih h⟩
      · rw [List.cons_append, List.dropWhile_cons_of_neg hx] at h
        have hle := (List.dropWhile_suffix (l := r) p).length_le
        simp only [← h, List.length_cons, List.length_append] at hle
        omega

/-- The run at the front of a text is of the class. -/
theorem mem_takeWhile (h : x ∈ s.takeWhile p) : p x = true :=
  (List.all_eq_true.1 List.all_takeWhile) x h

/-- What is read as a run is one, unless it is empty. -/
theorem isRun_takeWhile (h : s.takeWhile p ≠ []) : IsRun p (s.takeWhile p) :=
  ⟨h, fun _ => mem_takeWhile⟩

/-- A run stops the classes that have nothing of it. -/
theorem IsRun.stops {q : Char → Bool} (h : IsRun p s) (hq : ∀ x, p x = true → q x = false)
    (r : Text) : Stops q (s ++ r) := by
  obtain ⟨hne, hs⟩ := h
  cases s with
  | nil => contradiction
  | cons c s =>
      rw [List.cons_append, stops_cons]
      exact hq c (hs c List.mem_cons_self)

theorem isBlank_spaces {n : Nat} (h : x ∈ spaces n) : isBlank x = true := by
  obtain rfl := List.eq_of_mem_replicate h
  rfl

/-! ## texts up to a character -/

theorem ne_of_not_mem {c : Char} (h : c ∉ s) : ∀ x ∈ s, decide (x ≠ c) = true :=
  fun _ hx => decide_eq_true fun heq => h (heq ▸ hx)

/-- A text is cut at the first place of a character. -/
theorem cut_at_first {c : Char} (h : c ∉ s) (t : Text) :
    (s ++ c :: t).takeWhile (· ≠ c) = s ∧ (s ++ c :: t).dropWhile (· ≠ c) = c :: t := by
  have hstop : Stops (fun x => decide (x ≠ c)) (c :: t) := stops_cons.2 (by simp)
  exact ⟨takeWhile_append_of_run (ne_of_not_mem h) hstop,
    dropWhile_append_of_run (ne_of_not_mem h) hstop⟩

/-- A text without a character is not cut. -/
theorem not_cut {c : Char} (h : c ∉ s) :
    s.takeWhile (· ≠ c) = s ∧ s.dropWhile (· ≠ c) = [] := by
  have htake := takeWhile_append_of_run (ne_of_not_mem h) stops_nil
  have hdrop := dropWhile_append_of_run (ne_of_not_mem h) stops_nil
  rw [List.append_nil] at htake hdrop
  exact ⟨htake, hdrop⟩

/-- What stands before a character that comes first is one text. -/
theorem eq_of_append_cons {c : Char} {u u' v v' : Text} (hu : c ∉ u) (hu' : c ∉ u')
    (h : u ++ c :: v = u' ++ c :: v') : u = u' ∧ v = v' := by
  obtain rfl : u = u' := by
    rw [← (cut_at_first hu v).1, h, (cut_at_first hu' v').1]
  exact ⟨rfl, (List.cons.inj (List.append_cancel_left h)).2⟩

/-- What stands after a character lies in what stands after its first place. -/
theorem mem_of_append_cons {c : Char} {u u' v v' : Text} (hu : c ∉ u)
    (h : u ++ c :: v = u' ++ c :: v') (hx : x ∈ v') : x ∈ v := by
  obtain ⟨w, rfl, hw⟩ | ⟨w, rfl, hw⟩ := List.append_eq_append_iff.1 h
  · cases w with
    | nil => exact (List.cons.inj hw).2 ▸ hx
    | cons y w => exact (List.cons.inj hw).2 ▸ List.mem_append_right w (List.mem_cons_of_mem c hx)
  · cases w with
    | nil => exact (List.cons.inj hw).2 ▸ hx
    | cons y w => exact absurd ((List.cons.inj hw).1 ▸ by simp) hu

/-! ## trimming -/

/-- What is trimmed away does not matter. -/
theorem trimEnd_append {w : Text} (hw : ∀ x ∈ w, p x = true) (s : Text) :
    trimEnd p (s ++ w) = trimEnd p s := by
  unfold trimEnd
  rw [List.reverse_append,
    List.dropWhile_append_of_pos fun x hx => hw x (List.mem_reverse.1 hx)]

theorem trimEnd_eq_self (h : Stops p s.reverse) : trimEnd p s = s := by
  unfold trimEnd
  rw [h.dropWhile_eq, List.reverse_reverse]

/-- What does not end with a character of the class is not trimmed from before a text. -/
theorem trimEnd_append_of_stops {w : Text} (hw : Stops p w.reverse) (s : Text) :
    trimEnd p (w ++ s) = w ++ trimEnd p s := by
  unfold trimEnd
  rw [List.reverse_append, hw.dropWhile_append, List.reverse_append, List.reverse_reverse]

/-- What is not of the class is not trimmed, nor what stands before it. -/
theorem trimEnd_cons (hx : p x = false) (s : Text) : trimEnd p (x :: s) = x :: trimEnd p s :=
  trimEnd_append_of_stops (w := [x]) (stops_cons.2 hx) s

/-- A character of the class is trimmed just if all that follows it is. -/
theorem trimEnd_cons_of_pos (hx : p x = true) (s : Text) :
    trimEnd p (x :: s) = if trimEnd p s = [] then [] else x :: trimEnd p s := by
  unfold trimEnd
  rw [List.reverse_cons, List.dropWhile_append]
  cases h : s.reverse.dropWhile p <;> simp [hx]

theorem stops_reverse_trimEnd (p : Char → Bool) (s : Text) : Stops p (trimEnd p s).reverse := by
  unfold trimEnd
  rw [List.reverse_reverse]
  exact stops_dropWhile p s.reverse

/-- Only characters of the class are trimmed from the end. -/
theorem exists_trimEnd (p : Char → Bool) (s : Text) :
    ∃ w, s = trimEnd p s ++ w ∧ ∀ x ∈ w, p x = true := by
  refine ⟨(s.reverse.takeWhile p).reverse, ?_, fun x hx => mem_takeWhile (List.mem_reverse.1 hx)⟩
  rw [trimEnd, ← List.reverse_append, List.takeWhile_append_dropWhile, List.reverse_reverse]

/-- Only characters of the class are trimmed. -/
theorem exists_trim (p : Char → Bool) (s : Text) :
    ∃ u w, s = u ++ trim p s ++ w ∧ (∀ x ∈ u, p x = true) ∧ ∀ x ∈ w, p x = true := by
  obtain ⟨w, hw, hp⟩ := exists_trimEnd p (trimStart p s)
  refine ⟨s.takeWhile p, w, ?_, fun x => mem_takeWhile, hp⟩
  rw [List.append_assoc, trim, ← hw, trimStart, List.takeWhile_append_dropWhile]

/-- Trimming brings no character into a text. -/
theorem mem_of_mem_trim (h : x ∈ trim p s) : x ∈ s := by
  obtain ⟨u, w, hs, -, -⟩ := exists_trim p s
  rw [hs]
  exact List.mem_append_left _ (List.mem_append_right _ h)

theorem stops_trim (p : Char → Bool) (s : Text) : Stops p (trim p s) := by
  have hs : Stops p (trimStart p s) := stops_dropWhile p s
  obtain ⟨w, hw, -⟩ := exists_trimEnd p (trimStart p s)
  rw [hw] at hs
  exact hs.of_append

/-- What cannot be trimmed is found between characters of the class. -/
theorem trim_append {u w : Text} (hu : ∀ x ∈ u, p x = true) (hw : ∀ x ∈ w, p x = true)
    (hne : s ≠ []) (hs : Stops p s) (hs' : Stops p s.reverse) : trim p (u ++ s ++ w) = s := by
  rw [trim, trimStart, List.append_assoc, dropWhile_append_of_run hu (hs.append hne w),
    trimEnd_append hw, trimEnd_eq_self hs']

@[simp] theorem trim_trim (p : Char → Bool) (s : Text) : trim p (trim p s) = trim p s := by
  rw [trim, trimStart, (stops_trim p s).dropWhile_eq]
  exact trimEnd_eq_self (stops_reverse_trimEnd p _)

theorem length_trim_le (p : Char → Bool) (s : Text) : (trim p s).length ≤ s.length := by
  obtain ⟨u, w, hs, -, -⟩ := exists_trim p s
  have hlength := congrArg List.length hs
  rw [List.length_append, List.length_append] at hlength
  omega

/-- Trimming takes nothing from a part that cannot be trimmed. -/
theorem infix_trim {t : Text} (h : t <:+: s) (hne : t ≠ []) (hstart : Stops p t)
    (hend : Stops p t.reverse) : t <:+: trim p s := by
  obtain ⟨u, w, rfl⟩ := h
  have hfront : trimStart p (u ++ t ++ w) = u.dropWhile p ++ t ++ w := by
    rw [trimStart, List.append_assoc, (hstart.append hne w).dropWhile_append, List.append_assoc]
  have hback : Stops p (u.dropWhile p ++ t).reverse := by
    rw [List.reverse_append]
    exact hend.append (by simpa using hne) _
  exact ⟨u.dropWhile p, trimEnd p w, by rw [trim, hfront, trimEnd_append_of_stops hback]⟩

end

end Bibliography.Text
