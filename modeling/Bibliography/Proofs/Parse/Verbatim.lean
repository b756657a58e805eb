import Bibliography.Proofs.Parse.BlockEnd
import Bibliography.Proofs.Parse.Gap
import Bibliography.Proofs.Parse.Opening

/-!
# Bibliography.Proofs.Parse.Verbatim

Blocks that could not be understood.  Such a block is kept verbatim, up to a
closing bracket after its failure, or to the end of its line.  If its stem, the
text without the blanks at its end, is read again, it fails at the same place
and ends at the same place: with its closing bracket, whatever follows, or after
the blanks that stand there now, if the text or its line ends after them.

* `Cursor.verbatimEnd_of_closes`, `Cursor.verbatimEnd_of_line` — the end of a
  block that failed in the stem;
* `Cursor.entryBlock_kept` — an entry that failed fails again;
* `Block.read?_kept` — a block that was kept verbatim is kept again.
-/

namespace Bibliography

/-! ## lines -/

/-- What ends a text or its line, after blanks. -/
structure EndsLine (w rest : Text) : Prop where
  blank : ∀ x ∈ w, Text.isBlank x = true
  rest : rest = [] ∨ rest.head? = some '@' ∧ w.reverse.head? = some '\n'

namespace Scan

/-- A line ends with the text, or with its last character in front of a block. -/
theorem ended_untilLineBlock (s : Text) :
    s.drop (untilLineBlock s).length = [] ∨
      (s.drop (untilLineBlock s).length).head? = some '@' ∧
        (untilLineBlock s).reverse.head? = some '\n' := by
  induction s with
  | nil => exact .inl rfl
  | cons c s ih =>
      rw [untilLineBlock_cons]
      split
      · next h => exact .inr ⟨h.2, by simp [h.1]⟩
      · refine ih.imp id fun ⟨hat, hline⟩ => ⟨hat, ?_⟩
        rw [List.reverse_cons, List.head?_append, hline]
        rfl

theorem untilLineBlock_cons_eq_self_iff {c : Char} {s : Text} :
    untilLineBlock (c :: s) = c :: s ↔
      ¬ (c = '\n' ∧ s.head? = some '@') ∧ untilLineBlock s = s := by
  rw [untilLineBlock_cons]
  by_cases h : c = '\n' ∧ s.head? = some '@'
  · rw [if_pos h]
    cases s <;> simp_all
  · simp [h]

/-- What has no `@` goes on with the line. -/
theorem untilLineBlock_append {s w : Text} (hs : untilLineBlock s = s) (hw : '@' ∉ w) :
    untilLineBlock (s ++ w) = s ++ w := by
  have hhead : w.head? ≠ some '@' := fun h => hw (List.mem_of_mem_head? h)
  induction s with
  | nil =>
      clear hhead
      induction w with
      | nil => rfl
      | cons x w ih =>
          have hw' : '@' ∉ w := fun h => hw (List.mem_cons_of_mem x h)
          refine untilLineBlock_cons_eq_self_iff.2 ⟨fun h => hw' ?_, ih hw'⟩
          exact List.mem_of_mem_head? h.2
  | cons c s ih =>
      obtain ⟨hc, hs⟩ := untilLineBlock_cons_eq_self_iff.1 hs
      refine untilLineBlock_cons_eq_self_iff.2 ⟨?_, ih hs⟩
      cases s with
      | nil => simp [hhead]
      | cons x s => simpa using hc

/-- A block at the start of a line ends the line. -/
theorem untilLineBlock_append_of_line {s rest : Text} (hs : untilLineBlock s = s)
    (hrest : rest = [] ∨ rest.head? = some '@' ∧ s.reverse.head? = some '\n') :
    untilLineBlock (s ++ rest) = s := by
  obtain rfl | ⟨hat, hline⟩ := hrest
  · rwa [List.append_nil]
  induction s with
  | nil => cases hline
  | cons c s ih =>
      obtain ⟨hc, hs⟩ := untilLineBlock_cons_eq_self_iff.1 hs
      rw [List.cons_append, untilLineBlock_cons]
      cases s with
      | nil => simp_all
      | cons x s =>
          rw [if_neg (by simpa using hc), ih hs (by simpa using hline)]

end Scan

namespace Cursor

variable {c p : Cursor} {w : Text} {d : Delimiter}

theorem lineLength_eq_zero_iff : c.lineLength = 0 ↔ c.Ended := by
  unfold lineLength Ended
  split
  · next hline => simp [hline]
  · next hline =>
    rw [List.length_eq_zero_iff, or_iff_left hline]
    refine ⟨fun h => ?_, fun h => by rw [h]; rfl⟩
    exact Decidable.of_not_not fun hne => Scan.untilLineBlock_ne_nil hne h

/-- A block that failed at the end ends there. -/
theorem verbatimEnd_of_ended (h : c.Leads p) (hp : p.Ended) : c.verbatimEnd d p = p := by
  obtain ⟨a, hafter, hbefore⟩ := h
  have hlength : verbatimLength d a.length a.length c.after = a.length := by
    unfold verbatimLength
    split
    · next t r hb =>
      rw [if_neg]
      have hle := congrArg List.length (Scan.eq_of_balanced_closed hb)
      rw [List.length_take] at hle
      simp only [List.length_append, List.length_cons] at hle
      omega
    · rfl
  rw [verbatimEnd_eq d hafter hbefore, lineLength_eq_zero_iff.2 hp, Nat.add_zero, hlength]
  dsimp only
  rw [hafter, List.take_left, List.drop_left, past, ← hbefore]

/-- A text or its line ends after the stem and a gap. -/
theorem ended_endsLine (hp : p.after = []) {rest : Text} (hw : EndsLine w rest) :
    (p.extend (w ++ rest)).skipBlank = p.past w rest ∧ (p.past w rest).Ended := by
  have hstops : Text.Stops Text.isBlank rest :=
    Follows.stops (hw.rest.imp_right And.left) rfl
  refine ⟨skipBlank_of_after (by rw [after_extend, hp, List.nil_append]) hw.blank hstops, ?_⟩
  refine hw.rest.imp id fun ⟨hrest, hline⟩ => atLineBlock_iff.2 ⟨?_, hrest⟩
  rw [before_past, List.head?_append, hline]
  rfl

/-- A body that is balanced up to a bracket is so whatever follows. -/
theorem balanced_append {s t r u v : Text} (hs : s = t ++ d.closing :: r)
    (h : Scan.balanced d.opening d.closing u = .closed t v) (z : Text) :
    Scan.balanced d.opening d.closing (s ++ z) = .closed t (r ++ z) := by
  have hne : d.opening ≠ d.closing := by cases d <;> decide
  exact (Scan.balanced_eq_closed_iff hne).2
    ⟨by simp [hs], ((Scan.balanced_eq_closed_iff hne).1 h).2⟩

/-- A body is closed after its failure and before the end of its line. -/
def ClosesAt (d : Delimiter) (failed limit : Nat) (s t : Text) : Prop :=
  failed ≤ t.length ∧ ∃ r, Scan.balanced d.opening d.closing (s.take limit) = .closed t r

theorem ClosesAt.length_eq {failed limit : Nat} {s t : Text} (h : ClosesAt d failed limit s t) :
    verbatimLength d failed limit s = t.length + 1 := by
  obtain ⟨hle, r, hb⟩ := h
  unfold verbatimLength
  rw [hb]
  dsimp only
  rw [if_pos hle]

theorem verbatimLength_of_not_closesAt {failed limit : Nat} {s : Text}
    (h : ∀ t, ¬ ClosesAt d failed limit s t) : verbatimLength d failed limit s = limit := by
  unfold verbatimLength
  split
  · next t r hb =>
    rw [if_neg]
    exact fun hle => h t ⟨hle, r, hb⟩
  · rfl

/-- The text up to a closing bracket. -/
theorem ClosesAt.take_eq {failed limit : Nat} {s t : Text} (h : ClosesAt d failed limit s t) :
    t.length < limit ∧ s.take (t.length + 1) = t ++ [d.closing] := by
  obtain ⟨-, r, hb⟩ := h
  have heq := Scan.eq_of_balanced_closed hb
  have hle := congrArg List.length heq
  rw [List.length_take] at hle
  simp only [List.length_append, List.length_cons] at hle
  have hlt : t.length < limit := by omega
  refine ⟨hlt, ?_⟩
  have htake := congrArg (List.take (t.length + 1)) heq
  rw [List.take_take, Nat.min_eq_left hlt, List.take_length_add_append] at htake
  simpa using htake

/-- Blanks have no closing bracket. -/
theorem exists_of_append_blank {s v t r : Text} (hv : ∀ x ∈ v, Text.isBlank x = true)
    (h : s ++ v = t ++ d.closing :: r) : ∃ u, s = t ++ d.closing :: u := by
  have hclosing : d.closing ∉ v := fun hmem => by simpa [d.isBlank_closing] using hv _ hmem
  obtain ⟨u, -, hu⟩ | ⟨u, hs, hu⟩ := List.append_eq_append_iff.1 h
  · exact absurd (hu ▸ List.mem_append_right u List.mem_cons_self) hclosing
  · cases u with
    | nil =>
        have hv' : d.closing :: r = v := hu
        exact absurd (hv' ▸ List.mem_cons_self) hclosing
    | cons x u =>
        obtain ⟨rfl, -⟩ := List.cons.inj hu
        exact ⟨u, hs⟩

/-- Whether a body is closed does not depend on the gap after it. -/
theorem ClosesAt.gap {failed : Nat} {s t v r : Text} (hv : ∀ x ∈ v, Text.isBlank x = true)
    (h : ClosesAt d failed (s.length + v.length) (s ++ (v ++ r)) t) (w rest : Text) :
    ClosesAt d failed (s.length + w.length) (s ++ (w ++ rest)) t := by
  have htake (w rest : Text) : (s ++ (w ++ rest)).take (s.length + w.length) = s ++ w := by
    rw [← List.append_assoc, List.take_left' List.length_append]
  obtain ⟨hle, u, hb⟩ := h
  rw [htake] at hb
  obtain ⟨u', hu'⟩ := exists_of_append_blank hv (Scan.eq_of_balanced_closed hb)
  refine ⟨hle, u' ++ w, ?_⟩
  rw [htake]
  exact balanced_append hu' hb w

/-- A line that goes on after the stem ends with any gap. -/
theorem lineLength_gap {rest : Text} (hp : p.after ≠ [])
    (h : (p.extend (w ++ rest)).lineLength = p.after.length + w.length) :
    (p.atEnd.past w rest).Ended ∧ ∀ v r, EndsLine v r →
      (p.extend (v ++ r)).lineLength = p.after.length + v.length := by
  have hpos : 0 < p.after.length := List.length_pos_iff.2 hp
  have hmin (z : Text) : p.lineLength = min p.after.length (p.extend z).lineLength :=
    lineLength_extend z p
  have hstem : p.lineLength = p.after.length := by
    rw [hmin (w ++ rest), h]
    omega
  have hself : Scan.untilLineBlock p.after = p.after := by
    refine (Scan.untilLineBlock_prefix p.after).eq_of_length ?_
    unfold lineLength at hstem
    split at hstem <;> omega
  have hline (z : Text) :
      (p.extend z).lineLength = (Scan.untilLineBlock (p.after ++ z)).length := by
    refine if_neg fun hat => ?_
    have hzero : (p.extend z).lineLength = 0 := if_pos hat
    have hz := hmin z
    omega
  refine ⟨?_, fun v r hv => ?_⟩
  · have hrest := Scan.ended_untilLineBlock (p.after ++ (w ++ rest))
    have htake : Scan.untilLineBlock (p.after ++ (w ++ rest)) = p.after ++ w := by
      rw [List.prefix_iff_eq_take.1 (Scan.untilLineBlock_prefix _), ← hline, h,
        ← List.append_assoc, ← List.length_append, List.take_left]
    rw [htake, ← List.append_assoc, List.drop_left] at hrest
    refine hrest.imp id fun ⟨hat, hnewline⟩ => atLineBlock_iff.2 ⟨?_, hat⟩
    rw [List.reverse_append] at hnewline
    rw [before_past, atEnd, before_past, ← List.append_assoc, List.head?_append, hnewline]
    rfl
  · have hat : '@' ∉ v := fun hmem => absurd (hv.blank _ hmem) (by decide)
    have hvr : Scan.untilLineBlock (p.after ++ (v ++ r)) = p.after ++ v := by
      rw [← List.append_assoc]
      refine Scan.untilLineBlock_append_of_line (Scan.untilLineBlock_append hself hat)
        (hv.rest.imp_right fun h => ⟨h.1, ?_⟩)
      rw [List.reverse_append, List.head?_append, h.2]
      rfl
    rw [hline, hvr, List.length_append]

/-- The end of a block that failed in the stem, counted in characters. -/
theorem verbatimEnd_extend_eq {a : Text} (hafter : c.after = a ++ p.after)
    (hbefore : p.before = a.reverse ++ c.before) (z : Text) :
    (c.extend z).verbatimEnd d (p.extend z) =
      let m := verbatimLength d a.length (a.length + (p.extend z).lineLength) (c.after ++ z)
      (c.extend z).past ((c.after ++ z).take m) ((c.after ++ z).drop m) :=
  verbatimEnd_eq d (by rw [after_extend, after_extend, hafter, List.append_assoc]) hbefore

/-- A block that ends after its closing bracket, and after nothing but blanks, ends with the
bracket, whatever follows. -/
theorem verbatimEnd_of_closes {a t rest : Text} (hafter : c.after = a ++ p.after)
    (hbefore : p.before = a.reverse ++ c.before) (hw : ∀ x ∈ w, Text.isBlank x = true)
    (ht : ClosesAt d a.length (a.length + (p.extend (w ++ rest)).lineLength)
      (c.after ++ (w ++ rest)) t)
    (hend : ((c.extend (w ++ rest)).verbatimEnd d (p.extend (w ++ rest))).after = rest) :
    w = [] ∧ ∀ z, (c.extend z).verbatimEnd d (p.extend z) = c.atEnd.extend z := by
  rw [verbatimEnd_extend_eq hafter hbefore] at hend
  dsimp only at hend
  rw [after_past, ht.length_eq] at hend
  obtain ⟨hlt, htake⟩ := ht.take_eq
  obtain ⟨hle, u, hb⟩ := ht
  have hm : t.length + 1 = c.after.length + w.length := by
    have hdrop := congrArg List.length hend
    have htake' := congrArg List.length htake
    simp only [List.length_drop, List.length_take, List.length_append, List.length_cons,
      List.length_nil] at hdrop htake'
    omega
  have hstem : c.after ++ w = t ++ d.closing :: [] := by
    rw [hm, ← List.append_assoc, ← List.length_append, List.take_left] at htake
    exact htake
  -- The bracket is of the stem, so there are no blanks after it.
  obtain ⟨v, hv⟩ := exists_of_append_blank hw hstem
  have hlength := congrArg List.length hv
  simp only [List.length_append, List.length_cons] at hlength
  obtain rfl : w = [] := List.length_eq_zero_iff.1 (by omega)
  obtain rfl : v = [] := List.length_eq_zero_iff.1 (by simp only [List.length_nil] at hm; omega)
  refine ⟨rfl, fun z => ?_⟩
  have hlimit : c.after.length ≤ a.length + (p.extend z).lineLength := by
    have hz := lineLength_extend z p
    have hrest := lineLength_extend ([] ++ rest) p
    have hlength := congrArg List.length hafter
    simp only [List.length_append, List.length_nil] at hlength hm
    omega
  have htake' : (c.after ++ z).take (a.length + (p.extend z).lineLength) =
      c.after ++ z.take (a.length + (p.extend z).lineLength - c.after.length) := by
    rw [List.take_append, List.take_of_length_le hlimit]
  have hcloses : ClosesAt d a.length (a.length + (p.extend z).lineLength) (c.after ++ z) t :=
    ⟨hle, _, by rw [htake']; exact balanced_append hv hb _⟩
  have hm' : t.length + 1 = c.after.length := hm
  rw [verbatimEnd_extend_eq hafter hbefore, hcloses.length_eq, hm']
  dsimp only
  rw [List.take_left, List.drop_left]
  rfl

/-- A block that ends with its line ends with the line, whatever the gap is in front of the end. -/
theorem verbatimEnd_of_line {a rest : Text} (hp : p.after ≠ []) (hafter : c.after = a ++ p.after)
    (hbefore : p.before = a.reverse ++ c.before)
    (hopen : ∀ t, ¬ ClosesAt d a.length (a.length + (p.extend (w ++ rest)).lineLength)
      (c.after ++ (w ++ rest)) t)
    (hend : ((c.extend (w ++ rest)).verbatimEnd d (p.extend (w ++ rest))).after = rest) :
    (c.atEnd.past w rest).Ended ∧ ∀ v r, EndsLine v r →
      (c.extend (v ++ r)).verbatimEnd d (p.extend (v ++ r)) = c.atEnd.past v r := by
  rw [verbatimEnd_extend_eq hafter hbefore] at hend
  dsimp only at hend
  rw [after_past, verbatimLength_of_not_closesAt hopen] at hend
  have hlength : c.after.length = a.length + p.after.length := by rw [hafter, List.length_append]
  have hafter' : (c.extend (w ++ rest)).after = a ++ (p.extend (w ++ rest)).after := by
    rw [after_extend, after_extend, hafter, List.append_assoc]
  have hlimit : a.length + (p.extend (w ++ rest)).lineLength ≤ (c.after ++ (w ++ rest)).length :=
    (lineEnd_eq hafter' hbefore).1
  have hline : (p.extend (w ++ rest)).lineLength = p.after.length + w.length := by
    have hdrop := congrArg List.length hend
    simp only [List.length_drop, List.length_append] at hdrop hlimit
    omega
  obtain ⟨hended, hgap⟩ := lineLength_gap hp hline
  rw [hline, ← Nat.add_assoc, ← hlength] at hopen
  have hatEnd : p.atEnd = c.atEnd := by simp [atEnd, past, hafter, hbefore]
  refine ⟨hatEnd ▸ hended, fun v r hv => ?_⟩
  have hopen' : ∀ t, ¬ ClosesAt d a.length (c.after.length + v.length) (c.after ++ (v ++ r)) t :=
    fun t ht => hopen t (ht.gap hv.blank w rest)
  rw [verbatimEnd_extend_eq hafter hbefore, hgap v r hv, ← Nat.add_assoc, ← hlength,
    verbatimLength_of_not_closesAt hopen']
  dsimp only
  rw [← List.append_assoc, ← List.length_append, List.take_left, List.drop_left]
  simp [past, atEnd, extend]

/-- A place that is neither of the stem nor before a blank stands after the gap. -/
theorem eq_past_of_not_stem {place : Cursor} {rest : Text}
    (hlead : (c.extend (w ++ rest)).Leads place) (hw : ∀ x ∈ w, Text.isBlank x = true)
    (hplace : ∀ p : Cursor, p.after ≠ [] → place ≠ p.extend (w ++ rest))
    (hstops : Text.Stops Text.isBlank place.after) (hle : rest.length ≤ place.after.length) :
    place = c.atEnd.past w rest := by
  obtain ⟨a, hafter, hbefore⟩ := hlead
  rw [after_extend] at hafter
  obtain ⟨u, rfl, hu⟩ : ∃ u, a = c.after ++ u ∧ w ++ rest = u ++ place.after := by
    obtain ⟨u, ha, hu⟩ | ⟨u, hc, hu⟩ := List.append_eq_append_iff.1 hafter
    · exact ⟨u, ha, hu⟩
    · by_cases hnil : u = []
      · subst hnil
        exact ⟨[], by simpa using hc.symm, hu.symm⟩
      · refine absurd ?_ (hplace ⟨place.before, u⟩ hnil)
        cases place
        simpa [extend] using hu
  -- The place stands in the gap or at its end, and blanks of the gap do not follow it.
  obtain ⟨u', rfl, hu'⟩ : ∃ u', w = u ++ u' ∧ place.after = u' ++ rest :=
    exists_append_of_length_le hu (by
      have hlength := congrArg List.length hu
      simp only [List.length_append] at hlength
      omega)
  cases u' with
  | cons x u' =>
      have hx : Text.isBlank x = true := hw x (by simp)
      rw [hu', List.cons_append, Text.stops_cons] at hstops
      simp [hx] at hstops
  | nil =>
      have hrest : place.after = rest := hu'
      cases place
      simp_all [past, atEnd]

/-- A block does not end before its failure. -/
theorem length_verbatimEnd_le (d : Delimiter) {place : Cursor} (hlead : c.Leads place) :
    (c.verbatimEnd d place).after.length ≤ place.after.length := by
  obtain ⟨a, hafter, hbefore⟩ := hlead
  have hle := le_verbatimLength d (Nat.le_add_right a.length place.lineLength) c.after
  have hlength := congrArg List.length hafter
  rw [List.length_append] at hlength
  rw [verbatimEnd_eq d hafter hbefore]
  dsimp only
  rw [after_past, List.length_drop]
  omega

/-- A block that ends where it failed ended there because the text or its line does. -/
theorem ended_of_verbatimEnd {place : Cursor} (hlead : c.Leads place)
    (hend : (c.verbatimEnd d place).after = place.after) : place.Ended := by
  obtain ⟨a, hafter, hbefore⟩ := hlead
  rw [verbatimEnd_eq d hafter hbefore] at hend
  dsimp only at hend
  have hdrop := congrArg List.length hend
  rw [after_past, List.length_drop, hafter, List.length_append] at hdrop
  refine lineLength_eq_zero_iff.1 (Nat.eq_zero_of_not_pos fun hpos => ?_)
  have hlt := lt_verbatimLength d (Nat.lt_add_of_pos_right (n := a.length) hpos) c.after
  have hline := lineLength_extend [] place
  rw [extend_nil] at hline
  rw [hafter] at hlt
  omega

/-! ## blocks -/

/-- An entry that failed, and ends where `c` stands. -/
def verbatimBlock (command : Text) (d : Delimiter) (reason : Malformation) (c : Cursor) :
    BlockRead :=
  c.blockRead command d (.verbatim c.before.reverse) [.malformed command reason]

theorem entryBlock_malformed {command : Text} {reason : Malformation} {place : Cursor}
    (h : c.entry d.closing = .malformed reason place) :
    c.entryBlock command d = (c.verbatimEnd d place).verbatimBlock command d reason := by
  rw [entryBlock, h]
  rfl

/-- Only an entry that failed is kept verbatim. -/
theorem exists_malformed {command t : Text}
    (h : (c.blockBody command d).block.body = .verbatim t) :
    BlockKind.ofCommand command = .entry ∧
      ∃ reason place, c.entry d.closing = .malformed reason place := by
  cases hkind : BlockKind.ofCommand command with
  | entry =>
      rw [blockBody_of_entry hkind, entryBlock] at h
      split at h
      · cases h
      · cases h
      · exact ⟨rfl, _, _, ‹_›⟩
  | comment | preamble | stringDef =>
      rw [blockBody_of_ne_entry hkind (by decide), payloadBlock] at h
      split at h <;> cases h

/-- An entry that failed in the stem fails there again. -/
theorem entryBlock_kept_of_stem (command : Text) {rest : Text} {reason : Malformation}
    (hp : p.after ≠ [])
    (he : (c.extend (w ++ rest)).entry d.closing = .malformed reason (p.extend (w ++ rest)))
    (hw : ∀ x ∈ w, Text.isBlank x = true)
    (hend : ((c.extend (w ++ rest)).verbatimEnd d (p.extend (w ++ rest))).after = rest) :
    (w = [] ∧ ∀ z, (c.extend z).entryBlock command d =
      (c.atEnd.extend z).verbatimBlock command d reason) ∨
    ((c.atEnd.past w rest).Ended ∧ ∀ v r, EndsLine v r →
      (c.extend (v ++ r)).entryBlock command d =
        (c.atEnd.past v r).verbatimBlock command d reason) := by
  have he' (z : Text) : (c.extend z).entry d.closing = .malformed reason (p.extend z) := by
    rw [entry_extend (by rw [he]; rfl) (by rw [he]; exact .inl hp), he]
    rfl
  have hlead : (c.extend (w ++ rest)).Leads (p.extend (w ++ rest)) := by
    simpa [he, EntryRead.place] using leads_entry d.closing (c.extend (w ++ rest))
  obtain ⟨a, hafter, hbefore⟩ := leads_of_extend hlead
  by_cases hcloses : ∃ t, ClosesAt d a.length (a.length + (p.extend (w ++ rest)).lineLength)
    (c.after ++ (w ++ rest)) t
  · obtain ⟨t, ht⟩ := hcloses
    obtain ⟨hnil, hkept⟩ := verbatimEnd_of_closes hafter hbefore hw ht hend
    exact .inl ⟨hnil, fun z => by rw [entryBlock_malformed (he' z), hkept]⟩
  · obtain ⟨hended, hkept⟩ := verbatimEnd_of_line hp hafter hbefore
      (fun t ht => hcloses ⟨t, ht⟩) hend
    exact .inr ⟨hended, fun v r hv => by rw [entryBlock_malformed (he' _), hkept v r hv]⟩

/-- An entry that failed after the gap fails after any gap. -/
theorem entryBlock_kept_of_gap (command : Text) {rest : Text} {reason : Malformation}
    (he : (c.extend (w ++ rest)).entry d.closing = .malformed reason (c.atEnd.past w rest))
    (hw : ∀ x ∈ w, Text.isBlank x = true)
    (hend : ((c.extend (w ++ rest)).verbatimEnd d (c.atEnd.past w rest)).after = rest) :
    (c.atEnd.past w rest).Ended ∧ ∀ v r, EndsLine v r →
      (c.extend (v ++ r)).entryBlock command d =
        (c.atEnd.past v r).verbatimBlock command d reason := by
  have hlead (w rest : Text) : (c.extend (w ++ rest)).Leads (c.atEnd.past w rest) :=
    ⟨c.after ++ w, by simp, by simp [atEnd]⟩
  have hended : (c.atEnd.past w rest).Ended :=
    ended_of_verbatimEnd (d := d) (hlead w rest) (by rw [hend, after_past])
  have hfollows : Follows rest := hended.imp id fun hline => (atLineBlock_iff.1 hline).2
  have hskip : (c.atEnd.extend (w ++ rest)).skipBlank = c.atEnd.past w rest :=
    skipBlank_of_after rfl hw (hfollows.stops rfl)
  refine ⟨hended, fun v r hv => ?_⟩
  obtain ⟨hskip', hended'⟩ := ended_endsLine (p := c.atEnd) rfl hv
  have he' := entry_malformed_gap (p := c.atEnd) rfl (hskip ▸ hended) (hskip' ▸ hended')
    (hskip ▸ he)
  rw [hskip'] at he'
  rw [entryBlock_malformed he', verbatimEnd_of_ended (hlead v r) hended']

/-- **An entry that failed fails again**, up to the same end: with nothing but its stem, in front
of any text, if its closing bracket ended it; otherwise with any gap after the stem, where the text
or its line ends. -/
theorem entryBlock_kept (command : Text) {rest : Text} {reason : Malformation} {place : Cursor}
    (he : (c.extend (w ++ rest)).entry d.closing = .malformed reason place)
    (hw : ∀ x ∈ w, Text.isBlank x = true)
    (hend : ((c.extend (w ++ rest)).verbatimEnd d place).after = rest) :
    (w = [] ∧ ∀ z, (c.extend z).entryBlock command d =
      (c.atEnd.extend z).verbatimBlock command d reason) ∨
    ((c.atEnd.past w rest).Ended ∧ ∀ v r, EndsLine v r →
      (c.extend (v ++ r)).entryBlock command d =
        (c.atEnd.past v r).verbatimBlock command d reason) := by
  by_cases hstem : ∃ p : Cursor, p.after ≠ [] ∧ place = p.extend (w ++ rest)
  · obtain ⟨p, hp, rfl⟩ := hstem
    exact entryBlock_kept_of_stem command hp he hw hend
  · have hlead : (c.extend (w ++ rest)).Leads place := by
      simpa [he, EntryRead.place] using leads_entry d.closing (c.extend (w ++ rest))
    have hle := length_verbatimEnd_le d hlead
    rw [hend] at hle
    obtain rfl := eq_past_of_not_stem hlead hw (fun p hp heq => hstem ⟨p, hp, heq⟩)
      (stops_of_entry_malformed he) hle
    exact .inr (entryBlock_kept_of_gap command he hw hend)

theorem Leads.atEnd_eq (h : c.Leads p) : p.atEnd = c.atEnd := by
  obtain ⟨t, hafter, hbefore⟩ := h
  simp [atEnd, past, hafter, hbefore]

/-- The place after the stem and a gap. -/
theorem eq_past_of_leads {rest : Text} (h : (c.extend (w ++ rest)).Leads p) (hp : p.after = rest) :
    p = c.atEnd.past w rest := by
  obtain ⟨t, hafter, hbefore⟩ := h
  have ht : c.after ++ w = t := by
    rw [hp, after_extend, ← List.append_assoc] at hafter
    exact List.append_cancel_right hafter
  cases p
  simp_all [past, atEnd, ← ht]

theorem skipBlank_past (hp : p.after = []) (hw : ∀ x ∈ w, Text.isBlank x = true) (rest : Text) :
    (p.past w rest).skipBlank = (p.extend (w ++ rest)).skipBlank := by
  unfold skipBlank skip past
  simp [hp, List.takeWhile_append_of_pos hw, List.dropWhile_append_of_pos hw]

end Cursor

/-- A block kept verbatim with a text. -/
def Block.keep (b : Block) (t : Text) : Block := { b with body := .verbatim t, source := some t }

/-- What is kept of a block is its whole text. -/
theorem Block.source_of_verbatim {s t : Text} {b : BlockRead} (hb : read? s = some b)
    (hbody : b.block.body = .verbatim t) : b.block.source = some t := by
  obtain ⟨-, d, p, -, rfl⟩ := read?_eq_some_iff.1 hb
  obtain ⟨hkind, reason, place, he⟩ := Cursor.exists_malformed hbody
  rw [Cursor.blockBody_of_entry hkind, Cursor.entryBlock_malformed he] at hbody ⊢
  exact congrArg some (Body.verbatim.inj hbody)

/-- **A block that was kept verbatim is kept again**: in front of any text, if its closing bracket
ended it, or where the text or its line ends, as it did. -/
theorem Block.read?_kept {s w rest t : Text} {b : BlockRead}
    (hb : read? (s ++ (w ++ rest)) = some b) (hbody : b.block.body = .verbatim t)
    (hrest : b.rest = rest) (hw : ∀ x ∈ w, Text.isBlank x = true) :
    (w = [] ∧ ∀ z, read? (s ++ z) = some ⟨b.block.keep ('@' :: s), b.causes, z⟩) ∨
    ((rest = [] ∨ rest.head? = some '@' ∧ ('@' :: (s ++ w)).reverse.head? = some '\n') ∧
      ∀ v r, EndsLine v r →
        read? (s ++ (v ++ r)) = some ⟨b.block.keep ('@' :: (s ++ v)), b.causes, r⟩) := by
  obtain ⟨hne, d, p, hp, rfl⟩ := read?_eq_some_iff.1 hb
  obtain ⟨hkind, reason, place, he⟩ := Cursor.exists_malformed hbody
  rw [Cursor.blockBody_of_entry hkind, Cursor.entryBlock_malformed he] at hrest ⊢
  have hend : (p.verbatimEnd d place).after = rest := hrest
  -- The opening bracket is of the stem.
  let start : Cursor := ⟨['@'], s⟩
  have hstart : (start.extend (w ++ rest)).Leads p := (Cursor.leads_skip _ _).trans hp.leads
  have hplace : p.Leads place := by
    simpa [he, EntryRead.place] using Cursor.leads_entry d.closing p
  have hstop := Cursor.leads_verbatimEnd (d := d) hplace
  have hgap := Cursor.eq_past_of_leads (hstart.trans hstop) hend
  have hskip : p.Leads (start.atEnd.extend (w ++ rest)).skipBlank := by
    rw [← Cursor.skipBlank_past rfl hw, ← hgap]
    exact hstop.trans (Cursor.leads_skipBlank _)
  obtain ⟨p, rfl, hpstart⟩ := Cursor.Leads.exists_extend_of_gap (p := start.atEnd) rfl hskip
    (hp.stops (by cases d <;> decide))
  have hatEnd : p.atEnd = start.atEnd := hpstart.atEnd_eq.symm
  have hread (z : Text) := read?_of_stem hne hp z
  simp only [Cursor.blockBody_of_entry hkind] at hread
  generalize (s ++ (w ++ rest)).takeWhile Scan.isCommandChar = command at hread ⊢
  obtain ⟨rfl, hkept⟩ | ⟨hended, hkept⟩ := Cursor.entryBlock_kept command he hw hend
  · refine .inl ⟨rfl, fun z => ?_⟩
    rw [hread, hkept, hatEnd]
    simp [start, Cursor.verbatimBlock, Cursor.blockRead, Cursor.atEnd, keep]
  · rw [hatEnd] at hended
    refine .inr ⟨hended.imp id fun hline => ?_, fun v r hv => ?_⟩
    · obtain ⟨hnewline, hat⟩ := Cursor.atLineBlock_iff.1 hline
      exact ⟨hat, by simpa [start, Cursor.atEnd] using hnewline⟩
    rw [hread, hkept v r hv, hatEnd]
    simp [start, Cursor.verbatimBlock, Cursor.blockRead, Cursor.atEnd, keep]

end Bibliography
