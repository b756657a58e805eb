import Bibliography.Layout
import Bibliography.Proofs.Layout.Wrap
import Bibliography.Proofs.Scan.Enclosure

/-!
# Bibliography.Proofs.Layout.Value

The texts of a value.  A value is spelled by its segments with a `#` between
them, and by any blanks around the `#` that end with a space (`Value.Spelled`).
A layout that wraps a value spells another one, whose segments have other white
space (`Value.Reflow`), and the other one it leaves as it is.

* `Value.exists_spelled` — a refilled text of a value spells a value;
* `Layout.exists_spelled_value` — what a layout makes of a value spells a value,
  of which it makes the same.
-/

namespace Bibliography

open Wrap

/-! ## refilled texts -/

namespace Wrap.Refilled

variable {k : Nat} {n : Nesting} {c : Char} {s t u : Text}

theorem eq_nil (h : Refilled k n [] t) : t = [] := by
  cases h
  rfl

/-- What is no white space stays. -/
theorem exists_of_cons (hc : Unicode.isWhiteSpace c = false) (h : Refilled k n (c :: s) t) :
    ∃ t', t = c :: t' ∧ Refilled k (n.after c) s t' := by
  have hbreak : ¬ n.breakable c = true := by simp [Nesting.breakable, hc]
  cases h with
  | keep _ h => exact ⟨_, rfl, h⟩
  | drop hc' _ _ => exact absurd hc' hbreak
  | space hc' _ _ _ => exact absurd hc' hbreak

theorem exists_of_append (hs : ∀ x ∈ s, Unicode.isWhiteSpace x = false)
    (h : Refilled k n (s ++ u) t) : ∃ t', t = s ++ t' ∧ Refilled k (n.run s) u t' := by
  induction s generalizing n t with
  | nil => exact ⟨t, rfl, h⟩
  | cons c s ih =>
      obtain ⟨hc, hs⟩ := List.forall_mem_cons.1 hs
      obtain ⟨t, rfl, hrest⟩ := h.exists_of_cons hc
      obtain ⟨t, rfl, hend⟩ := ih hs hrest
      exact ⟨t, rfl, hend⟩

/-- A gap stays a gap, which ends with a space. -/
theorem exists_of_space (hu : Text.Stops Unicode.isWhiteSpace u) (h : Refilled k n (' ' :: u) t) :
    ∃ g t', (∀ x ∈ g, Text.isBlank x = true) ∧ t = g ++ ' ' :: t' ∧ Refilled k n u t' := by
  cases h with
  | keep _ h => exact ⟨[], _, List.forall_mem_nil _, rfl, h⟩
  | drop _ hx _ =>
      have hwhite := Text.stops_cons.1 hu
      simp [(Nesting.breakable_iff.1 hx).1] at hwhite
  | space _ hv _ h => exact ⟨_, _, hv, rfl, h⟩

/-- A character that is no white space separates what is refilled. -/
theorem exists_of_append_cons (hc : Unicode.isWhiteSpace c = false)
    (h : Refilled k n (s ++ c :: u) t) :
    ∃ s' t', t = s' ++ c :: t' ∧ Refilled k n s s' ∧ Refilled k ((n.run s).after c) u t' := by
  induction s generalizing n t with
  | nil =>
      obtain ⟨t, rfl, hrest⟩ := h.exists_of_cons hc
      exact ⟨[], t, rfl, .nil, hrest⟩
  | cons x s ih =>
      generalize hxs : x :: s ++ c :: u = r at h
      cases h with
      | nil => cases hxs
      | keep hx h =>
          obtain ⟨rfl, rfl⟩ := List.cons.inj hxs
          obtain ⟨s', t', rfl, hs, ht⟩ := ih h
          exact ⟨x :: s', t', rfl, .keep hx hs, ht⟩
      | @drop _ _ y r _ hx hy h =>
          obtain ⟨rfl, hr⟩ := List.cons.inj hxs
          rw [Nesting.run_cons, Nesting.after_of_breakable hx]
          cases s with
          | nil =>
              obtain ⟨rfl, -⟩ := List.cons.inj hr
              simp [(Nesting.breakable_iff.1 hy).1] at hc
          | cons z s =>
              obtain ⟨rfl, rfl⟩ := List.cons.inj hr
              obtain ⟨s', t', rfl, hs, ht⟩ := ih h
              exact ⟨s', t', rfl, .drop hx hy hs, ht⟩
      | space hx hv hk h =>
          obtain ⟨rfl, rfl⟩ := List.cons.inj hxs
          rw [Nesting.run_cons, Nesting.after_of_breakable hx]
          obtain ⟨s', t', rfl, hs, ht⟩ := ih h
          exact ⟨_, t', by rw [List.append_assoc]; rfl, .space hx hv hk hs, ht⟩

end Wrap.Refilled

namespace Wrap.Respaced

variable {n : Nesting} {s t : Text}

/-- Other white space makes no difference to what encloses a text. -/
theorem pass?_eq (h : Respaced n s t) (k : Scan.Enclosure) (q : Scan.Quotation) :
    Scan.pass? k.after? q s = Scan.pass? k.after? q t := by
  have hsign {n : Nesting} {x : Char} (h : n.breakable x = true) : Scan.isSign x = false :=
    Scan.isSign_of_isWhiteSpace (Nesting.breakable_iff.1 h).1
  induction h generalizing q with
  | nil => rfl
  | @keep n c s t _ ih =>
      rw [Scan.pass?_cons, Scan.pass?_cons]
      cases k.after? q c with
      | none => rfl
      | some q' => exact ih q'
  | drop hc hx _ ih =>
      rw [← ih q, Scan.pass?_cons, Scan.Enclosure.after?_of_isSign (hsign hc), Option.bind_some,
        Scan.pass?_cons, Scan.pass?_cons, Scan.Enclosure.after?_of_isSign (hsign hx),
        Scan.Enclosure.after?_of_isSign (hsign hx)]
  | @space n c v s t hc hv _ ih =>
      have hgap : ∀ x ∈ v ++ [' '], Scan.isSign x = false := fun x hx =>
        Scan.isSign_of_isWhiteSpace (Unicode.isWhiteSpace_of_isBlank (isBlank_gap hv x hx))
      have happend : v ++ ' ' :: t = (v ++ [' ']) ++ t := by simp
      rw [happend, Scan.pass?_append, Scan.Enclosure.pass?_of_isSign_of_ne_nil (by simp) hgap,
        Scan.pass?_cons, Scan.Enclosure.after?_of_isSign (hsign hc), Option.bind_some,
        Option.bind_some]
      exact ih _

theorem closes (h : Respaced n s t) {k : Scan.Enclosure} (hs : k.Closes s) : k.Closes t := by
  obtain ⟨q, hq, hclosed⟩ := hs
  exact ⟨q, h.pass?_eq k .bare ▸ hq, hclosed⟩

end Wrap.Respaced

/-! ## segments -/

namespace Segment

/-- A bare token without white space, or a delimited segment. -/
def IsSolid : Segment → Prop
  | literal t => ∀ x ∈ t, Unicode.isWhiteSpace x = false
  | braced _ | quoted _ => True

instance : (s : Segment) → Decidable s.IsSolid
  | literal t => List.decidableBAll (fun x => Unicode.isWhiteSpace x = false) t
  | braced _ | quoted _ => .isTrue trivial

/-- A solid segment begins and ends with something else than white space. -/
theorem stops_white {s : Segment} (hs : s.IsClosed) (hsolid : s.IsSolid) (u : Text) :
    Text.Stops Unicode.isWhiteSpace (s.written ++ u) ∧
      Text.Stops Unicode.isWhiteSpace (s.written.reverse ++ u) := by
  cases s with
  | literal t =>
      have hrun : Text.IsRun (fun x => !Unicode.isWhiteSpace x) t :=
        ⟨hs.1, fun x hx => by simp [hsolid x hx]⟩
      have hrun' : Text.IsRun (fun x => !Unicode.isWhiteSpace x) t.reverse :=
        ⟨by simpa using hrun.1, fun x hx => hrun.2 x (List.mem_reverse.1 hx)⟩
      have hwhite : ∀ x, (!Unicode.isWhiteSpace x) = true → Unicode.isWhiteSpace x = false := by
        simp
      exact ⟨hrun.stops hwhite u, hrun'.stops hwhite u⟩
  | braced t | quoted t =>
      refine ⟨Text.stops_cons.2 rfl, ?_⟩
      rw [written, List.reverse_append]
      exact Text.stops_cons.2 rfl

/-- A segment of the same kind, whose text is refilled. -/
inductive Reflow (k : Nat) (n : Nesting) : Segment → Segment → Prop where
  | literal (t : Text) : Reflow k n (.literal t) (.literal t)
  | braced {s t : Text} : Refilled k (n.after '{') s t → Reflow k n (.braced s) (.braced t)
  | quoted {s t : Text} : Refilled k (n.after '"') s t → Reflow k n (.quoted s) (.quoted t)

theorem Reflow.respaced {k : Nat} {n : Nesting} {s s' : Segment} (h : Reflow k n s s') :
    Respaced n s.written s'.written := by
  cases h with
  | literal t => exact .refl _ _
  | braced h | quoted h => exact .keep (h.respaced.append (.refl _ _))

theorem Reflow.isClosed {k : Nat} {n : Nesting} {s s' : Segment} (h : Reflow k n s s')
    (hs : s.IsClosed) : s'.IsClosed := by
  cases h with
  | literal t => exact hs
  | braced h | quoted h =>
      exact (isClosed_iff_closes rfl).2 (h.respaced.closes ((isClosed_iff_closes rfl).1 hs))

/-- **A refilled segment is a segment.** -/
theorem exists_refilled {k : Nat} {s : Segment} {n : Nesting} {t u : Text} (hs : s.IsClosed)
    (hsolid : s.IsSolid) (h : Refilled k n (s.written ++ u) t) :
    ∃ (s' : Segment) (t' : Text), s'.IsClosed ∧ t = s'.written ++ t' ∧ Reflow k n s s' ∧
      Refilled k (n.run s.written) u t' := by
  -- A delimited text is refilled between its delimiters.
  have henclosed {o c : Char} {a : Text} (ho : Unicode.isWhiteSpace o = false)
      (hc : Unicode.isWhiteSpace c = false) (h : Refilled k n ((o :: a ++ [c]) ++ u) t) :
      ∃ a' t', t = (o :: a' ++ [c]) ++ t' ∧ Refilled k (n.after o) a a' ∧
        Refilled k (n.run (o :: a ++ [c])) u t' := by
    rw [List.append_assoc, List.cons_append] at h
    obtain ⟨t, rfl, hinside⟩ := h.exists_of_cons ho
    obtain ⟨a', t', rfl, ha, hrest⟩ := hinside.exists_of_append_cons hc
    refine ⟨a', t', by simp, ha, ?_⟩
    rw [List.cons_append, Nesting.run_cons, Nesting.run_append]
    exact hrest
  cases s with
  | literal a =>
      obtain ⟨t', rfl, hrest⟩ := h.exists_of_append hsolid
      exact ⟨.literal a, t', hs, rfl, .literal a, hrest⟩
  | braced a =>
      obtain ⟨a', t', rfl, ha, hrest⟩ := henclosed (by decide) (by decide) h
      exact ⟨.braced a', t', (Reflow.braced ha).isClosed hs, rfl, .braced ha, hrest⟩
  | quoted a =>
      obtain ⟨a', t', rfl, ha, hrest⟩ := henclosed (by decide) (by decide) h
      exact ⟨.quoted a', t', (Reflow.quoted ha).isClosed hs, rfl, .quoted ha, hrest⟩

end Segment

/-! ## values -/

namespace Value

/-- Every bare token of a value has no white space. -/
def IsSolid (v : Value) : Prop := ∀ s ∈ v, s.IsSolid

instance (v : Value) : Decidable v.IsSolid := List.decidableBAll Segment.IsSolid v

/-- The segments after the first, each with a `#` before it. -/
def writtenMore (v : Value) : Text := v.flatMap fun s => ' ' :: '#' :: ' ' :: s.written

theorem written_cons (s : Segment) (v : Value) : written (s :: v) = s.written ++ writtenMore v := by
  induction v generalizing s with
  | nil => simp [written, writtenMore, Text.joinWith]
  | cons s' v ih =>
      have htail := ih s'
      unfold written writtenMore at htail ⊢
      rw [List.map_cons, List.map_cons, Text.joinWith, ← List.map_cons, htail]
      simp

theorem writtenMore_cons (s : Segment) (v : Value) :
    writtenMore (s :: v) = ' ' :: '#' :: ' ' :: (s.written ++ writtenMore v) := by
  simp [writtenMore]

/-- A text of the segments after the first, each after a `#` in gaps that end with a space. -/
inductive SpelledMore : Value → Text → Prop where
  | nil : SpelledMore [] []
  | cons {s : Segment} {v : Value} {g g' t : Text} : (∀ x ∈ g, Text.isBlank x = true) →
      (∀ x ∈ g', Text.isBlank x = true) → s.IsClosed → SpelledMore v t →
      SpelledMore (s :: v) (g ++ ' ' :: '#' :: (g' ++ ' ' :: (s.written ++ t)))

/-- A text of a value: its segments, with a `#` in gaps between them. -/
inductive Spelled : Value → Text → Prop where
  | nil : Spelled [] []
  | cons {s : Segment} {v : Value} {t : Text} : s.IsClosed → SpelledMore v t →
      Spelled (s :: v) (s.written ++ t)

variable {v : Value} {s : Segment} {t : Text} {n : Nesting}

theorem spelledMore_writtenMore (hv : v.IsClosed) : SpelledMore v v.writtenMore := by
  induction v with
  | nil => exact .nil
  | cons s v ih =>
      obtain ⟨hs, hv⟩ := List.forall_mem_cons.1 hv
      rw [writtenMore_cons]
      exact .cons (List.forall_mem_nil _) (List.forall_mem_nil _) hs (ih hv)

/-- A value is spelled as it is written. -/
theorem spelled_written (hv : v.IsClosed) : Spelled v v.written := by
  cases v with
  | nil => exact .nil
  | cons s v =>
      obtain ⟨hs, hv⟩ := List.forall_mem_cons.1 hv
      rw [written_cons]
      exact .cons hs (spelledMore_writtenMore hv)

/-- No text of a value is shorter than the written one, and no other is as short. -/
theorem SpelledMore.length_le (h : SpelledMore v t) : v.writtenMore.length ≤ t.length ∧
    (t.length ≤ v.writtenMore.length → t = v.writtenMore) := by
  induction h with
  | nil => exact ⟨Nat.le_refl _, fun _ => rfl⟩
  | @cons s v g g' t _ _ _ _ ih =>
      obtain ⟨hle, heq⟩ := ih
      rw [writtenMore_cons]
      simp only [List.length_append, List.length_cons]
      refine ⟨by omega, fun hshort => ?_⟩
      obtain rfl : g = [] := List.length_eq_zero_iff.1 (by omega)
      obtain rfl : g' = [] := List.length_eq_zero_iff.1 (by omega)
      rw [heq (by omega)]
      rfl

theorem Spelled.eq_written (h : Spelled v t) (hle : t.length ≤ v.written.length) :
    t = v.written := by
  cases h with
  | nil => rfl
  | cons _ hmore =>
      rw [written_cons] at hle ⊢
      simp only [List.length_append] at hle
      rw [hmore.length_le.2 (by omega)]

/-- Segment by segment, a value of refilled texts. -/
inductive Reflow (k : Nat) : Nesting → Value → Value → Prop where
  | nil {n : Nesting} : Reflow k n [] []
  | cons {n : Nesting} {s s' : Segment} {v v' : Value} : Segment.Reflow k n s s' →
      Reflow k (n.run s.written) v v' → Reflow k n (s :: v) (s' :: v')

theorem Reflow.respaced_more {k : Nat} {v' : Value} (h : Reflow k n v v') :
    Respaced n v.writtenMore v'.writtenMore := by
  induction h with
  | nil => exact .refl _ _
  | @cons n s s' v v' hs _ ih =>
      rw [writtenMore_cons, writtenMore_cons]
      exact .keep (.keep (.keep (hs.respaced.append ih)))

theorem Reflow.respaced {k : Nat} {v' : Value} (h : Reflow k n v v') :
    Respaced n v.written v'.written := by
  cases h with
  | nil => exact .refl _ _
  | cons hs hmore =>
      rw [written_cons, written_cons]
      exact hs.respaced.append hmore.respaced_more

/-- A `#` in gaps is refilled to a `#` in gaps. -/
theorem exists_spelledMore {k : Nat} (hv : v.IsClosed) (hsolid : v.IsSolid)
    (h : Refilled k n v.writtenMore t) : ∃ v', SpelledMore v' t ∧ Reflow k n v v' := by
  induction v generalizing n t with
  | nil => exact ⟨[], by rw [h.eq_nil]; exact .nil, .nil⟩
  | cons s v ih =>
      obtain ⟨hs, hv⟩ := List.forall_mem_cons.1 hv
      obtain ⟨hssolid, hsolid⟩ := List.forall_mem_cons.1 hsolid
      have hhash : n.after '#' = n := Nesting.after_of_isSign (by decide) n
      rw [writtenMore_cons] at h
      obtain ⟨g, t, hg, rfl, h1⟩ := h.exists_of_space (Text.stops_cons.2 (by decide))
      obtain ⟨t, rfl, h2⟩ := h1.exists_of_cons (by decide)
      rw [hhash] at h2
      obtain ⟨g', t, hg', rfl, h3⟩ := h2.exists_of_space (Segment.stops_white hs hssolid _).1
      obtain ⟨s', t, hs', rfl, hss', h4⟩ := Segment.exists_refilled hs hssolid h3
      obtain ⟨v', hmore, hvv'⟩ := ih hv hsolid h4
      exact ⟨s' :: v', .cons hg hg' hs' hmore, .cons hss' hvv'⟩

/-- **A refilled text of a value spells a value.** -/
theorem exists_spelled {k : Nat} (hv : v.IsClosed) (hsolid : v.IsSolid)
    (h : Refilled k n v.written t) : ∃ v', Spelled v' t ∧ Reflow k n v v' := by
  cases v with
  | nil => exact ⟨[], by rw [h.eq_nil]; exact .nil, .nil⟩
  | cons s v =>
      obtain ⟨hs, hv⟩ := List.forall_mem_cons.1 hv
      obtain ⟨hssolid, hsolid⟩ := List.forall_mem_cons.1 hsolid
      rw [written_cons] at h
      obtain ⟨s', t, hs', rfl, hss', hrest⟩ := Segment.exists_refilled hs hssolid h
      obtain ⟨v', hmore, hvv'⟩ := exists_spelledMore hv hsolid hrest
      exact ⟨s' :: v', .cons hs' hmore, .cons hss' hvv'⟩

/-- A solid value begins and ends with something else than white space. -/
theorem stops_white (hv : v.IsClosed) (hsolid : v.IsSolid) :
    Text.Stops Unicode.isWhiteSpace v.written ∧
      Text.Stops Unicode.isWhiteSpace v.written.reverse := by
  have hend (s : Segment) (v : Value) (hv : IsClosed (s :: v)) (hsolid : IsSolid (s :: v))
      (u : Text) : Text.Stops Unicode.isWhiteSpace ((s.written ++ v.writtenMore).reverse ++ u) := by
    induction v generalizing s u with
    | nil =>
        have hs := Segment.stops_white (hv s List.mem_cons_self) (hsolid s List.mem_cons_self) u
        simpa [writtenMore] using hs.2
    | cons s' v ih =>
        have hlast := ih s' (List.forall_mem_cons.1 hv).2 (List.forall_mem_cons.1 hsolid).2
          (' ' :: '#' :: ' ' :: s.written.reverse ++ u)
        rw [writtenMore_cons]
        simpa using hlast
  cases v with
  | nil => exact ⟨Text.stops_nil, Text.stops_nil⟩
  | cons s v =>
      have hs := Segment.stops_white (hv s List.mem_cons_self) (hsolid s List.mem_cons_self)
      have hlast := hend s v hv hsolid []
      rw [List.append_nil] at hlast
      rw [written_cons]
      exact ⟨(hs _).1, hlast⟩

end Value

/-- **A layout leaves alone what it has made of a value.**  It spells a value, of which the layout
makes the same. -/
theorem Layout.exists_spelled_value (l : Layout) {column : Nat} {v : Value} (hcolumn : 0 < column)
    (hv : v.IsClosed) (hl : l.value column v = v.written ∨ v.IsSolid) :
    ∃ v', v'.Spelled (l.value column v) ∧ l.value column v' = l.value column v := by
  by_cases hwritten : l.value column v = v.written
  · exact ⟨v, by rw [hwritten]; exact Value.spelled_written hv, rfl⟩
  have hsolid := hl.resolve_left hwritten
  obtain ⟨hstart, hend⟩ := Value.stops_white hv hsolid
  unfold Layout.value at hwritten ⊢
  cases hwrap : l.wrap with
  | none => simp [hwrap] at hwritten
  | some width =>
      rw [hwrap] at hwritten
      dsimp only at hwritten ⊢
      have hwide : width < column + v.written.length :=
        Nat.lt_of_not_le fun hle => hwritten (if_neg (Nat.not_lt.2 hle))
      rw [if_pos hwide]
      obtain ⟨v', hspelled, hreflow⟩ :=
        Value.exists_spelled hv hsolid (refilled_wrap hcolumn (Nat.zero_le _) hstart hend)
      refine ⟨v', hspelled, ?_⟩
      have htokens := hreflow.respaced.tokens_eq
      by_cases hwide' : width < column + v'.written.length
      · rw [if_pos hwide', wrap_eq_of_tokens_eq htokens]
      · -- What fits on the line now was filled into one line.
        rw [if_neg hwide']
        have hle : (Wrap.wrap column width v.written).length ≤ v'.written.length :=
          length_wrap_le htokens (Nat.le_of_not_lt hwide')
        exact (hspelled.eq_written hle).symm

end Bibliography
