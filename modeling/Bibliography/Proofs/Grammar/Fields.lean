import Mathlib.Data.List.Chain
import Bibliography.Proofs.Grammar.Matches

/-!
# Bibliography.Proofs.Grammar.Fields

What is read of the values and fields of the grammar.  The reader takes the same
tokens, but it ends an entry at an `@` that begins a line where a word may begin,
and it wants a comma between fields, which the grammar leaves out at will.  So
fields are read exactly if they are apart (`AreApart`).

* `moreSegments_cases`, `value_cases` — a value, token by token;
* `decides_field`, `decides_moreFields` — a field, and those that follow it;
* `decides_fields` — the fields of an entry.
-/

namespace Bibliography

open Scan

/-- An `@` comes next in a text, at the start of a line. -/
def Text.AtLine (s rest : Text) : Prop := rest.head? = some '@' ∧ ∃ u, s = u ++ '\n' :: rest

instance (s rest : Text) : Decidable (Text.AtLine s rest) :=
  decidable_of_iff (rest.head? = some '@' ∧ '\n' :: rest <:+ s)
    (and_congr_right fun _ => exists_congr fun _ => eq_comm)

/-- A comma stands in a text before its end `t`. -/
def Text.CommaBefore (s t : Text) : Prop := ∃ u, s = u ++ t ∧ ',' ∈ u

instance (s t : Text) : Decidable (Text.CommaBefore s t) :=
  decidable_of_iff (t <:+ s ∧ ',' ∈ s.take (s.length - t.length)) <| by
    constructor
    · rintro ⟨⟨u, rfl⟩, hu⟩
      exact ⟨u, rfl, by simpa using hu⟩
    · rintro ⟨u, rfl, hu⟩
      exact ⟨List.suffix_append u t, by simpa using hu⟩

namespace Cursor

variable {c p : Cursor}

theorem atLineBlock_iff_atLine : c.atLineBlock = true ↔ Text.AtLine c.text c.after := by
  rw [atLineBlock_iff, Text.AtLine, and_comm]
  refine and_congr_right fun _ => ⟨fun h => ?_, fun ⟨u, hu⟩ => ?_⟩
  · obtain ⟨v, hv⟩ := List.head?_eq_some_iff.1 h
    exact ⟨v.reverse, by rw [text, hv]; simp⟩
  · have hbefore : c.before.reverse = u ++ ['\n'] :=
      List.append_cancel_right (hu.trans (by simp) : c.before.reverse ++ c.after = _)
    rw [← List.getLast?_reverse, hbefore, List.getLast?_concat]

end Cursor

/-! ## values -/

namespace Cursor

variable {c p : Cursor}

/-- A segment of the grammar is read as one. -/
theorem exists_segment_read {s : Text} {tree : Grammar.Tree} {r : Grammar.Shorter s}
    (hs : c.after = s) (h : Grammar.segment s = some (tree, r)) :
    ∃ seg q, c.segment = .read seg q ∧ q.after = r.1 := by
  subst hs
  obtain ⟨-, seg, hclosed, hafter, hends⟩ := Grammar.exists_segment h
  exact ⟨seg, _, segment_written hclosed hafter hends, rfl⟩

/-- **The segments after the first** are read as those of the grammar, unless a bare token begins
with an `@` at the start of a line. -/
theorem moreSegments_cases (hends : Grammar.EndsValue (Grammar.moreSegments c.after).2.1) :
    ((∀ w ∈ (Grammar.moreSegments c.after).1, ¬ Text.AtLine c.text w.start) ∧
      ∃ v p, c.moreSegments = .read v p ∧ p.after = (Grammar.moreSegments c.after).2.1) ∨
    ((∃ w ∈ (Grammar.moreSegments c.after).1, Text.AtLine c.text w.start) ∧
      ∃ m p, c.moreSegments = .malformed m p) := by
  induction c using (measure fun c : Cursor => c.after.length).wf.induction with
  | h c ih =>
      by_cases hhash : c.skipBlank.after.head? = some '#'
      · obtain ⟨t, ht⟩ := List.head?_eq_some_iff.1 hhash
        have hp : c.CharAt '#' (c.skipBlank.past ['#'] t) := ⟨t, ht, rfl⟩
        have hdrop : c.after.dropWhile Text.isBlank = '#' :: t := (after_skipBlank c).symm.trans ht
        generalize hpc : c.skipBlank.past ['#'] t = p at hp
        have hpt : p.skipBlank.after = t.dropWhile Text.isBlank := by
          rw [after_skipBlank, ← hpc]
          rfl
        have htext : p.skipBlank.text = c.text := (hp.leads.trans (leads_skipBlank p)).text_eq
        cases hseg : Grammar.segment (t.dropWhile Text.isBlank) with
        | none =>
            -- Then the grammar stops in front of the `#`.
            obtain ⟨-, hstop⟩ := Grammar.moreSegments_of_none hdrop hseg
            rw [hstop] at hends
            exact absurd rfl (hends '#' (by rw [hdrop]; rfl)).1
        | some m =>
            obtain ⟨tree, r⟩ := m
            obtain ⟨htrees, hstop⟩ := Grammar.moreSegments_of_some hdrop hseg
            obtain ⟨hstart, -⟩ := Grammar.exists_segment hseg
            obtain ⟨seg, q, hread, hq⟩ := exists_segment_read hpt hseg
            rw [htrees, hstop]
            rw [hstop] at hends
            have hline : p.skipBlank.atLineBlock = true ↔ Text.AtLine c.text tree.start := by
              rw [atLineBlock_iff_atLine, htext, hpt, hstart]
            by_cases hat : p.skipBlank.atLineBlock = true
            · exact .inr ⟨⟨tree, List.mem_cons_self, hline.1 hat⟩, _, _,
                moreSegments_noSegment hp (.inl hat)⟩
            have hmore : c.moreSegments = q.moreSegments.cons seg := by
              rw [moreSegments_hash hp, if_neg hat, hread]
            have hqtext : q.text = c.text := ((leads_of_segment_read hread).text_eq).trans htext
            have hlt : q.after.length < c.after.length :=
              Nat.lt_of_le_of_lt ((leads_skipBlank p).trans (leads_of_segment_read hread)).length_le
                hp.length_lt
            have hrest := ih q hlt (by rwa [hq])
            rw [hq, hqtext] at hrest
            obtain ⟨hnot, v, stop, hv, hstop⟩ | ⟨⟨w, hw, hwat⟩, m, place, hm⟩ := hrest
            · refine .inl ⟨List.forall_mem_cons.2 ⟨fun h => hat (hline.2 h), hnot⟩,
                seg :: v, stop, ?_, hstop⟩
              rw [hmore, hv]
              rfl
            · refine .inr ⟨⟨w, List.mem_cons_of_mem _ hw, hwat⟩, m, place, ?_⟩
              rw [hmore, hm]
              rfl
      · obtain ⟨htrees, hstop⟩ := Grammar.moreSegments_nil
          (s := c.after) (by rwa [← after_skipBlank])
        rw [htrees, hstop]
        exact .inl ⟨List.forall_mem_nil _, [], c, moreSegments_end hhash, rfl⟩

/-- **A value** is read as that of the grammar, unless a bare token begins with an `@` at the start
of a line. -/
theorem value_cases {s : Text} (hs : c.skipBlank.after = s)
    (hends : Grammar.EndsValue (Grammar.value s).2.1) :
    ((∀ w ∈ (Grammar.value s).1 :: (Grammar.value s).1.children, ¬ Text.AtLine c.text w.start) ∧
      ∃ v p, c.value = .read v p ∧ p.after = (Grammar.value s).2.1) ∨
    ((∃ w ∈ (Grammar.value s).1.children, Text.AtLine c.text w.start) ∧
      ((∃ m p, c.value = .malformed m p) ∨ ∃ v p, c.value = .read v p ∧ p.skipBlank.Ended)) := by
  have htext : c.skipBlank.text = c.text := (leads_skipBlank c).text_eq
  have hline : c.skipBlank.atLineBlock = true ↔ Text.AtLine c.text s := by
    rw [atLineBlock_iff_atLine, htext, hs]
  cases hseg : Grammar.segment s with
  | none =>
      obtain ⟨htree, hstop⟩ := Grammar.value_of_none hseg
      have hstops := Grammar.stops_of_segment hseg
      have hno : c.skipBlank.NoSegment := by
        have hblank : Text.Stops Text.isBlank s := by
          rw [← hs]
          exact Text.stops_dropWhile _ _
        rw [hstop, Grammar.EndsValue, hblank.dropWhile_eq] at hends
        intro x hx
        rw [hs] at hx
        exact ⟨hstops x hx, (hends x hx).2⟩
      refine .inl ⟨?_, [], c.skipBlank, value_noSegment (.inr hno), by rw [hstop, hs]⟩
      rw [htree]
      refine List.forall_mem_singleton.2 fun h => ?_
      exact absurd (hstops '@' h.1) (by decide)
  | some m =>
      obtain ⟨tree, r⟩ := m
      obtain ⟨htree, hstop⟩ := Grammar.value_of_some hseg
      obtain ⟨hstart, -⟩ := Grammar.exists_segment hseg
      obtain ⟨seg, q, hread, hq⟩ := exists_segment_read hs hseg
      rw [htree, hstop]
      rw [hstop] at hends
      by_cases hat : c.skipBlank.atLineBlock = true
      · refine .inr ⟨⟨tree, List.mem_cons_self, by rw [hstart]; exact hline.1 hat⟩, .inr ?_⟩
        refine ⟨_, _, value_noSegment (.inl hat), .inr ?_⟩
        rwa [skipBlank_skipBlank]
      have hvalue : c.value = q.moreSegments.cons seg := by
        rw [value_segment (by simpa using hat), hread]
      have hqtext : q.text = c.text := (leads_of_segment_read hread).text_eq.trans htext
      have hrest := moreSegments_cases (c := q) (by rwa [hq])
      rw [hq, hqtext] at hrest
      have hfirst : ¬ Text.AtLine c.text s := fun h => hat (hline.2 h)
      obtain ⟨hnot, v, stop, hv, hstop⟩ | ⟨⟨w, hw, hwat⟩, m, place, hm⟩ := hrest
      · refine .inl ⟨?_, seg :: v, stop, by rw [hvalue, hv]; rfl, hstop⟩
        exact List.forall_mem_cons.2 ⟨hfirst, List.forall_mem_cons.2 ⟨by rwa [hstart], hnot⟩⟩
      · exact .inr ⟨⟨w, List.mem_cons_of_mem _ hw, hwat⟩, .inl ⟨m, place, by rw [hvalue, hm]; rfl⟩⟩

end Cursor

/-! ## fields -/

/-- Fields of the grammar are read up to the closing bracket exactly if a condition holds. -/
structure FieldsRead.Decides (r : FieldsRead) (good : Prop) (ts : List Grammar.Tree) (stop : Text) :
    Prop where
  read : good → ∃ fs p, r = .closed fs p ∧ p.after = stop ∧
    fs.map Field.name = ts.map Grammar.Tree.fieldName
  good : ∀ fs p, r = .closed fs p → good

/-- Fields that are separated by commas, in a text, and no line begins with an `@` where one of
their words does. -/
structure Grammar.AreApart (s : Text) (ts : List Tree) : Prop where
  commas : ts.IsChain fun t u => Text.CommaBefore t.stop u.start
  lines : ∀ t ∈ ts, ∀ w ∈ t.withInner, ¬ Text.AtLine s w.start

/-- What is left after the last field is closed. -/
def Grammar.ClosesFields (d : Delimiter) (s stop : Text) : Prop :=
  (manyCommas (manyFields s).2.1).1.dropWhile Text.isBlank = d.closing :: stop

namespace Grammar

variable {s stop : Text} {d : Delimiter} {t : Tree} {ts : List Tree}

theorem AreApart.nil (s : Text) : AreApart s [] := ⟨.nil, List.forall_mem_nil _⟩

theorem areApart_cons : AreApart s (t :: ts) ↔ (∀ w ∈ t.withInner, ¬ Text.AtLine s w.start) ∧
    (∀ u ∈ ts.head?, Text.CommaBefore t.stop u.start) ∧ AreApart s ts := by
  constructor
  · rintro ⟨hcommas, hlines⟩
    obtain ⟨hfirst, hcommas⟩ := List.isChain_cons.1 hcommas
    obtain ⟨hline, hlines⟩ := List.forall_mem_cons.1 hlines
    exact ⟨hline, hfirst, hcommas, hlines⟩
  · rintro ⟨hline, hfirst, hcommas, hlines⟩
    exact ⟨List.isChain_cons.2 ⟨hfirst, hcommas⟩, List.forall_mem_cons.2 ⟨hline, hlines⟩⟩

theorem endsValue_of_closesFields (h : ClosesFields d s stop) : EndsValue s := by
  intro x hx
  by_cases hcomma : (s.dropWhile Text.isBlank).head? = some ','
  · obtain rfl : ',' = x := Option.some.inj (hcomma.symm.trans hx)
    decide
  obtain ⟨-, hrest⟩ | ⟨v, t, hat, -⟩ := manyFields_cases s
  · rw [ClosesFields, hrest, manyCommas_eq hcomma] at h
    rw [h] at hx
    obtain rfl : d.closing = x := Option.some.inj hx
    cases d <;> decide
  · obtain ⟨y, hy, hkey⟩ := hat.exists_head?
    rw [fieldStart_eq hcomma, hx] at hy
    obtain rfl : x = y := Option.some.inj hy
    refine ⟨?_, ?_, ?_⟩ <;> rintro rfl <;> exact absurd hkey (by decide)

end Grammar

namespace FieldsRead.Decides

variable {r : FieldsRead} {good good' : Prop} {ts : List Grammar.Tree} {stop : Text}

theorem congr (h : r.Decides good ts stop) (hgood : good ↔ good') : r.Decides good' ts stop :=
  ⟨fun h' => h.read (hgood.2 h'), fun fs p hr => hgood.1 (h.good fs p hr)⟩

/-- What is not closed is of no good. -/
theorem of_not (hgood : ¬ good) (h : ∀ fs p, r ≠ .closed fs p) : r.Decides good ts stop :=
  ⟨fun h' => absurd h' hgood, fun fs p hr => absurd hr (h fs p)⟩

/-- One field more. -/
theorem cons {f : Field} {t : Grammar.Tree} (h : r.Decides good ts stop)
    (hname : f.name = t.fieldName) : (r.cons f).Decides good (t :: ts) stop where
  read hgood := by
    obtain ⟨fs, p, rfl, hp, hnames⟩ := h.read hgood
    exact ⟨f :: fs, p, rfl, hp, by rw [List.map_cons, List.map_cons, hname, hnames]⟩
  good fs p hr := by
    obtain ⟨gs, -, rfl⟩ := exists_of_cons_closed hr
    exact h.good gs p rfl

end FieldsRead.Decides

namespace Cursor

variable {c p q : Cursor} {d : Delimiter} {stop : Text}

/-- Read what follows a field. -/
def moreFields (close : Char) (c : Cursor) : FieldsRead :=
  match c.separator close with
  | .comma next => next.fields close
  | .closing stop => .closed [] stop
  | .ended place => .unclosed [] place
  | .missing place => .malformed .commaAfterValue place

theorem moreFields_comma (h : c.CharAt ',' p) : c.moreFields d.closing = p.fields d.closing := by
  rw [moreFields, separator_comma _ h]

theorem moreFields_closing (h : c.CharAt d.closing p) :
    c.moreFields d.closing = .closed [] p := by
  rw [moreFields, separator_closing h]

/-- A value, and what follows it. -/
theorem valueAndFields_read {v : Value} (name : Text) (h : c.value = .read v p) :
    c.valueAndFields d.closing name = (p.moreFields d.closing).cons ⟨name, v⟩ := by
  rw [valueAndFields, h, moreFields]
  dsimp only
  cases p.separator d.closing <;> rfl

/-- Where no comma follows a field, no field does. -/
theorem moreFields_ne_closed (hcomma : c.skipBlank.after.head? ≠ some ',')
    (hclose : c.skipBlank.after.head? ≠ some d.closing) (fs : List Field) (p : Cursor) :
    c.moreFields d.closing ≠ .closed fs p := by
  rw [moreFields]
  obtain ⟨q, s, hs, -⟩ | ⟨q, s, hs, -⟩ | hend | hother := separator_cases d c
  · simp [hs] at hcomma
  · simp [hs] at hclose
  · simp [separator_ended hend]
  · simp [separator_missing hother]

/-- Commas alone are no fields. -/
theorem fields_of_commas
    (h : (Grammar.manyCommas c.after).1.dropWhile Text.isBlank = d.closing :: stop) :
    ∃ p, c.fields d.closing = .closed [] p ∧ p.after = stop := by
  induction c using (measure fun c : Cursor => c.after.length).wf.induction with
  | h c ih =>
      by_cases hcomma : (c.after.dropWhile Text.isBlank).head? = some ','
      · obtain ⟨t, ht⟩ := List.head?_eq_some_iff.1 hcomma
        have hp : c.CharAt ',' (c.skipBlank.past [','] t) := ⟨t, (after_skipBlank c).trans ht, rfl⟩
        rw [Grammar.manyCommas_comma ht] at h
        rw [fields_comma hp]
        exact ih _ hp.length_lt h
      · rw [Grammar.manyCommas_eq hcomma, ← after_skipBlank] at h
        exact ⟨_, fields_close ⟨stop, h, rfl⟩, rfl⟩

theorem moreFields_of_commas
    (h : (Grammar.manyCommas c.after).1.dropWhile Text.isBlank = d.closing :: stop) :
    ∃ p, c.moreFields d.closing = .closed [] p ∧ p.after = stop := by
  by_cases hcomma : (c.after.dropWhile Text.isBlank).head? = some ','
  · obtain ⟨t, ht⟩ := List.head?_eq_some_iff.1 hcomma
    have hp : c.CharAt ',' (c.skipBlank.past [','] t) := ⟨t, (after_skipBlank c).trans ht, rfl⟩
    rw [Grammar.manyCommas_comma ht] at h
    rw [moreFields_comma hp]
    exact fields_of_commas h
  · rw [Grammar.manyCommas_eq hcomma, ← after_skipBlank] at h
    exact ⟨_, moreFields_closing ⟨stop, h, rfl⟩, rfl⟩

/-- A field begins with no blanks. -/
theorem skipBlank_eq_of_field {v : Text} {t : Grammar.Tree} (h : Grammar.FieldAt c.after v t) :
    c.skipBlank = c := by
  obtain ⟨x, hx, hkey⟩ := h.exists_head?
  refine skipBlank_eq_self fun y hy => ?_
  obtain rfl : x = y := Option.some.inj (hx.symm.trans hy)
  exact isBlank_of_isKeyChar x hkey

/-- The name of a field is read as one, unless its `@` begins a line. -/
theorem exists_nameAt_of_field {v : Text} {t : Grammar.Tree} (h : Grammar.FieldAt c.after v t)
    (hline : c.atLineBlock = false) :
    ∃ p, c.NameAt (c.after.takeWhile isKeyChar) p ∧ p.skipBlank.after = v := by
  have hskip := skipBlank_eq_of_field h
  obtain ⟨u, hu, rfl⟩ := h.equals
  have hequals : (c.skip isKeyChar).CharAt '=' ((c.skip isKeyChar).skipBlank.past ['='] u) :=
    ⟨u, by rw [after_skipBlank, after_skip, hu], rfl⟩
  refine ⟨_, ⟨by rwa [hskip], h.name_ne, by rw [hskip], by rw [hskip]; exact hequals⟩, ?_⟩
  rw [after_skipBlank]
  rfl

/-- **A field** of the grammar is read, and what follows it. -/
theorem decides_field {v : Text} {t : Grammar.Tree} {good : Prop} {ts : List Grammar.Tree}
    (hfield : Grammar.FieldAt c.after v t) (hends : Grammar.EndsValue t.stop)
    (hmore : ∀ q : Cursor, q.text = c.text → q.after = t.stop →
      (q.moreFields d.closing).Decides good ts stop) :
    (c.fields d.closing).Decides ((∀ w ∈ t.withInner, ¬ Text.AtLine c.text w.start) ∧ good)
      (t :: ts) stop := by
  by_cases hat : c.atLineBlock = true
  · refine .of_not (fun h => h.1 t (hfield.mem_withInner.2 (.inl rfl)) ?_) fun fs p => ?_
    · rw [hfield.start_eq]
      exact atLineBlock_iff_atLine.1 hat
    · rw [fields_ended (.inr (by rwa [skipBlank_eq_of_field hfield]))]
      exact fun h => by cases h
  have hline : ¬ Text.AtLine c.text c.after := fun h => hat (atLineBlock_iff_atLine.2 h)
  obtain ⟨p, hname, hafter⟩ := exists_nameAt_of_field hfield (by simpa using hat)
  have htext : p.text = c.text := hname.leads.text_eq
  have hvalue := value_cases hafter (by rwa [← hfield.stop_eq])
  rw [htext] at hvalue
  rw [fields_name hname]
  obtain ⟨hnot, u, q, hu, hq⟩ | ⟨⟨w, hw, hwat⟩, hfail⟩ := hvalue
  · rw [valueAndFields_read _ hu]
    have hqtext : q.text = c.text := (leads_of_value_read hu).text_eq.trans htext
    have hdecides := (hmore q hqtext (hq.trans hfield.stop_eq.symm)).cons (f := ⟨_, u⟩)
      hfield.fieldName_eq.symm
    refine hdecides.congr ⟨fun h => ⟨fun w hw => ?_, h⟩, And.right⟩
    obtain rfl | rfl | hw := hfield.mem_withInner.1 hw
    · rwa [hfield.start_eq]
    · exact hline
    · exact hnot w hw
  · refine .of_not (fun h => ?_) fun fs p' => ?_
    · exact h.1 w (hfield.mem_withInner.2 (.inr (.inr (List.mem_cons_of_mem _ hw)))) hwat
    obtain ⟨m, place, hm⟩ | ⟨u, place, hu, hend⟩ := hfail
    · rw [valueAndFields, hm]
      exact fun h => by cases h
    · rw [valueAndFields_read _ hu, moreFields, separator_ended hend]
      exact fun h => by cases h

/-- Where the next field begins, a comma may have been passed. -/
theorem fieldStart_cases (c : Cursor) :
    (∃ p, c.CharAt ',' p ∧ p.skipBlank.after = Grammar.fieldStart c.after) ∨
    (c.skipBlank.after.head? ≠ some ',' ∧ c.skipBlank.after = Grammar.fieldStart c.after) := by
  by_cases hcomma : (c.after.dropWhile Text.isBlank).head? = some ','
  · obtain ⟨t, ht⟩ := List.head?_eq_some_iff.1 hcomma
    refine .inl ⟨_, ⟨t, (after_skipBlank c).trans ht, rfl⟩, ?_⟩
    rw [Grammar.fieldStart_comma ht, after_skipBlank]
    rfl
  · rw [after_skipBlank]
    exact .inr ⟨hcomma, (Grammar.fieldStart_eq hcomma).symm⟩

theorem CharAt.commaBefore (h : c.CharAt ',' p) :
    Text.CommaBefore c.after p.skipBlank.after := by
  obtain ⟨s, hs, rfl⟩ := h
  refine ⟨c.after.takeWhile Text.isBlank ++ ',' :: s.takeWhile Text.isBlank, ?_, by simp⟩
  rw [after_skipBlank] at hs
  rw [after_skipBlank, after_past, List.append_assoc, List.cons_append,
    List.takeWhile_append_dropWhile, ← hs, List.takeWhile_append_dropWhile]

/-- There is no comma among blanks. -/
theorem not_commaBefore (c : Cursor) : ¬ Text.CommaBefore c.after c.skipBlank.after := by
  rintro ⟨u, hu, hcomma⟩
  rw [after_skipBlank] at hu
  have hblank : u = c.after.takeWhile Text.isBlank :=
    List.append_cancel_right (hu.symm.trans List.takeWhile_append_dropWhile.symm)
  rw [hblank] at hcomma
  exact absurd (Text.mem_takeWhile hcomma) (by decide)

/-- Fields that follow are separated from the first one, and from each other. -/
theorem decides_fields_cons {v : Text} {t : Grammar.Tree} {ts : List Grammar.Tree}
    (hfield : Grammar.FieldAt c.after v t) (hends : Grammar.EndsValue t.stop)
    (hmore : ∀ q : Cursor, q.text = c.text → q.after = t.stop → (q.moreFields d.closing).Decides
      ((∀ u ∈ ts.head?, Text.CommaBefore q.after u.start) ∧ Grammar.AreApart q.text ts) ts stop) :
    (c.fields d.closing).Decides (Grammar.AreApart c.text (t :: ts)) (t :: ts) stop := by
  have hmore' (q : Cursor) (htext : q.text = c.text) (hq : q.after = t.stop) :
      (q.moreFields d.closing).Decides ((∀ u ∈ ts.head?, Text.CommaBefore t.stop u.start) ∧
        Grammar.AreApart c.text ts) ts stop := by
    have h := hmore q htext hq
    rwa [hq, htext] at h
  exact (decides_field hfield hends hmore').congr Grammar.areApart_cons.symm

/-- **What follows a field** is read as the fields of the grammar are. -/
theorem decides_moreFields (hclose : Grammar.ClosesFields d c.after stop) :
    (c.moreFields d.closing).Decides
      ((∀ t ∈ (Grammar.manyFields c.after).1.head?, Text.CommaBefore c.after t.start) ∧
        Grammar.AreApart c.text (Grammar.manyFields c.after).1)
      (Grammar.manyFields c.after).1 stop := by
  induction c using (measure fun c : Cursor => c.after.length).wf.induction with
  | h c ih =>
      obtain ⟨htrees, hrest⟩ | ⟨v, t, hfield, hlt, htrees, hrest⟩ :=
        Grammar.manyFields_cases c.after
      · rw [Grammar.ClosesFields, hrest] at hclose
        rw [htrees]
        obtain ⟨p, hp, hstop⟩ := moreFields_of_commas hclose
        exact ⟨fun _ => ⟨[], p, hp, hstop, rfl⟩, fun _ _ _ => ⟨nofun, .nil _⟩⟩
      rw [Grammar.ClosesFields, hrest] at hclose
      have hclose : Grammar.ClosesFields d t.stop stop := hclose
      rw [htrees]
      obtain ⟨p, hp, hnext⟩ | ⟨hcomma, hnext⟩ := fieldStart_cases c
      · have htext : p.skipBlank.text = c.text := (hp.leads.trans (leads_skipBlank p)).text_eq
        have hbefore := hp.commaBefore
        rw [← hnext] at hfield
        rw [← hfield.start_eq] at hbefore
        rw [moreFields_comma hp, ← fields_skipBlank]
        refine (decides_fields_cons hfield (Grammar.endsValue_of_closesFields hclose)
          fun q hqtext hq => ?_).congr ?_
        · have hlt : q.after.length < c.after.length := by rwa [hq]
          have hmore := ih q hlt (by rwa [hq])
          rwa [hq] at hmore ⊢
        · rw [htext]
          exact ⟨fun h => ⟨fun u hu => by cases hu; exact hbefore, h⟩, And.right⟩
      · -- The grammar goes on with a field, the reader wants a comma.
        have hne : c.skipBlank.after.head? ≠ some d.closing := by
          obtain ⟨x, hx, hkey⟩ := hfield.exists_head?
          rw [hnext, hx]
          rintro ⟨rfl⟩
          simp [d.isKeyChar_closing] at hkey
        refine .of_not (fun h => ?_) (moreFields_ne_closed hcomma hne)
        have hbefore := h.1 t rfl
        rw [hfield.start_eq, ← hnext] at hbefore
        exact not_commaBefore c hbefore

/-- **Fields** are read as those of the grammar are. -/
theorem decides_fields (hclose : Grammar.ClosesFields d c.after stop) :
    (c.fields d.closing).Decides (Grammar.AreApart c.text (Grammar.manyFields c.after).1)
      (Grammar.manyFields c.after).1 stop := by
  obtain ⟨htrees, hrest⟩ | ⟨v, t, hfield, -, htrees, hrest⟩ := Grammar.manyFields_cases c.after
  · rw [Grammar.ClosesFields, hrest] at hclose
    rw [htrees]
    obtain ⟨p, hp, hstop⟩ := fields_of_commas hclose
    exact ⟨fun _ => ⟨[], p, hp, hstop, rfl⟩, fun _ _ _ => .nil _⟩
  · rw [Grammar.ClosesFields, hrest] at hclose
    have hclose : Grammar.ClosesFields d t.stop stop := hclose
    rw [htrees]
    obtain ⟨n, htext, hfields, hnext⟩ : ∃ n : Cursor, n.text = c.text ∧
        c.fields d.closing = n.fields d.closing ∧ n.after = Grammar.fieldStart c.after := by
      obtain ⟨p, hp, hnext⟩ | ⟨-, hnext⟩ := fieldStart_cases c
      · exact ⟨p.skipBlank, (hp.leads.trans (leads_skipBlank p)).text_eq,
          by rw [fields_comma hp, fields_skipBlank], hnext⟩
      · exact ⟨c.skipBlank, (leads_skipBlank c).text_eq, (fields_skipBlank _ c).symm, hnext⟩
    rw [← hnext] at hfield
    rw [hfields, ← htext]
    refine decides_fields_cons hfield (Grammar.endsValue_of_closesFields hclose) fun q _ hq => ?_
    have hmore := decides_moreFields (c := q) (by rwa [hq])
    rwa [hq] at hmore ⊢

end Cursor

end Bibliography
