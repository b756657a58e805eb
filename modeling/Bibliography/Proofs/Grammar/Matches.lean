import Bibliography.Proofs.Grammar.Nesting
import Bibliography.Proofs.Parse.Sound

/-!
# Bibliography.Proofs.Grammar.Matches

What the matchers of the grammar give, from the inside out: which texts a match
and what is left after it are.  What is left is a rest of the text, so a match
is a slice of it.

* `exists_segment`, `moreSegments_of_some`, `value_of_some` — values;
* `exists_of_field`, `manyFields_cases`, `manyCommas_comma` — fields (`FieldAt`);
* `entryBody_of_key`, `exists_of_entry` — entries (`EntryAt`);
* `exists_of_mem_bib` — the entries of a document.
-/

namespace Bibliography

open Scan

namespace Grammar

namespace Tree

/-- A match with those inside it: of a field, its name, its value and the segments. -/
def withInner (t : Tree) : List Tree := t :: t.children.flatMap fun u => u :: u.children

/-- The name of a field. -/
def fieldName (t : Tree) : Text := (t.children.head?.map text).getD []

theorem text_eq {t : Tree} {u : Text} (h : t.start = u ++ t.stop) : t.text = u := by
  rw [text, h]
  simp

/-- The fields of an entry. -/
def fields (t : Tree) : List Tree := t.children.filter fun u => u.rule = .field

/-- The command of an entry. -/
def command (t : Tree) : Text := (t.children.head?.map text).getD []

end Tree

variable {s stop : Text} {tree : Tree} {ts : List Tree} {d : Delimiter}

/-! ## small matches -/

theorem after_eq_some_iff {x : Char} {n : NoLonger s} {t : Shorter s} :
    after x n = some t ↔ n.1 = x :: t.1 := by
  obtain ⟨n, hn⟩ := n
  obtain ⟨t, ht⟩ := t
  unfold after
  cases n with
  | nil => simp
  | cons y n =>
      by_cases hy : y = x <;> simp [hy, Subtype.mk.injEq]

theorem after_eq_none_iff {x : Char} {n : NoLonger s} :
    after x n = none ↔ n.1.head? ≠ some x := by
  obtain ⟨n, hn⟩ := n
  unfold after
  cases n with
  | nil => simp
  | cons y n => by_cases hy : y = x <;> simp [hy]

theorem length_lt_of_ign {x : Char} {t : Text} (h : s.dropWhile Text.isBlank = x :: t) :
    t.length < s.length := by
  have hle : (s.dropWhile Text.isBlank).length ≤ s.length := (ign s).2
  rwa [h, List.length_cons] at hle

theorem word_cons (rule : Rule) (q : Char → Bool) (x : Char) (s : Text) :
    word rule q (x :: s) =
      if q x then
        some (.node rule (x :: s) (s.dropWhile q) [],
          ⟨s.dropWhile q, Nat.lt_succ_of_le (List.dropWhile_suffix _).length_le⟩)
      else none := rfl

theorem word_eq_some {rule : Rule} {q : Char → Bool} {r : Shorter s}
    (h : word rule q s = some (tree, r)) :
    s.takeWhile q ≠ [] ∧ r.1 = s.dropWhile q ∧ tree = .node rule s r.1 [] := by
  cases s with
  | nil => cases h
  | cons x s =>
      rw [word_cons] at h
      split at h
      · next hx =>
        obtain ⟨rfl, rfl⟩ := Prod.mk.inj (Option.some.inj h)
        rw [List.takeWhile_cons_of_pos hx, List.dropWhile_cons_of_pos hx]
        exact ⟨List.cons_ne_nil _ _, rfl, rfl⟩
      · cases h

theorem word_eq_none {rule : Rule} {q : Char → Bool} (h : word rule q s = none) :
    Text.Stops q s := by
  cases s with
  | nil => exact Text.stops_nil
  | cons x s =>
      rw [word_cons] at h
      split at h
      · cases h
      · next hx => exact Text.stops_cons.2 (by simpa using hx)

theorem suffix_of_dropWhile {t : Text} {x : Char} (h : s.dropWhile Text.isBlank = x :: t) :
    t <:+ s :=
  (List.suffix_cons x t).trans (h ▸ List.dropWhile_suffix _)

/-! ## segments -/

theorem exists_segment {r : Shorter s} (h : segment s = some (tree, r)) :
    tree.start = s ∧ ∃ seg : Segment, seg.IsClosed ∧ s = seg.written ++ r.1 ∧ seg.EndsAt r.1 := by
  unfold segment at h
  split at h
  · next u hu =>
    obtain ⟨rfl, rfl⟩ := Prod.mk.inj (Option.some.inj h)
    obtain ⟨t, hs, ht⟩ := group_eq_some_iff.1 hu
    exact ⟨rfl, .braced t, ht, hs.trans (by simp [Segment.written]), trivial⟩
  · split at h
    · next u hu =>
      obtain ⟨rfl, rfl⟩ := Prod.mk.inj (Option.some.inj h)
      obtain ⟨t, hs, ht⟩ := quotedText_eq_some_iff.1 hu
      exact ⟨rfl, .quoted t, Segment.isClosed_quoted_iff.2 ht,
        hs.trans (by simp [Segment.written]), trivial⟩
    · obtain ⟨hne, hr, rfl⟩ := word_eq_some h
      refine ⟨rfl, .literal (s.takeWhile isLiteralChar), Text.isRun_takeWhile hne, ?_, ?_⟩
      · rw [hr]
        exact List.takeWhile_append_dropWhile.symm
      · rw [hr]
        exact Text.stops_dropWhile _ _

theorem stops_of_segment (h : segment s = none) : Text.Stops isLiteralChar s := by
  unfold segment at h
  split at h
  · cases h
  · split at h
    · cases h
    · exact word_eq_none h

/-- What follows a value neither goes on with it nor is a segment that is not closed. -/
def EndsValue (s : Text) : Prop :=
  ∀ x ∈ (s.dropWhile Text.isBlank).head?, x ≠ '#' ∧ x ≠ '{' ∧ x ≠ '"'

theorem moreSegments_nil (h : (s.dropWhile Text.isBlank).head? ≠ some '#') :
    (moreSegments s).1 = [] ∧ (moreSegments s).2.1 = s := by
  have hafter : after '#' (ign s) = none := after_eq_none_iff.2 h
  rw [moreSegments]
  simp only [hafter, and_self]

theorem moreSegments_of_none {t : Text} (h : s.dropWhile Text.isBlank = '#' :: t)
    (ht : segment (t.dropWhile Text.isBlank) = none) :
    (moreSegments s).1 = [] ∧ (moreSegments s).2.1 = s := by
  have hafter : after '#' (ign s) = some ⟨t, length_lt_of_ign h⟩ := after_eq_some_iff.2 h
  have hsegment : segment (ign t).1 = none := ht
  rw [moreSegments]
  simp only [hafter, hsegment, and_self]

theorem moreSegments_of_some {t : Text} (h : s.dropWhile Text.isBlank = '#' :: t)
    {r : Shorter (t.dropWhile Text.isBlank)}
    (ht : segment (t.dropWhile Text.isBlank) = some (tree, r)) :
    (moreSegments s).1 = tree :: (moreSegments r.1).1 ∧
      (moreSegments s).2.1 = (moreSegments r.1).2.1 := by
  have hafter : after '#' (ign s) = some ⟨t, length_lt_of_ign h⟩ := after_eq_some_iff.2 h
  have hsegment : segment (ign t).1 = some (tree, r) := ht
  rw [moreSegments]
  simp only [hafter, hsegment, and_self]

theorem value_of_none (h : segment s = none) :
    (value s).1 = .node .value s s [] ∧ (value s).2.1 = s := by
  unfold value
  simp only [h, and_self]

theorem value_of_some {r : Shorter s} (h : segment s = some (tree, r)) :
    (value s).1 = .node .value s (moreSegments r.1).2.1 (tree :: (moreSegments r.1).1) ∧
      (value s).2.1 = (moreSegments r.1).2.1 := by
  unfold value
  simp only [h, and_self]

theorem suffix_of_segment {r : Shorter s} (h : segment s = some (tree, r)) : r.1 <:+ s := by
  obtain ⟨-, seg, -, hs, -⟩ := exists_segment h
  exact ⟨seg.written, hs.symm⟩

theorem suffix_moreSegments (s : Text) : (moreSegments s).2.1 <:+ s := by
  induction s using (measure List.length).wf.induction with
  | h s ih =>
      by_cases hhash : (s.dropWhile Text.isBlank).head? = some '#'
      · obtain ⟨t, ht⟩ := List.head?_eq_some_iff.1 hhash
        cases hsegment : segment (t.dropWhile Text.isBlank) with
        | none =>
            exact ⟨[], (moreSegments_of_none ht hsegment).2⟩
        | some m =>
            obtain ⟨tree, r⟩ := m
            rw [(moreSegments_of_some ht hsegment).2]
            have hlt : r.1.length < s.length := Nat.lt_of_lt_of_le r.2
              (Nat.le_trans (ign t).2 (Nat.le_of_lt (length_lt_of_ign ht)))
            exact (ih r.1 hlt).trans ((suffix_of_segment hsegment).trans
              ((List.dropWhile_suffix _).trans (suffix_of_dropWhile ht)))
      · exact ⟨[], (moreSegments_nil hhash).2⟩

theorem suffix_value (s : Text) : (value s).2.1 <:+ s := by
  cases hsegment : segment s with
  | none =>
      exact ⟨[], (value_of_none hsegment).2⟩
  | some m =>
      rw [(value_of_some hsegment).2]
      exact (suffix_moreSegments _).trans (suffix_of_segment hsegment)

/-! ## fields -/

/-- A field, where the text `s` begins; its value begins where `v` does. -/
structure FieldAt (s v : Text) (t : Tree) : Prop where
  name_ne : s.takeWhile isKeyChar ≠ []
  equals : ∃ u, (s.dropWhile isKeyChar).dropWhile Text.isBlank = '=' :: u ∧
    u.dropWhile Text.isBlank = v
  stop_eq : t.stop = (value v).2.1
  eq_node : t = .node .field s t.stop
    [.node .fieldName s (s.dropWhile isKeyChar) [], (value v).1]

theorem exists_of_field {r : Shorter s} (h : field s = some (tree, r)) :
    r.1 = tree.stop ∧ ∃ v, FieldAt s v tree := by
  unfold field at h
  split at h
  · cases h
  · next name u hname =>
    obtain ⟨hne, hu, rfl⟩ := word_eq_some hname
    split at h
    · cases h
    · next t ht =>
      obtain ⟨rfl, rfl⟩ := Prod.mk.inj (Option.some.inj h)
      rw [after_eq_some_iff] at ht
      refine ⟨rfl, _, hne, ⟨t.1, ?_, rfl⟩, rfl, ?_⟩
      · rw [← hu]
        exact ht
      · rw [← hu]
        rfl

namespace FieldAt

variable {v : Text} {t w : Tree}

/-- A field begins with its name. -/
theorem exists_head? (h : FieldAt s v t) : ∃ x, s.head? = some x ∧ isKeyChar x = true := by
  obtain ⟨x, u, rfl, hx⟩ := Cursor.exists_of_takeWhile_ne_nil h.name_ne
  exact ⟨x, rfl, hx⟩

theorem rule_eq (h : FieldAt s v t) : t.rule = .field := congrArg Tree.rule h.eq_node

theorem start_eq (h : FieldAt s v t) : t.start = s := congrArg Tree.start h.eq_node

theorem fieldName_eq (h : FieldAt s v t) : t.fieldName = s.takeWhile isKeyChar := by
  rw [h.eq_node]
  exact Tree.text_eq List.takeWhile_append_dropWhile.symm

/-- The matches inside a field are its name, its value and the segments. -/
theorem mem_withInner (h : FieldAt s v t) : w ∈ t.withInner ↔ w = t ∨
    w = .node .fieldName s (s.dropWhile isKeyChar) [] ∨
      w ∈ (value v).1 :: (value v).1.children := by
  have hchildren : t.children = [.node .fieldName s (s.dropWhile isKeyChar) [], (value v).1] :=
    congrArg Tree.children h.eq_node
  rw [Tree.withInner, hchildren]
  simp [Tree.children]

theorem suffix (h : FieldAt s v t) : t.stop <:+ s := by
  obtain ⟨u, hu, rfl⟩ := h.equals
  rw [h.stop_eq]
  exact (suffix_value _).trans ((List.dropWhile_suffix _).trans
    ((suffix_of_dropWhile hu).trans (List.dropWhile_suffix _)))

end FieldAt

theorem optional_eq {x : Char} (h : s.head? ≠ some x) : (optional x s).1 = s := by
  cases s with
  | nil => rfl
  | cons y s =>
      have hy : y ≠ x := fun hyx => h (congrArg some hyx)
      rw [optional, if_neg hy]

/-- Where the next field begins, after at most one comma. -/
def fieldStart (s : Text) : Text := (ign (optional ',' (ign s).1).1).1

theorem fieldStart_comma {t : Text} (h : s.dropWhile Text.isBlank = ',' :: t) :
    fieldStart s = t.dropWhile Text.isBlank := by
  have hign : (ign s).1 = ',' :: t := h
  rw [fieldStart, hign]
  rfl

theorem fieldStart_eq (h : (s.dropWhile Text.isBlank).head? ≠ some ',') :
    fieldStart s = s.dropWhile Text.isBlank := by
  have hoptional : (optional ',' (ign s).1).1 = s.dropWhile Text.isBlank := optional_eq h
  rw [fieldStart, hoptional]
  exact (Text.stops_dropWhile _ _).dropWhile_eq

theorem suffix_optional (x : Char) (s : Text) : (optional x s).1 <:+ s := by
  cases s with
  | nil => exact List.suffix_refl _
  | cons y s =>
      rw [optional]
      split
      · exact List.suffix_cons y s
      · exact List.suffix_refl _

theorem suffix_fieldStart (s : Text) : fieldStart s <:+ s :=
  (List.dropWhile_suffix _).trans ((suffix_optional _ _).trans (List.dropWhile_suffix _))

/-- There is no field, or one and those after it. -/
theorem manyFields_cases (s : Text) :
    ((manyFields s).1 = [] ∧ (manyFields s).2.1 = s) ∨
    ∃ v t, FieldAt (fieldStart s) v t ∧ t.stop.length < s.length ∧
      (manyFields s).1 = t :: (manyFields t.stop).1 ∧
      (manyFields s).2.1 = (manyFields t.stop).2.1 := by
  cases hfield : field (ign (optional ',' (ign s).1).1).1 with
  | none =>
      rw [manyFields]
      exact .inl (by simp only [hfield, and_self])
  | some m =>
      obtain ⟨t, r⟩ := m
      obtain ⟨hr, v, hat⟩ := exists_of_field hfield
      refine .inr ⟨v, t, hat, ?_, ?_⟩
      · rw [← hr]
        exact Nat.lt_of_lt_of_le r.2 (suffix_fieldStart s).length_le
      · rw [← hr, manyFields]
        simp only [hfield, and_self]

theorem suffix_manyFields (s : Text) : (manyFields s).2.1 <:+ s := by
  induction s using (measure List.length).wf.induction with
  | h s ih =>
      obtain ⟨-, hrest⟩ | ⟨v, t, hat, hlt, -, hrest⟩ := manyFields_cases s
      · exact ⟨[], hrest⟩
      · rw [hrest]
        exact (ih t.stop hlt).trans (hat.suffix.trans (suffix_fieldStart s))

theorem rule_of_mem_manyFields (s : Text) : ∀ t ∈ (manyFields s).1, t.rule = .field := by
  induction s using (measure List.length).wf.induction with
  | h s ih =>
      obtain ⟨htrees, -⟩ | ⟨v, t, hat, hlt, htrees, -⟩ := manyFields_cases s
      · rw [htrees]
        exact List.forall_mem_nil _
      · rw [htrees]
        exact List.forall_mem_cons.2 ⟨hat.rule_eq, ih t.stop hlt⟩

theorem manyCommas_eq (h : (s.dropWhile Text.isBlank).head? ≠ some ',') :
    (manyCommas s).1 = s := by
  have hafter : after ',' (ign s) = none := after_eq_none_iff.2 h
  rw [manyCommas]
  simp only [hafter]

theorem manyCommas_comma {t : Text} (h : s.dropWhile Text.isBlank = ',' :: t) :
    (manyCommas s).1 = (manyCommas t).1 := by
  have hafter : after ',' (ign s) = some ⟨t, length_lt_of_ign h⟩ := after_eq_some_iff.2 h
  rw [manyCommas]
  simp only [hafter]

theorem suffix_manyCommas (s : Text) : (manyCommas s).1 <:+ s := by
  induction s using (measure List.length).wf.induction with
  | h s ih =>
      by_cases hcomma : (s.dropWhile Text.isBlank).head? = some ','
      · obtain ⟨t, ht⟩ := List.head?_eq_some_iff.1 hcomma
        rw [manyCommas_comma ht]
        exact (ih t (length_lt_of_ign ht)).trans (suffix_of_dropWhile ht)
      · exact ⟨[], manyCommas_eq hcomma⟩

theorem suffix_fields (s : Text) : (fields s).2.1 <:+ s :=
  (List.dropWhile_suffix _).trans ((suffix_manyCommas _).trans (suffix_manyFields s))

/-! ## entries -/

theorem afterKey_eq (h : s.head? ≠ some ',') : (afterKey s).1 = [] ∧ (afterKey s).2.1 = s := by
  unfold afterKey
  split
  · simp at h
  · exact ⟨rfl, rfl⟩

/-- The body of an entry with a citation key. -/
theorem entryBody_of_key {key : Tree} {r : Shorter (ign s).1}
    (h : word .entryKey isKeyChar (ign s).1 = some (key, r))
    (hequals : (ign r.1).1.head? ≠ some '=') :
    (entryBody s).1 = key :: (afterKey (ign r.1).1).1 ∧
      (entryBody s).2.1 = (afterKey (ign r.1).1).2.1.dropWhile Text.isBlank := by
  unfold entryBody
  refine ⟨by simp only [h, if_neg hequals], ?_⟩
  change List.dropWhile Text.isBlank _ = _
  simp only [h, if_neg hequals]

/-- A name with an equals sign is no citation key. -/
theorem entryBody_of_name {key : Tree} {r : Shorter (ign s).1}
    (h : word .entryKey isKeyChar (ign s).1 = some (key, r))
    (hequals : (ign r.1).1.head? = some '=') :
    (entryBody s).1 = (keyless (ign s).1).1 ∧
      (entryBody s).2.1 = (keyless (ign s).1).2.1.dropWhile Text.isBlank := by
  unfold entryBody
  refine ⟨by simp only [h, if_pos hequals], ?_⟩
  change List.dropWhile Text.isBlank _ = _
  simp only [h, if_pos hequals]

theorem entryBody_of_none (h : word .entryKey isKeyChar (ign s).1 = none) :
    (entryBody s).1 = (keyless (ign s).1).1 ∧
      (entryBody s).2.1 = (keyless (ign s).1).2.1.dropWhile Text.isBlank := by
  unfold entryBody
  refine ⟨by simp only [h], ?_⟩
  change List.dropWhile Text.isBlank _ = _
  simp only [h]

theorem enclosed_eq_some {r : Shorter s} (h : enclosed d s = some (ts, r)) :
    ∃ t, s = d.opening :: t ∧ ts = (entryBody t).1 ∧ (entryBody t).2.1 = d.closing :: r.1 := by
  cases s with
  | nil => cases h
  | cons x t =>
      unfold enclosed at h
      dsimp only at h
      split at h
      · next hx =>
        obtain ⟨u, hu, hr⟩ := Option.map_eq_some_iff.1 h
        obtain ⟨rfl, rfl⟩ := Prod.mk.inj hr
        exact ⟨t, by rw [hx], rfl, closedBy_eq_some_iff.1 hu⟩
      · cases h

theorem suffix_afterKey (s : Text) : (afterKey s).2.1 <:+ s := by
  by_cases hcomma : s.head? = some ','
  · obtain ⟨t, rfl⟩ := List.head?_eq_some_iff.1 hcomma
    exact (suffix_fields t).trans (List.suffix_cons _ t)
  · exact ⟨[], (afterKey_eq hcomma).2⟩

theorem suffix_keyless (s : Text) : (keyless s).2.1 <:+ s :=
  (suffix_fields _).trans (suffix_optional _ s)

theorem suffix_entryBody (s : Text) : (entryBody s).2.1 <:+ s := by
  have hign : (ign s).1 <:+ s := List.dropWhile_suffix _
  have hkeyless := (List.dropWhile_suffix Text.isBlank).trans
    ((suffix_keyless (ign s).1).trans hign)
  cases hkey : word .entryKey isKeyChar (ign s).1 with
  | none => rwa [(entryBody_of_none hkey).2]
  | some m =>
      obtain ⟨key, r⟩ := m
      by_cases hequals : (ign r.1).1.head? = some '='
      · rwa [(entryBody_of_name hkey hequals).2]
      · rw [(entryBody_of_key hkey hequals).2]
        have hr : r.1 <:+ (ign s).1 := by
          rw [(word_eq_some hkey).2.1]
          exact List.dropWhile_suffix _
        exact (List.dropWhile_suffix _).trans ((suffix_afterKey _).trans
          ((List.dropWhile_suffix _).trans (hr.trans hign)))

/-- An entry with a body in brackets, in the text after its `@`. -/
structure EntryAt (u : Text) (d : Delimiter) (body : Text) (t : Tree) : Prop where
  command_ne : u.takeWhile isCommandChar ≠ []
  opening : (u.dropWhile isCommandChar).dropWhile Text.isBlank = d.opening :: body
  closing : (entryBody body).2.1 = d.closing :: t.stop
  eq_node : t = .node .entry ('@' :: u) t.stop
    (.node .command u (u.dropWhile isCommandChar) [] :: (entryBody body).1)

theorem exists_of_entry {r : Shorter s} (h : entry s = some (tree, r)) :
    r.1 = tree.stop ∧ ∃ u d body, s = '@' :: u ∧ EntryAt u d body tree := by
  unfold entry at h
  split at h
  · next u =>
    split at h
    · cases h
    · next command m hcommand =>
      obtain ⟨hne, hm, rfl⟩ := word_eq_some hcommand
      dsimp only at h
      split at h
      · next ts v henclosed =>
        obtain ⟨rfl, rfl⟩ := Prod.mk.inj (Option.some.inj h)
        obtain ⟨d, hd⟩ : ∃ d, enclosed d (ign m.1).1 = some (ts, v) := by
          obtain hbrace | ⟨-, hparen⟩ := Option.or_eq_some_iff.1 henclosed
          · exact ⟨_, hbrace⟩
          · exact ⟨_, hparen⟩
        obtain ⟨body, hbody, rfl, hclose⟩ := enclosed_eq_some hd
        refine ⟨rfl, u, d, body, rfl, hne, ?_, hclose, by rw [← hm]; rfl⟩
        rw [← hm]
        exact hbody
      · cases h
  · cases h

namespace EntryAt

variable {u body : Text} {t : Tree}

theorem start_eq (h : EntryAt u d body t) : t.start = '@' :: u := congrArg Tree.start h.eq_node

theorem children_eq (h : EntryAt u d body t) :
    t.children = .node .command u (u.dropWhile isCommandChar) [] :: (entryBody body).1 :=
  congrArg Tree.children h.eq_node

theorem command_eq (h : EntryAt u d body t) : t.command = u.takeWhile isCommandChar := by
  rw [Tree.command, h.children_eq]
  exact Tree.text_eq List.takeWhile_append_dropWhile.symm

/-- The fields are those of the body. -/
theorem fields_eq (h : EntryAt u d body t) :
    t.fields = (entryBody body).1.filter fun t => t.rule = .field := by
  rw [Tree.fields, h.children_eq]
  exact List.filter_cons_of_neg (by simp [Tree.rule])

theorem suffix (h : EntryAt u d body t) : t.stop <:+ '@' :: u := by
  have hbody : d.opening :: body <:+ u := by
    rw [← h.opening]
    exact (List.dropWhile_suffix _).trans (List.dropWhile_suffix _)
  have hstop : t.stop <:+ body :=
    (List.suffix_cons d.closing t.stop).trans (h.closing ▸ suffix_entryBody body)
  exact hstop.trans ((List.suffix_cons _ body).trans (hbody.trans (List.suffix_cons _ u)))

/-- The text of an entry, and what follows it. -/
theorem text_append_stop (h : EntryAt u d body t) : t.text ++ t.stop = '@' :: u := by
  obtain ⟨w, hw⟩ := h.suffix
  rw [Tree.text_eq (h.start_eq.trans hw.symm), hw]

end EntryAt

/-! ## blocks -/

theorem suffix_of_group {r : Shorter s} (h : group s = some r) : r.1 <:+ s := by
  obtain ⟨t, hs, -⟩ := group_eq_some_iff.1 h
  exact (List.suffix_cons '}' r.1).trans ⟨'{' :: t, hs.symm⟩

theorem suffix_of_rawBody {r : Shorter s} (h : rawBody s = some r) : r.1 <:+ s := by
  unfold rawBody at h
  split at h
  · next t =>
    rw [round_open, closedBy_eq_some_iff] at h
    obtain ⟨u, hu, -⟩ := exists_roundMany t
    have ht : (roundMany t).1 <:+ t := ⟨u, hu.symm⟩
    rw [h] at ht
    exact (List.suffix_cons ')' r.1).trans (ht.trans (List.suffix_cons '(' t))
  · exact suffix_of_group h

theorem suffix_of_keyword {w : Text} {r : NoLonger s} (h : keyword w s = some r) : r.1 <:+ s := by
  unfold keyword at h
  split at h
  · obtain rfl := Option.some.inj h
    exact List.drop_suffix _ s
  · cases h

theorem suffix_of_rawCommand {r : NoLonger s} (h : rawCommand s = some r) : r.1 <:+ s := by
  obtain h | ⟨-, h⟩ := Option.or_eq_some_iff.1 h
  · exact suffix_of_keyword h
  · obtain h | ⟨-, h⟩ := Option.or_eq_some_iff.1 h <;> exact suffix_of_keyword h

theorem raw_eq_some {r : Shorter s} (h : raw s = some (tree, r)) :
    tree = .node .raw s r.1 [] ∧ r.1 <:+ s := by
  unfold raw at h
  split at h
  · next t =>
    split at h
    · cases h
    · next u hu =>
      split at h
      · cases h
      · dsimp only at h
        split at h
        · next v hv =>
          obtain ⟨rfl, rfl⟩ := Prod.mk.inj (Option.some.inj h)
          refine ⟨rfl, (suffix_of_rawBody hv).trans ?_⟩
          exact (List.dropWhile_suffix _).trans
            ((suffix_of_rawCommand hu).trans (List.suffix_cons _ t))
        · cases h
  · cases h

theorem suffix_of_block {r : Shorter s} (h : block s = some (tree, r)) : r.1 <:+ s := by
  obtain h | ⟨-, h⟩ := Option.or_eq_some_iff.1 h
  · exact (raw_eq_some h).2
  · obtain ⟨hr, u, d, body, hs, hentry⟩ := exists_of_entry h
    rw [hr, hs]
    exact hentry.suffix

/-- A block of a document stands in its text. -/
theorem exists_of_mem_blocks {s : Text} (h : tree ∈ blocks s) :
    ∃ (v : Text) (r : Shorter v), v <:+ s ∧ block v = some (tree, r) := by
  fun_induction blocks s with
  | case1 => cases h
  | case2 c s t r hblock ih =>
      obtain rfl | h := List.mem_cons.1 h
      · exact ⟨_, r, List.suffix_refl _, hblock⟩
      · obtain ⟨v, r', hv, hv'⟩ := ih h
        exact ⟨v, r', hv.trans (suffix_of_block hblock), hv'⟩
  | case3 c s hblock ih =>
      obtain ⟨v, r, hv, hv'⟩ := ih h
      exact ⟨v, r, hv.trans (List.suffix_cons c s), hv'⟩

/-- **An entry among the matches of a document** stands in its text. -/
theorem exists_of_mem_bib {s : Text} (h : tree ∈ bib s) (hrule : tree.rule = .entry) :
    ∃ u d body, '@' :: u <:+ s ∧ EntryAt u d body tree := by
  obtain h | h := List.mem_append.1 h
  · obtain ⟨v, r, hv, hblock⟩ := exists_of_mem_blocks h
    obtain hraw | ⟨-, hentry⟩ := Option.or_eq_some_iff.1 hblock
    · rw [(raw_eq_some hraw).1] at hrule
      cases hrule
    · obtain ⟨-, u, d, body, rfl, hat⟩ := exists_of_entry hentry
      exact ⟨u, d, body, hv, hat⟩
  · rw [List.mem_singleton.1 h] at hrule
    cases hrule

end Grammar

end Bibliography
