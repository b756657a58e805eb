import Mathlib.Data.List.Basic
import Bibliography.Proofs.Grammar.Nesting
import Bibliography.Proofs.Names

/-!
# Bibliography.Proofs.Value.Authors

The names of an author list that was cut off.  A name is cut out of a list without an
` and ` in it, but it can end with the word `and`: the name is trimmed of all white
space, and what stood after the word need not be a blank (`Names.EndsAnd`).  Joined
again, such a name is cut in front of the word, and every other one is found again.

* `Names.isName_iff` — the names that can stand in front of a blank;
* `Names.split_join_iff` — joined names are found again exactly if none of them ends
  with the word;
* `Names.exists_split_group` — a group in braces is in one name;
* `Normalization.split_maxAuthors_iff` — what a limit leaves of a field.
-/

namespace Bibliography

namespace Names

variable {d : Nat} {b c : Char} {r s t u v w : Text} {ns : List Text}

/-! ## one piece -/

theorem startsAnd_append_of (h : startsAnd s = true) (t : Text) : startsAnd (s ++ t) = true := by
  obtain ⟨b, a, n, x, e, r, rfl, hb, hand⟩ := startsAnd_iff.1 h
  exact startsAnd_iff.2 ⟨b, a, n, x, e, r ++ t, rfl, hb, hand⟩

/-- What stands at the front of one piece is one. -/
theorem pieces_of_append (h : pieces d (w ++ t) = [w ++ t]) : pieces d w = [w] := by
  induction w generalizing d with
  | nil => rw [pieces]
  | cons c w ih =>
      obtain ⟨hand, hrest⟩ := pieces_cons_eq_singleton_iff.1 h
      refine pieces_cons_eq_singleton_iff.2 ⟨fun h => hand ⟨h.1, ?_⟩, ih hrest⟩
      exact startsAnd_append_of h.2 t

/-- What stands in front of a blank in one piece is a name. -/
theorem isName_of_append_cons (hb : Text.isBlank b = true)
    (h : pieces d (w ++ b :: r) = [w ++ b :: r]) : IsName d w := by
  induction w generalizing d with
  | nil => exact isName_nil d
  | cons c w ih =>
      rw [List.cons_append] at h
      obtain ⟨hand, hrest⟩ := pieces_cons_eq_singleton_iff.1 h
      rw [startsAnd_append hb (show Text.isBlank ' ' = true from rfl) c w r []] at hand
      exact isName_cons.2 ⟨hand, ih hrest⟩

/-- The last word of a text is an `and` outside of braces, with a blank before it. -/
def EndsAnd (d : Nat) (w : Text) : Prop :=
  ∃ (u : Text) (b a n x : Char), w = u ++ [b, a, n, x] ∧ Text.isBlank b = true ∧
    isAnd a n x ' ' = true ∧ u.foldl depthAfter d = 0

/-- **A text is a name** if it is one piece that does not end with the word. -/
theorem isName_iff : IsName d w ↔ pieces d w = [w] ∧ ¬ EndsAnd d w := by
  constructor
  · intro h
    refine ⟨pieces_of_append h, ?_⟩
    rintro ⟨u, b, a, n, x, rfl, hb, hand, hdepth⟩
    have hstart : startsAnd (b :: [a, n, x, ' ']) = true :=
      startsAnd_iff.2 ⟨b, a, n, x, ' ', [], rfl, hb, hand⟩
    have hone : pieces d (u ++ b :: [a, n, x, ' ']) = [u ++ b :: [a, n, x, ' ']] := by
      simpa [IsName] using h
    rw [pieces_append (isName_of_append_cons hb hone) hdepth hstart] at hone
    exact absurd (List.cons.inj hone).2 (pieces_ne_nil _ _)
  · rintro ⟨hone, hend⟩
    obtain h | ⟨u, b, r, hsplit, hstart, hu, hdepth, -⟩ := pieces_cases d (w ++ [' '])
    · exact h
    · obtain ⟨b, a, n, x, e, r, hr, hb, hand⟩ := startsAnd_iff.1 hstart
      rw [hr] at hsplit hstart
      obtain rfl | ⟨r, y, rfl⟩ := List.eq_nil_or_concat' r
      · -- The blank that was appended ends the word.
        have heq : w ++ [' '] = (u ++ [b, a, n, x]) ++ [e] := hsplit.trans (by simp)
        obtain ⟨rfl, he⟩ := List.append_inj' heq rfl
        obtain rfl := List.singleton_inj.1 he
        exact absurd ⟨u, b, a, n, x, rfl, hb, hand, hdepth⟩ hend
      · -- The word stands in the piece, which would be cut there.
        have heq : w ++ [' '] = (u ++ b :: a :: n :: x :: e :: r) ++ [y] :=
          hsplit.trans (by simp)
        obtain ⟨rfl, -⟩ := List.append_inj' heq rfl
        have hcut : startsAnd (b :: a :: n :: x :: e :: r) = true :=
          startsAnd_iff.2 ⟨b, a, n, x, e, r, rfl, hb, hand⟩
        rw [pieces_append hu hdepth hcut] at hone
        exact absurd (List.cons.inj hone).2 (pieces_ne_nil _ _)

/-! ## names that are cut out -/

/-- A name as it is cut out of a list in front of an ` and `. -/
structure IsCutOut (w : Text) : Prop where
  pieces : pieces 0 w = [w]
  depth : w.foldl depthAfter 0 = 0
  trimmed : w.strip = w
  ne_nil : w ≠ []

theorem IsCutOut.standsAlone_iff (h : IsCutOut w) : StandsAlone w ↔ ¬ EndsAnd 0 w :=
  ⟨fun hw => (isName_iff.1 hw.isName).2,
    fun hend => ⟨isName_iff.2 ⟨h.pieces, hend⟩, h.depth, h.trimmed, h.ne_nil⟩⟩

theorem isCutOut_strip (hw : IsName 0 w) (hdepth : w.foldl depthAfter 0 = 0)
    (hne : w.strip ≠ []) : IsCutOut w.strip := by
  obtain ⟨v, hname, -, hzero⟩ := exists_isName_strip hw hdepth
  exact ⟨pieces_of_append (isName_iff.1 hname).1, hzero, Text.trim_trim _ w, hne⟩

/-- **Every name but the last one** is cut out. -/
theorem isCutOut_of_mem_dropLast (hw : w ∈ (split t).dropLast) : IsCutOut w := by
  obtain ⟨v, rfl, hne, hv, hdepth, -⟩ := exists_of_mem_dropLast hw
  exact isCutOut_strip hv hdepth hne

/-! ## joining names again -/

/-- The word of a trimmed text is not its first one. -/
theorem strip_ne_nil (hw : (u ++ b :: r).strip = u ++ b :: r) (hb : Text.isBlank b = true) :
    u.strip ≠ [] := by
  intro hnil
  obtain ⟨v, v', hsplit, hv, hv'⟩ := Text.exists_trim Unicode.isWhiteSpace u
  have hstops : Text.Stops Unicode.isWhiteSpace (u ++ b :: r) :=
    hw ▸ Text.stops_trim Unicode.isWhiteSpace (u ++ b :: r)
  have hwhite : ∀ x ∈ u ++ [b], Unicode.isWhiteSpace x = true := by
    rw [hsplit, show Text.trim Unicode.isWhiteSpace u = [] from hnil, List.append_nil]
    simpa [or_imp, forall_and, Unicode.isWhiteSpace_of_isBlank hb] using And.intro hv hv'
  cases u with
  | nil => simp [hwhite b (by simp)] at hstops
  | cons x u => simp [hwhite x (by simp)] at hstops

/-- A name that ends with the word is cut in front of it. -/
theorem head?_split_of_endsAnd (hw : IsCutOut w) (hend : EndsAnd 0 w) (r : Text) :
    (split (w ++ ' ' :: r)).head? ≠ some w := by
  obtain ⟨u, b, a, n, x, rfl, hb, hand, hdepth⟩ := hend
  have hname : IsName 0 u := isName_of_append_cons (r := [a, n, x]) hb hw.pieces
  have hstart : startsAnd (b :: a :: n :: x :: ' ' :: r) = true :=
    startsAnd_iff.2 ⟨b, a, n, x, ' ', _, rfl, hb, hand⟩
  have hne : u.strip ≠ [] := strip_ne_nil hw.trimmed hb
  rw [List.append_assoc, List.cons_append, List.cons_append, List.cons_append, List.cons_append,
    List.nil_append, split_of_cut hstart hname hdepth, List.filter_cons_of_pos (by simpa using hne)]
  intro heq
  have hlength := congrArg List.length (Option.some.inj heq)
  have hle : u.strip.length ≤ u.length := Text.length_trim_le _ u
  rw [List.length_append] at hlength
  simp only [List.length_cons, List.length_nil] at hlength
  omega

/-- The first name of joined names is cut off, if it can stand alone. -/
theorem split_join_cons (hw : StandsAlone w) (ns : List Text) :
    split (join (w :: ns ++ [others])) = w :: split (join (ns ++ [others])) := by
  have hand : startsAnd (' ' :: ("and ".toList ++ join (ns ++ [others]))) = true := by
    simp [startsAnd, isAnd, Text.isBlank]
  rw [join_cons_others]
  refine (split_of_cut hand hw.isName hw.depth).trans ?_
  rw [hw.trimmed, List.filter_cons_of_pos (by simpa using hw.ne_nil)]
  rfl

/-- **Joined names are found again** exactly if none of them ends with the word. -/
theorem split_join_iff (h : ∀ w ∈ ns, IsCutOut w) :
    split (join (ns ++ [others])) = ns ++ [others] ↔ ∀ w ∈ ns, ¬ EndsAnd 0 w := by
  refine ⟨fun hsplit => ?_, fun hend => split_join fun w hw => ?_⟩
  · induction ns with
    | nil => exact List.forall_mem_nil _
    | cons w ns ih =>
        obtain ⟨hw, hns⟩ := List.forall_mem_cons.1 h
        have hfirst : ¬ EndsAnd 0 w := by
          intro hend
          refine head?_split_of_endsAnd hw hend ("and ".toList ++ join (ns ++ [others])) ?_
          rw [join_cons_others] at hsplit
          exact congrArg List.head? hsplit
        rw [split_join_cons (hw.standsAlone_iff.2 hfirst)] at hsplit
        exact List.forall_mem_cons.2 ⟨hfirst, ih hns (List.cons.inj hsplit).2⟩
  · exact (h w hw).standsAlone_iff.2 (hend w hw)

/-! ## groups in braces -/

/-- A brace is no part of an ` and `. -/
theorem four_le_of_startsAnd (h : startsAnd (c :: (u ++ '{' :: r)) = true) : 4 ≤ u.length := by
  obtain ⟨b, a, n, x, e, r', heq, -, hand⟩ := startsAnd_iff.1 h
  simp only [isAnd, Bool.and_eq_true, decide_eq_true_eq] at hand
  obtain ⟨⟨⟨ha, hn⟩, hx⟩, he⟩ := hand
  have hrest := (List.cons.inj heq).2
  rcases u with _ | ⟨y₁, _ | ⟨y₂, _ | ⟨y₃, _ | ⟨y₄, u⟩⟩⟩⟩ <;>
    simp only [List.cons_append, List.nil_append, List.cons.injEq] at hrest
  · exact absurd (hrest.1 ▸ ha) (by decide)
  · exact absurd (hrest.2.1 ▸ hn) (by decide)
  · exact absurd (hrest.2.2.1 ▸ hx) (by decide)
  · exact absurd (hrest.2.2.2.1 ▸ he) (by decide)
  · simp

theorem exists_mem_consFirst {ws : List Text} (hw : w ∈ ws) (c : Char) :
    ∃ w' ∈ consFirst c ws, w <:+: w' := by
  cases ws with
  | nil => cases hw
  | cons v ws =>
      obtain rfl | hw := List.mem_cons.1 hw
      · exact ⟨c :: w, List.mem_cons_self, [c], [], by simp⟩
      · exact ⟨w, List.mem_cons_of_mem _ hw, List.infix_rfl⟩

/-- **A group in braces** is in one piece. -/
theorem exists_piece_group (ht : t.IsBalanced) (d : Nat) (u v : Text) :
    ∃ w ∈ pieces d (u ++ '{' :: (t ++ '}' :: v)), '{' :: t ++ ['}'] <:+: w := by
  cases u with
  | nil =>
      obtain ⟨w, ws, hclose⟩ := List.exists_cons_of_ne_nil (pieces_ne_nil (d + 1) ('}' :: v))
      obtain ⟨e, hpass⟩ := (Scan.Enclosure.exists_pass?_braces false).1 (ht.depth?_eq d)
      have hpieces : pieces (d + 1) (t ++ '}' :: v) = (t ++ w) :: ws := pieces_inside hpass hclose
      obtain ⟨v', vs, hv⟩ := List.exists_cons_of_ne_nil (pieces_ne_nil d v)
      have hbrace {x : Char} (hx : Text.isBlank x = false) (r : Text) :
          ¬ startsAnd (x :: r) = true := fun h => by simp [isBlank_of_startsAnd h] at hx
      rw [pieces_cons, if_neg fun h => hbrace rfl v h.2,
        show depthAfter (d + 1) '}' = d from rfl, hv] at hclose
      obtain ⟨rfl, rfl⟩ := List.cons.inj hclose
      rw [List.nil_append, pieces_cons, if_neg fun h => hbrace rfl _ h.2,
        show depthAfter d '{' = d + 1 from rfl, hpieces]
      exact ⟨_, List.mem_cons_self, [], v', by simp⟩
  | cons c u =>
      rw [List.cons_append, pieces_cons]
      split
      · next hand =>
        have hfour := four_le_of_startsAnd hand.2
        obtain ⟨w, hw, hgroup⟩ := exists_piece_group ht 0 (u.drop 4) v
        refine ⟨w, List.mem_cons_of_mem _ ?_, hgroup⟩
        rwa [List.drop_append_of_le_length hfour]
      · obtain ⟨w, hw, hgroup⟩ := exists_piece_group ht (depthAfter d c) u v
        obtain ⟨w', hw', hinfix⟩ := exists_mem_consFirst hw c
        exact ⟨w', hw', hgroup.trans hinfix⟩
termination_by u.length

/-- **A group in braces** is in one name. -/
theorem exists_split_group (ht : t.IsBalanced) (u v : Text) :
    ∃ w ∈ split (u ++ '{' :: t ++ '}' :: v), '{' :: t ++ ['}'] <:+: w := by
  obtain ⟨w, hw, hgroup⟩ := exists_piece_group ht 0 u v
  have hstrip : '{' :: t ++ ['}'] <:+: w.strip := by
    refine Text.infix_trim hgroup (List.cons_ne_nil _ _) (Text.stops_cons.2 rfl) ?_
    rw [List.reverse_append]
    exact Text.stops_cons.2 rfl
  have hne : w.strip ≠ [] := by
    intro hnil
    simp [hnil] at hstrip
  refine ⟨w.strip, List.mem_filter.2 ⟨List.mem_map_of_mem ?_, by simpa using hne⟩, hstrip⟩
  simpa using hw

end Names

/-! ## fields -/

namespace Normalization

open Names

/-- **What a limit leaves of an author list.**  A list that has no more names is kept.  Of a longer
one the first names are left but for the placeholder, which comes after them; they are the names of
the new list exactly if none of them ends with the word `and`, and so it is where all white space is
blank.  No group in braces is cut, in no list. -/
theorem split_maxAuthors_iff (limit : Nat) {f : Field} {s : Segment}
    (hname : f.isNamed "author".toList = true) (hs : f.value.sole? = some s) :
    ((split s.text).length ≤ limit → (maxAuthors limit).apply f = (f, false)) ∧
    (limit < (split s.text).length → ∃ t, (maxAuthors limit).value f = [s.withText t] ∧
      (split t = ((split s.text).take limit).filter (!isOthers ·) ++ [others] ↔
        ∀ w ∈ ((split s.text).take limit).filter (!isOthers ·), ¬ EndsAnd 0 w) ∧
      ((∀ x ∈ s.text, Unicode.isWhiteSpace x = true → Text.isBlank x = true) →
        ∀ w ∈ ((split s.text).take limit).filter (!isOthers ·), ¬ EndsAnd 0 w)) ∧
    ∀ u t v : Text, t.IsBalanced →
      ∃ w ∈ split (u ++ '{' :: t ++ '}' :: v), '{' :: t ++ ['}'] <:+: w := by
  have hvalue : (maxAuthors limit).value f = [s.withText (truncateAuthors limit s.text)] := by
    refine (if_pos hname).trans ?_
    rw [Value.mapSole, hs]
  refine ⟨fun hshort => ?_, fun hlong => ?_, fun u t v ht => exists_split_group ht u v⟩
  · have hsame : (maxAuthors limit).value f = f.value := by
      rw [hvalue, truncateAuthors_of_isShort (.inl hshort), Segment.withText_text]
      exact (Value.sole?_eq_some_iff.1 hs).1.symm
    simp [apply, hsame]
  · have hcut : truncateAuthors limit s.text = join (kept limit s.text ++ [others]) :=
      if_neg (Nat.not_le.2 hlong)
    have hwhole : ∀ w ∈ kept limit s.text, IsCutOut w := fun w hw =>
      isCutOut_of_mem_dropLast (mem_dropLast_of_mem_kept hlong hw)
    refine ⟨_, hvalue, ?_, fun hblank w hw => ?_⟩
    · rw [hcut]
      exact split_join_iff hwhole
    · obtain ⟨hshort, -⟩ | ⟨-, -, hsplit⟩ := truncateAuthors_cases hblank (l := limit)
      · omega
      · rw [hcut] at hsplit
        exact (split_join_iff hwhole).1 hsplit w hw

/-- A group with an ` and ` is one name, and a placeholder among the first names is dropped. -/
theorem split_maxAuthors_iff_group :
    let s : Segment := .braced "A. Ng and Others and \x7bBarnes and Noble\x7d and X".toList
    let f : Field := ⟨"Author".toList, [s]⟩
    f.isNamed "author".toList = true ∧ f.value.sole? = some s ∧ 3 < (split s.text).length ∧
      (∀ x ∈ s.text, Unicode.isWhiteSpace x = true → Text.isBlank x = true) ∧
      ∃ t, (maxAuthors 3).value f = [s.withText t] ∧
        split t = ["A. Ng".toList, "\x7bBarnes and Noble\x7d".toList, "others".toList] := by
  intro s f
  have hname : f.isNamed "author".toList = true := by decide
  have hs : f.value.sole? = some s := rfl
  have hlong : 3 < (split s.text).length := by decide +kernel
  have hblank : ∀ x ∈ s.text, Unicode.isWhiteSpace x = true → Text.isBlank x = true := by decide
  obtain ⟨t, hvalue, hiff, hend⟩ := (split_maxAuthors_iff 3 hname hs).2.1 hlong
  refine ⟨hname, hs, hlong, hblank, t, hvalue, ?_⟩
  rw [hiff.2 (hend hblank)]
  decide +kernel

/-- A no-break space keeps the word `and` in a name, and is trimmed: the word is read as the one
between two names. -/
theorem split_maxAuthors_trimmed :
    let s : Segment := .braced "Y and\u00a0 and Z".toList
    let f : Field := ⟨"author".toList, [s]⟩
    split s.text = ["Y and".toList, ['Z']] ∧
      (maxAuthors 1).value f = [s.withText "Y and and others".toList] ∧
      split "Y and and others".toList = [['Y'], "and others".toList] ∧
      split "Y and and others".toList ≠
        ((split s.text).take 1).filter (!isOthers ·) ++ [others] := by
  decide +kernel

end Normalization

end Bibliography
