import Bibliography.Proofs.Value.Rewriting

/-!
# Bibliography.Proofs.Value.Normalization

Steps on values keep them closed.  The steps that rewrite character by
character are in `Bibliography.Proofs.Value.Rewriting`; here are the ones that
exchange delimiters, take them away, or cut a list of authors.  An author list
is cut only where no brace is open, so each of its names can stand alone.

* `Names.passes_pieces` — the pieces of an author list leave no brace open;
* `Normalization.isClosed_value` — a step keeps a closed value closed.  The one
  step that is left out removes braces, and with them what hid a quotation mark.
-/

namespace Bibliography

open Scan

/-! ## author lists -/

namespace Names

/-- A text leaves no brace open; it may end with a backslash. -/
def Passes (k : Enclosure) (q : Quotation) (t : Text) : Prop :=
  ∃ q', pass? k.after? q t = some q' ∧ q'.depth = 0

variable {k : Enclosure} {q q' : Quotation} {s t : Text}

/-- The letters of an ` and ` and the blanks around it are no signs. -/
theorem isSign_and {b x y z e : Char} (hb : Text.isBlank b = true) (h : isAnd x y z e = true) :
    ∀ c ∈ [b, x, y, z, e], isSign c = false := by
  have hblank {c : Char} (hc : Text.isBlank c = true) : isSign c = false :=
    isSign_of_isWhiteSpace (Unicode.isWhiteSpace_of_isBlank hc)
  have hletter {c d : Char} (hc : c.toLower = d) (hd : d ∈ ['a', 'n', 'd']) : isSign c = false := by
    subst hc
    apply Bool.eq_false_iff.2
    intro hs
    have hsigns := mem_of_isSign hs
    simp only [List.mem_cons, List.not_mem_nil, or_false] at hsigns
    obtain rfl | rfl | rfl | rfl := hsigns <;> revert hd <;> decide
  simp only [isAnd, Bool.and_eq_true, decide_eq_true_eq] at h
  obtain ⟨⟨⟨hx, hy⟩, hz⟩, he⟩ := h
  simp only [List.mem_cons, List.not_mem_nil, or_false, forall_eq_or_imp, forall_eq]
  exact ⟨hblank hb, hletter hx (by decide), hletter hy (by decide), hletter hz (by decide),
    hblank he⟩

theorem passes_cons {c : Char} (hc : k.after? q c = some q') (h : Passes k q' t) :
    Passes k q (c :: t) := by
  obtain ⟨p, hp, hdepth⟩ := h
  exact ⟨p, by rw [pass?_cons, hc, Option.bind_some, hp], hdepth⟩

/-- A character in front of pieces of which the first one goes on from it. -/
theorem passes_consFirst {c : Char} {ws : List Text} (hc : k.after? q c = some q')
    (h : ∃ w vs, ws = w :: vs ∧ Passes k q' w ∧ ∀ v ∈ vs, Passes k .bare v) :
    ∃ w vs, consFirst c ws = w :: vs ∧ Passes k q w ∧ ∀ v ∈ vs, Passes k .bare v := by
  obtain ⟨w, vs, rfl, hw, hvs⟩ := h
  exact ⟨c :: w, vs, rfl, passes_cons hc hw, hvs⟩

/-- **The pieces of an author list leave no brace open** if the list does not; the
first piece goes on from what precedes the list. -/
theorem passes_pieces {depth : Nat} (h : pass? k.after? q s = some q') (hq : q.depth = depth)
    (hq' : q'.depth = 0) :
    ∃ w vs, pieces depth s = w :: vs ∧ Passes k q w ∧ ∀ v ∈ vs, Passes k .bare v := by
  fun_induction pieces depth s generalizing q with
  | case1 depth =>
      cases h
      exact ⟨[], [], rfl, ⟨q', rfl, hq'⟩, List.forall_mem_nil _⟩
  | case2 depth b a n d e s hcut ih =>
      obtain ⟨hdepth, hb, hand⟩ := hcut
      have hsigns := isSign_and hb hand
      have hbare : pass? k.after? q [b, a, n, d, e] = some .bare := by
        rw [Enclosure.pass?_of_isSign_of_ne_nil (List.cons_ne_nil _ _) hsigns, hq, hdepth]
      have hsplit : b :: a :: n :: d :: e :: s = [b, a, n, d, e] ++ s := rfl
      rw [hsplit, pass?_append, hbare, Option.bind_some] at h
      obtain ⟨w, vs, hws, hw, hvs⟩ := ih h rfl
      exact ⟨[], _, rfl, ⟨q, rfl, hq.trans hdepth⟩, hws ▸ List.forall_mem_cons.2 ⟨hw, hvs⟩⟩
  | case3 depth b a n d e s hcut ih =>
      rw [pass?_cons] at h
      obtain ⟨q₁, hb, hs⟩ := Option.bind_eq_some_iff.1 h
      exact passes_consFirst hb (ih hs (by rw [Enclosure.depth_of_after? hb, hq]))
  | case4 depth c s hshort ih =>
      rw [pass?_cons] at h
      obtain ⟨q₁, hc, hs⟩ := Option.bind_eq_some_iff.1 h
      exact passes_consFirst hc (ih hs (by rw [Enclosure.depth_of_after? hc, hq]))

/-- White space at the ends of a text does not matter for its braces. -/
theorem passes_strip (h : Passes k .bare t) : Passes k .bare t.strip := by
  obtain ⟨u, w, ht, hu, hw⟩ := Text.exists_trim Unicode.isWhiteSpace t
  obtain ⟨q, hq, hdepth⟩ := h
  rw [ht, List.append_assoc, pass?_append,
    Enclosure.pass?_of_isSign fun x hx => isSign_of_isWhiteSpace (hu x hx), Option.bind_some] at hq
  obtain ⟨q₁, ht, hw'⟩ := pass?_of_append hq
  refine ⟨q₁, ht, ?_⟩
  cases w with
  | nil =>
      cases hw'
      exact hdepth
  | cons x w =>
      rw [Enclosure.pass?_of_isSign_of_ne_nil (List.cons_ne_nil _ _)
        fun x hx => isSign_of_isWhiteSpace (hw x hx)] at hw'
      cases hw'
      exact hdepth

/-- The names of an author list leave no brace open. -/
theorem passes_split (h : k.Closes t) : ∀ w ∈ split t, Passes k .bare w := by
  obtain ⟨q, ht, hq, -⟩ := h
  obtain ⟨w, vs, hws, hw, hvs⟩ := passes_pieces ht rfl hq
  intro v hv
  obtain ⟨u, hu, rfl⟩ := List.mem_map.1 (List.mem_filter.1 hv).1
  rw [hws] at hu
  exact passes_strip (List.forall_mem_cons.2 ⟨hw, hvs⟩ u hu)

theorem join_cons_others (w : Text) (ns : List Text) :
    join (w :: ns ++ [others]) = w ++ (" and ".toList ++ join (ns ++ [others])) := by
  unfold join
  cases ns <;> simp [Text.joinWith]

/-- Names with the placeholder after them are an author list that is closed. -/
theorem pass?_join {ns : List Text} (h : ∀ w ∈ ns, Passes k .bare w) :
    pass? k.after? .bare (join (ns ++ [others])) = some .bare := by
  induction ns with
  | nil =>
      have hothers : ∀ x ∈ others, Scan.isSign x = false := by simp [others, Scan.isSign]
      exact Enclosure.pass?_of_isSign hothers k 0
  | cons w ns ih =>
      obtain ⟨⟨q, hq, hdepth⟩, hns⟩ := List.forall_mem_cons.1 h
      have hand : pass? k.after? q " and ".toList = some .bare := by
        rw [Enclosure.pass?_of_isSign_of_ne_nil (by decide) (by simp [Scan.isSign]), hdepth]
      rw [join_cons_others, pass?_append, hq, Option.bind_some, pass?_append, hand, Option.bind_some]
      exact ih hns

end Names

namespace Normalization

variable {k : Enclosure} {t : Text}

/-- **An author list that is cut** is closed where it was. -/
theorem closes_truncateAuthors (limit : Nat) (h : k.Closes t) :
    k.Closes (truncateAuthors limit t) := by
  unfold truncateAuthors
  dsimp only
  split
  · exact h
  · refine ⟨_, Names.pass?_join fun w hw => ?_, Enclosure.closesIn_bare k⟩
    exact Names.passes_split h w (List.mem_of_mem_take (List.mem_filter.1 hw).1)

/-! ## delimiters -/

/-- A pair of braces around a closed text is closed. -/
theorem closes_braces (h : k.Closes t) : k.Closes ('{' :: t ++ ['}']) := by
  obtain ⟨⟨n, e⟩, ht, rfl, -⟩ := h
  have hopen : k.after? .bare '{' = some ⟨1, false⟩ := by simp [Enclosure.after?]
  have hclose : k.after? ⟨1, e⟩ '}' = some .bare := by simp [Enclosure.after?]
  have hinside : pass? k.after? ⟨1, false⟩ t = some ⟨1, e⟩ :=
    Enclosure.pass?_deeper (fun h => h) ht 1
  refine ⟨.bare, ?_, Enclosure.closesIn_bare k⟩
  rw [List.cons_append, pass?_cons, hopen, Option.bind_some, pass?_append, hinside,
    Option.bind_some, pass?_cons, hclose]
  rfl

theorem isClosed_toBraced {s : Segment} (h : s.IsClosed) : (toBraced s).IsClosed := by
  cases s with
  | literal t => exact h
  | braced t => exact h
  | quoted t =>
      have hmarks : Enclosure.marks.Closes t := (Segment.isClosed_iff_closes rfl).1 h
      exact (Segment.isClosed_iff_closes rfl).2 (Enclosure.closes_of_marks hmarks .braces)

/-! ## bare tokens -/

/-- Digits are a bare token. -/
theorem isRun_of_isDigits (h : Text.isDigits t = true) : Text.IsRun isLiteralChar t := by
  simp only [Text.isDigits, Bool.and_eq_true, decide_eq_true_eq, List.all_eq_true] at h
  exact ⟨h.1, fun x hx => isLiteralChar_of_isKeyChar (isKeyChar_of_isDigit (h.2 x hx))⟩

/-- The macro of a month has letters only, up to case folding. -/
theorem isLetterlike_of_isMonth (h : MacroTable.isMonth t = true) :
    t ≠ [] ∧ ∀ x ∈ t, Unicode.IsLetterlike x := by
  have hnames : ∀ m ∈ MacroTable.months, m.1.caseFold ≠ [] ∧
      ∀ x ∈ m.1.caseFold, Unicode.IsLetterlike x := by
    have hall : (MacroTable.months.all fun m => m.1.caseFold ≠ [] &&
        m.1.caseFold.all fun x => decide (Unicode.IsLetterlike x)) = true := by
      decide +kernel
    simpa only [List.all_eq_true, Bool.and_eq_true, decide_eq_true_eq] using hall
  unfold MacroTable.isMonth MacroTable.get? at h
  obtain ⟨m, hm⟩ := Option.isSome_iff_exists.1 (Option.isSome_map.symm.trans h)
  have hfold : m.1.caseFold = t.caseFold := by
    simpa [Text.eqIgnoreCase] using List.find?_some hm
  obtain ⟨hne, hletters⟩ := hnames m (List.mem_of_find?_eq_some hm)
  rw [hfold] at hne hletters
  refine ⟨?_, fun x hx => Decidable.byContradiction fun hl => ?_⟩
  · rintro rfl
    exact hne rfl
  · exact hl (hletters x (Text.mem_caseFold hx hl))

/-- The macro of a month is a bare token, in lower case too. -/
theorem isRun_of_isMonth (h : MacroTable.isMonth t = true) : Text.IsRun isLiteralChar t.toLower := by
  obtain ⟨hne, hletters⟩ := isLetterlike_of_isMonth h
  refine ⟨Text.toLower_ne_nil hne, fun x hx => ?_⟩
  have hx : Unicode.IsLetterlike x := by
    obtain hx | hx := Text.mem_toLower hx
    · exact hletters x hx
    · exact hx
  exact isLiteralChar_of_isKeyChar (isKeyChar_of_isLetterlike hx)

theorem isClosed_toLiteral (month : Bool) {s : Segment} (h : s.IsClosed) :
    (toLiteral month s).IsClosed := by
  unfold toLiteral
  dsimp only
  split
  · next hdigits => exact isRun_of_isDigits hdigits
  · split
    · next hmonth => exact isRun_of_isMonth (Bool.and_eq_true_iff.1 hmonth).2
    · exact h

/-! ## values -/

variable {v : Value}

/-- Another text in the same delimiters is closed where its enclosure closes. -/
theorem isClosed_withText {g : Text → Text} {s : Segment}
    (hg : ∀ (k : Enclosure) t, k.Closes t → k.Closes (g t)) (hs : s.isDelimited = true)
    (h : s.IsClosed) : (s.withText (g s.text)).IsClosed := by
  obtain ⟨k, hk⟩ := Segment.exists_enclosure?_of_isDelimited hs
  apply (Segment.isClosed_iff_closes (k := k) (by rw [Segment.enclosure?_withText, hk])).2
  rw [Segment.text_withText]
  exact hg k _ ((Segment.isClosed_iff_closes hk).1 h)

/-- A closed value stays closed if every text between delimiters does. -/
theorem isClosed_mapDelimited {g : Text → Text}
    (hg : ∀ (k : Enclosure) t, k.Closes t → k.Closes (g t)) (hv : v.IsClosed) :
    (v.mapDelimited g).IsClosed := by
  intro s hs
  obtain ⟨u, hu, rfl⟩ := List.mem_map.1 hs
  split
  · next hdelimited => exact isClosed_withText hg hdelimited (hv u hu)
  · exact hv u hu

/-- A closed value stays closed if its one segment does. -/
theorem isClosed_mapSole {g : Segment → Segment}
    (hg : ∀ s : Segment, s.isDelimited = true → s.IsClosed → (g s).IsClosed) (hv : v.IsClosed) :
    (v.mapSole g).IsClosed := by
  unfold Value.mapSole
  split
  · next s hs =>
    obtain ⟨rfl, hdelimited⟩ := Value.sole?_eq_some_iff.1 hs
    exact List.forall_mem_singleton.2 (hg s hdelimited (hv s List.mem_cons_self))
  · exact hv

/-- **Steps keep a closed value closed**, but for the removal of braces. -/
theorem isClosed_value {n : Normalization} (hn : n ≠ .stripEnclosingBraces) {f : Field}
    (h : f.value.IsClosed) : (n.value f).IsClosed := by
  cases n with
  | stripEnclosingBraces => contradiction
  | curly =>
      intro s hs
      obtain ⟨u, hu, rfl⟩ := List.mem_map.1 hs
      exact isClosed_toBraced (h u hu)
  | numeric => exact isClosed_mapSole (fun s _ hs => isClosed_toLiteral _ hs) h
  | dropAllCaps =>
      rw [value]
      split
      · exact h
      · refine isClosed_mapDelimited (fun k t ht => ?_) h
        split
        · exact Capitals.closes_titleCase ht
        · exact ht
  | escape =>
      rw [value]
      split
      · exact h
      · exact isClosed_mapDelimited (fun _ _ => Latex.closes_escape) h
  | encodeUrls =>
      rw [value]
      split
      · exact isClosed_mapDelimited (fun _ _ => Url.closes_encode) h
      · exact h
  | maxAuthors limit =>
      rw [value]
      split
      · exact isClosed_mapSole
          (fun s => isClosed_withText fun _ _ => closes_truncateAuthors limit) h
      · exact h
  | enclosingBraces names =>
      rw [value]
      split
      · refine isClosed_mapSole (fun s hdelimited hs => ?_) h
        unfold addBraces
        split
        · exact hs
        · exact isClosed_withText (g := fun t => '{' :: t ++ ['}'])
            (fun _ _ => closes_braces) hdelimited hs
      · exact h

end Normalization

end Bibliography
