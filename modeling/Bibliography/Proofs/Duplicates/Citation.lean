import Mathlib.Data.List.Sort
import Bibliography.Duplicates.Signature
import Bibliography.Parse.Document
import Bibliography.Proofs.Sort.Stable
import Bibliography.Proofs.Text.Split
import Bibliography.Proofs.Unicode.Case

/-!
# Bibliography.Proofs.Duplicates.Citation

What two entries have in common that have the same citation signature: the
letters and digits of their titles and the set of the surnames of their authors.
The signature is one text, and both can be read from it.  Neither a comma nor a
colon is among the characters of surnames and titles (`mem_alphanumerics`), so the
first colon ends the surnames, and commas separate them.  The surnames are in
order and without repetitions, so their list is one for each set.

* `Duplicates.citation_inj` — what is read from a signature;
* `Duplicates.signature?_citation` — which entries have one;
* `Duplicates.signature?_citation_iff` — which entries have the same.
-/

namespace Bibliography

namespace Text

variable {s t : Text}

theorem le_iff (s t : Text) : le s t = true ↔ ¬ t < s := by
  unfold le
  rw [decide_eq_true_eq, ← (compare_eq_iff s t).2]

end Text

namespace Duplicates

variable {x : Char} {s t w : Text} {ws : List Text} {authors authors' title title' : Text}

/-! ## letters and digits -/

/-- A text in lower case without what is neither a letter nor a digit has no ASCII characters but
these. -/
theorem mem_alphanumerics (h : x ∈ alphanumerics s) :
    Unicode.isAlphanumeric x = true ∨ Unicode.IsLetterlike x := by
  obtain ⟨c, hc, hx⟩ := List.mem_flatMap.1 h
  obtain rfl | hletter := Unicode.mem_lowerChar hx
  · exact .inl (List.mem_filter.1 hc).2
  · exact .inr hletter

theorem comma_not_mem_alphanumerics (s : Text) : ',' ∉ alphanumerics s := fun h =>
  absurd (mem_alphanumerics h) (by decide +kernel)

theorem colon_not_mem_alphanumerics (s : Text) : ':' ∉ alphanumerics s := fun h =>
  absurd (mem_alphanumerics h) (by decide +kernel)

theorem alphanumerics_ne_nil_iff :
    alphanumerics s ≠ [] ↔ ∃ c ∈ s, Unicode.isAlphanumeric c = true := by
  unfold alphanumerics
  simp [List.flatMap_eq_nil_iff, Unicode.lowerChar_ne_nil]

/-! ## surnames -/

/-- Whether a text is the surname of an author, in the form in which surnames are compared. -/
def IsSurname (authors w : Text) : Prop :=
  w ≠ [] ∧ ∃ name ∈ Names.split authors, alphanumerics (Names.surname name) = w

theorem mem_dropRepeats : w ∈ dropRepeats ws ↔ w ∈ ws := by
  fun_induction dropRepeats ws with
  | case1 => rfl
  | case2 v => rfl
  | case3 ws v ih => simp [ih]
  | case4 u v ws hne ih => rw [List.mem_cons, ih, ← List.mem_cons]

/-- Without repetitions, what is in order is strictly in order. -/
theorem pairwise_dropRepeats (h : ws.Pairwise fun w v => ¬ v < w) :
    (dropRepeats ws).Pairwise (· < ·) := by
  fun_induction dropRepeats ws with
  | case1 => exact .nil
  | case2 v => exact List.pairwise_singleton _ _
  | case3 ws v ih => exact ih h.of_cons
  | case4 u v ws hne ih =>
      obtain ⟨hu, hrest⟩ := List.pairwise_cons.1 h
      refine .cons (fun x hx => ?_) (ih hrest)
      have huv : u < v := lt_of_le_of_ne (not_lt.1 (hu v List.mem_cons_self)) hne
      obtain rfl | hx := List.mem_cons.1 (mem_dropRepeats.1 hx)
      · exact huv
      · exact lt_of_lt_of_le huv (not_lt.1 ((List.pairwise_cons.1 hrest).1 x hx))

theorem mem_surnames : w ∈ surnames authors ↔ IsSurname authors w := by
  unfold surnames IsSurname
  rw [mem_dropRepeats, List.mem_mergeSort, List.mem_filter, List.mem_map, and_comm,
    decide_eq_true_eq]

theorem pairwise_surnames (authors : Text) : (surnames authors).Pairwise (· < ·) :=
  pairwise_dropRepeats (Sorting.isStableSort_mergeSort (f := id) Text.le_iff _).sorted

/-- **The list of surnames** is one for each set of them. -/
theorem surnames_eq_iff :
    surnames authors = surnames authors' ↔ ∀ w, IsSurname authors w ↔ IsSurname authors' w := by
  constructor
  · intro h w
    rw [← mem_surnames, h, mem_surnames]
  · intro h
    refine (pairwise_surnames authors).eq_of_mem_iff (pairwise_surnames authors') fun w => ?_
    rw [mem_surnames, mem_surnames, h]

theorem isSurname_congr (h : ∀ name, name ∈ Names.split authors ↔ name ∈ Names.split authors')
    (w : Text) : IsSurname authors w ↔ IsSurname authors' w := by
  unfold IsSurname
  simp only [h]

/-! ## signatures -/

theorem surnames_runs (authors : Text) :
    Text.runs (· = ',') (Text.joinWith [','] (surnames authors)) = surnames authors := by
  refine Text.runs_joinWith fun w hw => ?_
  obtain ⟨hne, name, -, rfl⟩ := mem_surnames.1 hw
  exact ⟨hne, comma_not_mem_alphanumerics _⟩

theorem colon_not_mem_surnames (authors : Text) :
    ':' ∉ Text.joinWith [','] (surnames authors) := by
  intro h
  obtain h | ⟨w, hw, h⟩ := Text.mem_joinWith h
  · simp at h
  · obtain ⟨-, name, -, rfl⟩ := mem_surnames.1 hw
    exact colon_not_mem_alphanumerics _ h

/-- **From a signature** the title, but for its other characters, and the set of surnames can be
read. -/
theorem citation_inj :
    citation authors title = citation authors' title' ↔
      alphanumerics title = alphanumerics title' ∧
        ∀ w, IsSurname authors w ↔ IsSurname authors' w := by
  unfold citation
  rw [List.append_cons_inj_of_notMem (colon_not_mem_surnames authors)
    (colon_not_mem_alphanumerics title), ← surnames_eq_iff]
  constructor
  · rintro ⟨hsurnames, -, htitle⟩
    exact ⟨htitle, by rw [← surnames_runs authors, hsurnames, surnames_runs]⟩
  · rintro ⟨htitle, hsurnames⟩
    exact ⟨by rw [hsurnames], rfl, htitle⟩

/-- The author list of an entry, which is empty if there is none. -/
def authorsOf (index : FieldIndex) (id : NodeId) : Text := (index.value? id "author".toList).getD []

/-- **An entry has a citation signature** if it has a title with a letter or a digit. -/
theorem signature?_citation (d : Document) (index : FieldIndex) (i : NodeId) :
    signature? d index i .citation =
      ((index.value? i "title".toList).filter fun title => title.any Unicode.isAlphanumeric).map
        fun title => (.citation, citation (authorsOf index i) title) := by
  unfold signature? compared?
  cases index.value? i "title".toList with
  | none => rfl
  | some title =>
      have hany : (title.any Unicode.isAlphanumeric = true) ↔ alphanumerics title ≠ [] :=
        List.any_eq_true.trans alphanumerics_ne_nil_iff.symm
      rw [Option.filter_some]
      dsimp only [Option.bind_some]
      by_cases hnil : alphanumerics title = []
      · rw [if_pos hnil, if_neg (hany.not.2 (not_not.2 hnil))]
        rfl
      · have hne : citation (authorsOf index i) title ≠ [] :=
          List.append_ne_nil_of_right_ne_nil _ (List.cons_ne_nil _ _)
        rw [if_neg hnil, if_pos (hany.2 hnil), Option.filter_some, ← authorsOf,
          if_pos (decide_eq_true hne)]
        rfl

/-- **Equal citations.**  An entry has a citation signature if it has a title with a letter or a
digit.  Two of them have the same exactly if their titles have the same letters and digits up to
case, and their authors the same set of surnames.  So neither the order of the authors matters nor
whether one is repeated. -/
theorem signature?_citation_iff (d d' : Document) (index index' : FieldIndex) (i j : NodeId) :
    ((signature? d index i .citation).isSome = true ↔
      ∃ title ∈ index.value? i "title".toList, ∃ c ∈ title, Unicode.isAlphanumeric c = true) ∧
    ∀ title ∈ index.value? i "title".toList, ∀ title' ∈ index'.value? j "title".toList,
      (∃ c ∈ title, Unicode.isAlphanumeric c = true) →
      (∃ c ∈ title', Unicode.isAlphanumeric c = true) →
      (signature? d index i .citation = signature? d' index' j .citation ↔
        alphanumerics title = alphanumerics title' ∧
          ∀ w, IsSurname (authorsOf index i) w ↔ IsSurname (authorsOf index' j) w) ∧
      (title = title' →
        (∀ name, name ∈ Names.split (authorsOf index i) ↔ name ∈ Names.split (authorsOf index' j)) →
        signature? d index i .citation = signature? d' index' j .citation) := by
  constructor
  · rw [signature?_citation]
    cases index.value? i "title".toList with
    | none => simp
    | some title => simp [Option.filter]
  · intro title htitle title' htitle' hsome hsome'
    have hsig : signature? d index i .citation =
        some (.citation, citation (authorsOf index i) title) := by
      rw [signature?_citation, htitle, Option.filter_some, if_pos (List.any_eq_true.2 hsome)]
      rfl
    have hsig' : signature? d' index' j .citation =
        some (.citation, citation (authorsOf index' j) title') := by
      rw [signature?_citation, htitle', Option.filter_some, if_pos (List.any_eq_true.2 hsome')]
      rfl
    have heq : signature? d index i .citation = signature? d' index' j .citation ↔
        alphanumerics title = alphanumerics title' ∧
          ∀ w, IsSurname (authorsOf index i) w ↔ IsSurname (authorsOf index' j) w := by
      rw [hsig, hsig', Option.some.injEq, Prod.mk.injEq, ← citation_inj]
      exact and_iff_right rfl
    refine ⟨heq, ?_⟩
    rintro rfl hnames
    exact heq.2 ⟨rfl, isSurname_congr hnames⟩

/-- Authors in another order, one of them twice. -/
theorem signature?_citation_iff_repeated :
    let d := (Document.parse
      ("@a\x7ba, title = \x7bOn A\x7d, author = \x7bSmith, J. and Doe, A.\x7d\x7d " ++
        "@b\x7bb, title = \x7bOn A\x7d, " ++
        "author = \x7bDoe, A. and Smith, J. and Doe, A.\x7d\x7d").toList).1
    let index := FieldIndex.build d
    index.value? 0 "title".toList = some "On A".toList ∧
      index.value? 2 "title".toList = some "On A".toList ∧
      (∃ c ∈ "On A".toList, Unicode.isAlphanumeric c = true) ∧
      (∀ name, name ∈ Names.split (authorsOf index 0) ↔ name ∈ Names.split (authorsOf index 2)) ∧
      signature? d index 0 .citation = signature? d index 2 .citation := by
  intro d index
  obtain ⟨htitle, htitle', hsome, hsplit, hsplit'⟩ :
      index.value? 0 "title".toList = some "On A".toList ∧
        index.value? 2 "title".toList = some "On A".toList ∧
        (∃ c ∈ "On A".toList, Unicode.isAlphanumeric c = true) ∧
        Names.split (authorsOf index 0) = ["Smith, J.".toList, "Doe, A.".toList] ∧
        Names.split (authorsOf index 2) =
          ["Doe, A.".toList, "Smith, J.".toList, "Doe, A.".toList] := by
    decide +kernel
  have hnames : ∀ name,
      name ∈ Names.split (authorsOf index 0) ↔ name ∈ Names.split (authorsOf index 2) := by
    intro name
    rw [hsplit, hsplit']
    simp only [List.mem_cons, List.not_mem_nil, or_false]
    tauto
  obtain ⟨-, hcitation⟩ := signature?_citation_iff d d index index 0 2
  exact ⟨htitle, htitle', hsome, hnames, (hcitation _ htitle _ htitle' hsome hsome).2 rfl hnames⟩

end Duplicates

end Bibliography
