import Bibliography.Fields
import Bibliography.Proofs.Grammar.Nesting
import Bibliography.Proofs.Latex.Names
import Bibliography.Proofs.Render.Spelling
import Bibliography.Proofs.Value.Closing
import Bibliography.Proofs.Value.Numbers

/-!
# Bibliography.Proofs.Value.Idempotence

Applying the steps once more.  Each step but one leaves segments that it does not
change again (`Fixed`), and no step that comes later in the order takes that away
(`fixed_segment`, one lemma for each step).  The exception is the removal of braces:
it takes one pair at a time, and later steps bring new pairs.

Four steps ask something of the texts that they get (`Admits`, `Clashes`), without
which they are not settled after the first time:

* a letter in title case is respelled twice: it becomes a capital, and a capital is
  no letter in title case;
* white space other than the five blanks is trimmed from names, where it kept a word
  `and` from being an ` and `;
* a second pair of braces does not enclose a text that is not balanced;
* a list that is cut off to no names at all is cut off in its braces, too.

* `isFixed_applyAll` — after all steps, none changes the field again but the removal
  of braces;
* `applyAll_applyAll_iff` — so applying them again changes nothing exactly if no pair
  of braces is left to be removed.
-/

namespace Bibliography

namespace Normalization

variable {n m : Normalization} {ns : List Normalization} {f : Field} {v : Value} {s s' : Segment}
  {t : Text} {month : Bool} {limit : Nat}

/-! ## steps on segments -/

/-- Whether a step concerns a field. -/
def applies (n : Normalization) (f : Field) : Bool :=
  match n with
  | curly | stripEnclosingBraces | numeric => true
  | dropAllCaps | escape => !f.isIdentifier
  | encodeUrls => Url.isUrlField f.name
  | maxAuthors _ => f.isNamed "author".toList
  | enclosingBraces names => names.any f.isNamed

/-- Whether a step concerns values of one delimited segment only. -/
def isForSole : Normalization → Bool
  | stripEnclosingBraces | numeric | maxAuthors _ | enclosingBraces _ => true
  | curly | dropAllCaps | escape | encodeUrls => false

/-- The segments that a step concerns. -/
def reached (n : Normalization) (v : Value) : List Segment :=
  if n.isForSole then v.sole?.toList else v.filter Segment.isDelimited

/-- What a step makes of the text of a segment that stays delimited. -/
def rewritten (n : Normalization) (t : Text) : Text :=
  match n with
  | curly | numeric => t
  | stripEnclosingBraces => (enclosed? t).getD t
  | dropAllCaps => Capitals.dropped t
  | escape => Latex.escape t
  | encodeUrls => Url.encode t
  | maxAuthors limit => truncateAuthors limit t
  | enclosingBraces _ => if isEnclosed t then t else '{' :: t ++ ['}']

/-- What a step makes of a segment that it concerns. -/
def segment (n : Normalization) (f : Field) (s : Segment) : Segment :=
  match n with
  | curly => toBraced s
  | numeric => toLiteral (f.isNamed "month".toList) s
  | n => s.withText (n.rewritten s.text)

theorem mem_reached_iff : s ∈ n.reached v ↔
    s.isDelimited = true ∧ (if n.isForSole then v = [s] else s ∈ v) := by
  unfold reached
  split
  · rw [Option.mem_toList, Value.sole?_eq_some_iff, and_comm]
  · rw [List.mem_filter, and_comm]

theorem addBraces_eq (names : List Text) (s : Segment) :
    addBraces s = s.withText ((enclosingBraces names).rewritten s.text) := by
  unfold addBraces rewritten
  split <;> simp

/-- A step that concerns one delimited segment, as a step on segments. -/
theorem mapSole_eq (hn : n.isForSole = true) (g : Segment → Segment) :
    v.mapSole g = v.map fun s => if s ∈ n.reached v then g s else s := by
  unfold Value.mapSole
  cases hs : v.sole? with
  | none =>
      have hnone : n.reached v = [] := by rw [reached, if_pos hn, hs]; rfl
      simp [hnone]
  | some s =>
      obtain ⟨rfl, -⟩ := Value.sole?_eq_some_iff.1 hs
      have hone : n.reached [s] = [s] := by rw [reached, if_pos hn, hs]; rfl
      simp [hone]

/-- A step that concerns every delimited segment, as a step on segments. -/
theorem mapDelimited_eq (hn : n.isForSole = false) (g : Text → Text) :
    v.mapDelimited g = v.map fun s => if s ∈ n.reached v then s.withText (g s.text) else s := by
  refine List.map_congr_left fun s hs => ?_
  simp [mem_reached_iff, hn, hs]

/-- **A step goes segment by segment.** -/
theorem value_eq (n : Normalization) (f : Field) : n.value f =
    if n.applies f then f.value.map fun s => if s ∈ n.reached f.value then n.segment f s else s
    else f.value := by
  cases n with
  | curly =>
      refine List.map_congr_left fun s hs => ?_
      cases s <;> simp [mem_reached_iff, isForSole, Segment.isDelimited, segment, toBraced, hs]
  | stripEnclosingBraces => exact mapSole_eq rfl _
  | numeric => exact mapSole_eq rfl _
  | dropAllCaps =>
      rw [value, applies]
      cases f.isIdentifier with
      | true => rfl
      | false => exact mapDelimited_eq (n := dropAllCaps) rfl Capitals.dropped
  | escape =>
      rw [value, applies]
      cases f.isIdentifier with
      | true => rfl
      | false => exact mapDelimited_eq (n := escape) rfl _
  | encodeUrls =>
      rw [value, applies]
      split
      · exact mapDelimited_eq (n := encodeUrls) rfl _
      · rfl
  | maxAuthors limit =>
      rw [value, applies]
      split
      · exact mapSole_eq rfl _
      · rfl
  | enclosingBraces names =>
      rw [value, applies]
      split
      · have hbraces : addBraces = (enclosingBraces names).segment f := funext (addBraces_eq names)
        rw [hbraces]
        exact mapSole_eq rfl _
      · rfl

/-- A step changes nothing exactly if it changes none of the segments that it concerns. -/
theorem value_eq_self_iff : n.value f = f.value ↔
    (n.applies f = true → ∀ s ∈ n.reached f.value, n.segment f s = s) := by
  have hreached (s : Segment) (hs : s ∈ n.reached f.value) : s ∈ f.value := by
    have hmem := (mem_reached_iff.1 hs).2
    split at hmem
    · rw [hmem]
      exact List.mem_cons_self
    · exact hmem
  rw [value_eq]
  cases n.applies f with
  | false => simp
  | true =>
      simp only [if_true, true_imp_iff]
      constructor
      · intro h s hs
        have hsame := List.map_eq_map_iff.1 (h.trans (List.map_id _).symm) s (hreached s hs)
        rwa [if_pos hs] at hsame
      · intro h
        refine (List.map_congr_left fun s _ => ?_).trans (List.map_id _)
        split
        · next hs => exact h s hs
        · rfl

/-- A segment that a step leaves delimited was delimited, and has the rewritten text. -/
theorem text_segment (h : (n.segment f s).isDelimited = true) :
    s.isDelimited = true ∧ (n.segment f s).text = n.rewritten s.text := by
  cases n with
  | curly => cases s <;> simp_all [segment, toBraced, Segment.isDelimited, rewritten, Segment.text]
  | numeric =>
      rw [segment] at h ⊢
      obtain ⟨-, t, ht⟩ | ⟨-, hsame⟩ := toLiteral_cases (f.isNamed "month".toList) s
      · rw [ht] at h
        cases h
      · rw [hsame] at h ⊢
        exact ⟨h, rfl⟩
  | _ => simpa [segment] using h

/-- **What a step concerns after another one** is what it concerned before, as the other step has
left it. -/
theorem exists_of_mem_reached (h : s' ∈ n.reached (m.value f)) :
    ∃ s ∈ n.reached f.value, s' = s ∧ ¬ (m.applies f = true ∧ s ∈ m.reached f.value) ∨
      m.applies f = true ∧ s ∈ m.reached f.value ∧ s' = m.segment f s := by
  rw [value_eq] at h
  cases happlies : m.applies f with
  | false =>
      rw [happlies] at h
      exact ⟨s', h, .inl ⟨rfl, by simp⟩⟩
  | true =>
      rw [happlies, if_pos rfl] at h
      obtain ⟨hdelimited, hmem⟩ := mem_reached_iff.1 h
      have hbefore : ∃ s, (if n.isForSole = true then f.value = [s] else s ∈ f.value) ∧
          (if s ∈ m.reached f.value then m.segment f s else s) = s' := by
        split at hmem
        · next hsole =>
          obtain ⟨s, hs, hs'⟩ := List.map_eq_singleton_iff.1 hmem
          exact ⟨s, by rw [if_pos hsole]; exact hs, hs'⟩
        · next hsole =>
          obtain ⟨s, hs, hs'⟩ := List.mem_map.1 hmem
          exact ⟨s, by rw [if_neg hsole]; exact hs, hs'⟩
      obtain ⟨s, hs, rfl⟩ := hbefore
      split at hdelimited
      · next hreached =>
        rw [if_pos hreached]
        exact ⟨s, mem_reached_iff.2 ⟨(text_segment hdelimited).1, hs⟩, .inr ⟨rfl, hreached, rfl⟩⟩
      · next hreached =>
        rw [if_neg hreached]
        exact ⟨s, mem_reached_iff.2 ⟨hdelimited, hs⟩, .inl ⟨rfl, by simp [hreached]⟩⟩

/-! ## what stays as it is -/

/-- Whether a step leaves a segment as it is, and will do so after the steps that follow it; the
removal of braces does not promise that. -/
def Fixed (n : Normalization) (f : Field) (s : Segment) : Prop :=
  match n with
  | curly => toBraced s = s
  | stripEnclosingBraces => True
  | numeric => isBare (f.isNamed "month".toList) s.text = false
  | dropAllCaps => Capitals.IsSettled {} s.text
  | escape => Latex.isClear .plain s.text = true
  | encodeUrls => ∀ x ∈ s.text, Url.isKept x = true
  | maxAuthors limit => IsShort limit s.text
  | enclosingBraces _ => isEnclosed s.text = true

theorem segment_eq_self (hn : n ≠ stripEnclosingBraces) (h : Fixed n f s) : n.segment f s = s := by
  have htext {m : Normalization} (hm : m.rewritten s.text = s.text) :
      s.withText (m.rewritten s.text) = s := by
    rw [hm, s.withText_text]
  cases n with
  | stripEnclosingBraces => contradiction
  | curly => exact h
  | numeric =>
      obtain ⟨hbare, -⟩ | ⟨-, hsame⟩ := toLiteral_cases (f.isNamed "month".toList) s
      · exact absurd (h.symm.trans hbare) Bool.false_ne_true
      · exact hsame
  | dropAllCaps => exact htext (m := dropAllCaps) (Capitals.IsSettled.dropped_eq h)
  | escape => exact htext (m := escape) (Latex.escapeFrom_eq_self h)
  | encodeUrls => exact htext (m := encodeUrls) (Url.encode_eq_self h)
  | maxAuthors limit => exact htext (m := maxAuthors limit) (truncateAuthors_of_isShort h)
  | enclosingBraces names => exact htext (m := enclosingBraces names) (if_pos h)

/-- What a step asks of a text, to leave it as it is the next time. -/
def Admits (n : Normalization) (t : Text) : Prop :=
  match n with
  | dropAllCaps => ∀ c ∈ t, Unicode.isTitlecase c = false
  | maxAuthors _ => ∀ c ∈ t, Unicode.isWhiteSpace c = true → Text.isBlank c = true
  | enclosingBraces _ => t.IsBalanced
  | curly | stripEnclosingBraces | numeric | escape | encodeUrls => True

instance (n : Normalization) (t : Text) : Decidable (n.Admits t) :=
  match n with
  | dropAllCaps => inferInstanceAs (Decidable (∀ c ∈ t, Unicode.isTitlecase c = false))
  | maxAuthors _ =>
    inferInstanceAs (Decidable (∀ c ∈ t, Unicode.isWhiteSpace c = true → Text.isBlank c = true))
  | enclosingBraces _ => inferInstanceAs (Decidable t.IsBalanced)
  | curly | stripEnclosingBraces | numeric | escape | encodeUrls => inferInstanceAs (Decidable True)

/-- A pair of steps of which one undoes what the other one does: a list with no names but the
placeholder gets braces, and is cut off in them. -/
def Clashes : Normalization → Normalization → Bool
  | maxAuthors 0, enclosingBraces _ => true
  | _, _ => false

/-! ## fields -/

/-- Names that are the same up to case folding are the same in ASCII. -/
theorem caseFold_eq_of_isNamed {name : Text} (h : f.isNamed name = true) :
    f.name.caseFold = name.caseFold := of_decide_eq_true h

/-- The list of authors is no month. -/
theorem isNamed_month_of_author (h : f.isNamed "author".toList = true) :
    f.isNamed "month".toList = false := by
  refine Bool.eq_false_iff.2 fun hmonth => ?_
  have hsame := (caseFold_eq_of_isNamed h).symm.trans (caseFold_eq_of_isNamed hmonth)
  exact absurd hsame (by decide)

/-- The list of authors is no address. -/
theorem isUrlField_of_author (h : f.isNamed "author".toList = true) :
    Url.isUrlField f.name = false := by
  refine Bool.eq_false_iff.2 fun hurl => ?_
  obtain ⟨p, hp⟩ := List.isSuffixOf_iff_suffix.1 hurl
  obtain ⟨a, b, hname, -, hb⟩ := List.map_eq_append_iff.1 hp.symm
  have hascii : ∀ c ∈ b, c.toNat < 128 := by
    intro c hc
    have hmem : c.toLower ∈ "url".toList := hb ▸ List.mem_map_of_mem hc
    have hall : ∀ x ∈ "url".toList, x.toNat < 128 := by decide
    exact Unicode.ascii_of_toLower (hall _ hmem)
  have hsuffix : "url".toList <:+ Text.caseFold "author".toList := by
    rw [← caseFold_eq_of_isNamed h, hname, Text.caseFold_append, Text.caseFold_of_ascii hascii, hb]
    exact List.suffix_append _ _
  exact absurd hsuffix (by decide)

/-! ## pairs of steps -/

theorem isBare_rewritten (hm : 2 ≤ m.rank) (happlies : m.applies f = true) (hadmits : m.Admits t)
    (h : isBare (f.isNamed "month".toList) t = false) :
    isBare (f.isNamed "month".toList) (m.rewritten t) = false := by
  have hkeeps {u : Text} (hu : isBare (f.isNamed "month".toList) u = true →
      isBare (f.isNamed "month".toList) t = true) : isBare (f.isNamed "month".toList) u = false :=
    Bool.eq_false_iff.2 fun hbare => by rw [hu hbare] at h; cases h
  cases m with
  | curly | stripEnclosingBraces => exact absurd hm (by decide)
  | numeric => exact h
  | dropAllCaps => exact hkeeps (isBare_dropped hadmits)
  | escape => exact hkeeps isBare_escape
  | encodeUrls => exact hkeeps isBare_encode
  | maxAuthors limit =>
      rw [isNamed_month_of_author happlies] at hkeeps ⊢
      exact hkeeps isBare_truncateAuthors
  | enclosingBraces names =>
      rw [rewritten]
      split
      · exact h
      · exact isBare_braces _ t

theorem isSettled_rewritten (hm : 3 ≤ m.rank) (hfield : f.isIdentifier = false)
    (happlies : m.applies f = true) (h : Capitals.IsSettled {} t) :
    Capitals.IsSettled {} (m.rewritten t) := by
  cases m with
  | curly | stripEnclosingBraces | numeric => exact absurd hm (by decide)
  | dropAllCaps =>
      rw [rewritten, h.dropped_eq]
      exact h
  | escape => exact h.escape
  | encodeUrls =>
      have hurl : Url.isUrlField f.name = true := happlies
      rw [Field.isIdentifier, hurl] at hfield
      cases hfield
  | maxAuthors limit =>
      obtain hsame | hcut := truncateAuthors_eq limit t
      · rwa [rewritten, hsame]
      · refine .inl ⟨'o', ?_, by decide⟩
        rw [rewritten, hcut]
        exact Names.mem_join_of_mem_others (by decide) _
  | enclosingBraces names =>
      rw [rewritten]
      split
      · exact h
      · exact h.braces

theorem isClear_rewritten (hm : 4 ≤ m.rank) (hfield : f.isIdentifier = false)
    (happlies : m.applies f = true) (h : Latex.isClear .plain t = true) :
    Latex.isClear .plain (m.rewritten t) = true := by
  cases m with
  | curly | stripEnclosingBraces | numeric | dropAllCaps => exact absurd hm (by decide)
  | escape => exact Latex.isClear_escapeFrom .plain t
  | encodeUrls =>
      have hurl : Url.isUrlField f.name = true := happlies
      rw [Field.isIdentifier, hurl] at hfield
      cases hfield
  | maxAuthors limit => exact isClear_truncateAuthors h
  | enclosingBraces names =>
      rw [rewritten]
      split
      · exact h
      · exact Latex.isClear_braces h

theorem isKept_rewritten (hm : 5 ≤ m.rank) (hfield : Url.isUrlField f.name = true)
    (happlies : m.applies f = true) (h : ∀ x ∈ t, Url.isKept x = true) :
    ∀ x ∈ m.rewritten t, Url.isKept x = true := by
  cases m with
  | curly | stripEnclosingBraces | numeric | dropAllCaps | escape => exact absurd hm (by decide)
  | encodeUrls => exact fun x hx => Url.isKept_of_mem_encode hx
  | maxAuthors limit =>
      rw [isUrlField_of_author happlies] at hfield
      cases hfield
  | enclosingBraces names =>
      rw [rewritten]
      split
      · exact h
      · simp only [List.cons_append, List.mem_cons, List.mem_append, List.not_mem_nil, or_false]
        rintro x (rfl | hx | rfl)
        · decide
        · exact h x hx
        · decide

theorem isShort_rewritten (hm : 6 ≤ m.rank) (hadmits : m.Admits t)
    (hclash : Clashes (maxAuthors limit) m = false) (h : IsShort limit t) :
    IsShort limit (m.rewritten t) := by
  cases m with
  | curly | stripEnclosingBraces | numeric | dropAllCaps | escape | encodeUrls =>
      exact absurd hm (by decide)
  | maxAuthors other => exact h.truncateAuthors other hadmits
  | enclosingBraces names =>
      rw [rewritten]
      split
      · exact h
      · refine isShort_braces hadmits ?_
        rintro rfl
        cases hclash

theorem isEnclosed_rewritten (hm : 7 ≤ m.rank) (h : isEnclosed t = true) :
    isEnclosed (m.rewritten t) = true := by
  cases m with
  | curly | stripEnclosingBraces | numeric | dropAllCaps | escape | encodeUrls =>
      exact absurd hm (by decide)
  | maxAuthors limit => exact absurd hm (by simp [rank])
  | enclosingBraces names => rwa [rewritten, if_pos h]

/-- Marks that have become braces do not come back. -/
theorem toBraced_segment (h : toBraced s = s) : toBraced (m.segment f s) = m.segment f s := by
  cases m with
  | curly => rw [segment, h, h]
  | numeric =>
      rw [segment]
      obtain ⟨-, t, ht⟩ | ⟨-, hsame⟩ := toLiteral_cases (f.isNamed "month".toList) s
      · rw [ht]
        rfl
      · rwa [hsame]
  | _ =>
      cases s with
      | literal t | braced t => rfl
      | quoted t => cases h

/-- **What is left as it is** by a step is so after a later one. -/
theorem fixed_segment (hrank : n.rank ≤ m.rank) (hn : n.applies f = true) (hm : m.applies f = true)
    (hadmits : m.Admits s.text) (hclash : Clashes n m = false)
    (hs : (m.segment f s).isDelimited = true) (h : Fixed n f s) : Fixed n f (m.segment f s) := by
  have htext : (m.segment f s).text = m.rewritten s.text := (text_segment hs).2
  have hfield (hidentifier : (!f.isIdentifier) = true) : f.isIdentifier = false := by
    simpa using hidentifier
  cases n with
  | curly => exact toBraced_segment h
  | stripEnclosingBraces => trivial
  | numeric => exact (congrArg _ htext).trans (isBare_rewritten hrank hm hadmits h)
  | dropAllCaps =>
      rw [Fixed, htext]
      exact isSettled_rewritten hrank (hfield hn) hm h
  | escape =>
      rw [Fixed, htext]
      exact isClear_rewritten hrank (hfield hn) hm h
  | encodeUrls =>
      rw [Fixed, htext]
      exact isKept_rewritten hrank hn hm h
  | maxAuthors limit =>
      rw [Fixed, htext]
      exact isShort_rewritten hrank hadmits hclash h
  | enclosingBraces names =>
      rw [Fixed, htext]
      exact isEnclosed_rewritten hrank h

/-- Braces around a balanced text enclose it. -/
theorem isEnclosed_braces (h : t.IsBalanced) : isEnclosed ('{' :: t ++ ['}']) = true := by
  have hscan : Scan.balanced '{' '}' (t ++ ['}']) = .closed t [] :=
    (Scan.balanced_eq_closed_iff (by decide)).2 ⟨rfl, h⟩
  rw [isEnclosed, List.cons_append, enclosed?, hscan]
  rfl

/-- **What a step concerns** is left by it as it is, if the step admits it. -/
theorem fixed_segment_self (hadmits : n.Admits s.text) (hs : (n.segment f s).isDelimited = true) :
    Fixed n f (n.segment f s) := by
  obtain ⟨hdelimited, htext⟩ := text_segment hs
  cases n with
  | curly => cases s <;> rfl
  | stripEnclosingBraces => trivial
  | numeric =>
      rw [segment] at hs ⊢
      obtain ⟨-, t, ht⟩ | ⟨hbare, hsame⟩ := toLiteral_cases (f.isNamed "month".toList) s
      · rw [ht] at hs
        cases hs
      · rwa [hsame]
  | dropAllCaps =>
      rw [Fixed, htext]
      exact Capitals.isSettled_dropped hadmits
  | escape =>
      rw [Fixed, htext]
      exact Latex.isClear_escapeFrom .plain s.text
  | encodeUrls =>
      rw [Fixed, htext]
      exact fun x hx => Url.isKept_of_mem_encode hx
  | maxAuthors limit =>
      rw [Fixed, htext]
      exact isShort_truncateAuthors hadmits
  | enclosingBraces names =>
      rw [Fixed, htext, rewritten]
      split
      · assumption
      · exact isEnclosed_braces hadmits

/-! ## what a step admits -/

/-- A character that steps may bring into a text. -/
def IsHarmless (c : Char) : Prop :=
  Unicode.isTitlecase c = false ∧ (Unicode.isWhiteSpace c = true → Text.isBlank c = true)

instance (c : Char) : Decidable (IsHarmless c) := inferInstanceAs (Decidable (_ ∧ _))

theorem isHarmless_of_isLowercase {c : Char} (h : Unicode.isLowercase c = true) : IsHarmless c := by
  constructor
  · refine Bool.eq_false_iff.2 fun htitle => ?_
    rw [Unicode.isLowercase_of_isTitlecase htitle] at h
    cases h
  · intro hblank
    rw [(Unicode.isWhiteSpace_cases hblank).2] at h
    cases h

theorem isHarmless_of_mem_table : ∀ p ∈ Latex.table, ∀ c ∈ p.2.written, IsHarmless c := by
  decide +kernel

theorem isHarmless_of_mem_percent {i : Nat} {c : Char} (hi : i < 256) (h : c ∈ Url.percent i) :
    IsHarmless c := by
  have hdigits : ∀ i < 16, IsHarmless (Url.hexDigit i) := by decide +kernel
  simp only [Url.percent, List.mem_cons, List.not_mem_nil, or_false] at h
  obtain rfl | rfl | rfl := h
  · decide
  · exact hdigits _ (by omega)
  · exact hdigits _ (by omega)

/-- A character of a rewritten text is one of the text, or a harmless one. -/
theorem mem_rewritten {x : Char} (hm : m.Admits t) (hx : x ∈ m.rewritten t) :
    x ∈ t ∨ IsHarmless x := by
  cases m with
  | curly | numeric => exact .inl hx
  | stripEnclosingBraces =>
      rw [rewritten] at hx
      cases henclosed : enclosed? t with
      | none =>
          rw [henclosed] at hx
          exact .inl hx
      | some u =>
          rw [henclosed] at hx
          rw [enclosed?_eq_some henclosed]
          exact .inl (List.mem_append_left _ (List.mem_cons_of_mem _ hx))
  | dropAllCaps =>
      rw [rewritten, Capitals.dropped] at hx
      split at hx
      · next hcaps =>
        have hupper := Capitals.upperChar_of_not_small hm (Capitals.not_small_of_isAllCaps hcaps)
        obtain hmem | hlower | rfl := Capitals.mem_titleCaseFrom {} hupper hx
        · exact .inl hmem
        · exact .inr (isHarmless_of_isLowercase hlower)
        · exact .inr (by decide)
      · exact .inl hx
  | escape =>
      obtain hmem | ⟨p, hp, hx⟩ := Latex.mem_escapeFrom hx
      · exact .inl hmem
      · exact .inr (isHarmless_of_mem_table p hp x hx)
  | encodeUrls =>
      obtain ⟨c, hc, hx⟩ := List.mem_flatMap.1 hx
      unfold Url.encodeChar at hx
      split at hx
      · exact .inl (List.mem_singleton.1 hx ▸ hc)
      · obtain ⟨i, hi, hx⟩ := List.mem_flatMap.1 hx
        exact .inr (isHarmless_of_mem_percent (Url.lt_of_mem_octetsOf hi) hx)
  | maxAuthors limit =>
      have hall : ∀ c ∈ " and others".toList, IsHarmless c := by decide +kernel
      exact (mem_truncateAuthors hx).imp_right (hall x)
  | enclosingBraces names =>
      rw [rewritten] at hx
      split at hx
      · exact .inl hx
      · simp only [List.cons_append, List.mem_cons, List.mem_append, List.not_mem_nil,
          or_false] at hx
        obtain rfl | hx | rfl := hx
        · exact .inr (by decide)
        · exact .inl hx
        · exact .inr (by decide)

/-- A rewritten text is balanced if the text was. -/
theorem isBalanced_rewritten (m : Normalization) (h : t.IsBalanced) : (m.rewritten t).IsBalanced := by
  have hcloses := Scan.Enclosure.closes_braces_iff.2 h
  cases m with
  | curly | numeric => exact h
  | stripEnclosingBraces =>
      rw [rewritten]
      cases henclosed : enclosed? t with
      | none => exact h
      | some u => exact isBalanced_of_enclosed? henclosed
  | dropAllCaps =>
      rw [rewritten, Capitals.dropped]
      split
      · exact Scan.Enclosure.closes_braces_iff.1 (Capitals.closes_titleCase hcloses)
      · exact h
  | escape => exact Scan.Enclosure.closes_braces_iff.1 (Latex.closes_escape hcloses)
  | encodeUrls => exact Scan.Enclosure.closes_braces_iff.1 (Url.closes_encode hcloses)
  | maxAuthors limit => exact Scan.Enclosure.closes_braces_iff.1 (closes_truncateAuthors limit hcloses)
  | enclosingBraces names =>
      rw [rewritten]
      split
      · exact h
      · exact Text.IsBalanced.enclose h

/-- **What a step admits**, it admits after any other step that admits it. -/
theorem admits_rewritten (hm : m.Admits t) (h : n.Admits t) : n.Admits (m.rewritten t) := by
  cases n with
  | curly | stripEnclosingBraces | numeric | escape | encodeUrls => trivial
  | dropAllCaps => exact fun c hc => (mem_rewritten hm hc).elim (h c) fun hharmless => hharmless.1
  | maxAuthors limit => exact fun c hc => (mem_rewritten hm hc).elim (h c) fun hharmless => hharmless.2
  | enclosingBraces names => exact isBalanced_rewritten m h

/-! ## fields -/

/-- What the steps ask of a field, to leave it as it is the next time. -/
structure IsTame (ns : List Normalization) (f : Field) : Prop where
  /-- Each step admits the texts that it concerns. -/
  admits : ∀ n ∈ ns, n.applies f = true → ∀ s ∈ n.reached f.value, n.Admits s.text
  /-- No step undoes what another one does. -/
  agree : ∀ n ∈ ns, n.applies f = true → ∀ m ∈ ns, m.applies f = true → Clashes n m = false

instance (ns : List Normalization) (f : Field) : Decidable (IsTame ns f) :=
  decidable_of_iff
    ((∀ n ∈ ns, n.applies f = true → ∀ s ∈ n.reached f.value, n.Admits s.text) ∧
      ∀ n ∈ ns, n.applies f = true → ∀ m ∈ ns, m.applies f = true → Clashes n m = false)
    ⟨fun h => ⟨h.1, h.2⟩, fun h => ⟨h.admits, h.agree⟩⟩

/-- A step concerns a field by its name. -/
@[simp] theorem applies_apply (n m : Normalization) (f : Field) :
    n.applies (m.apply f).1 = n.applies f := by
  cases n <;> rfl

theorem fixed_apply_iff : Fixed n (m.apply f).1 s ↔ Fixed n f s := by
  cases n <;> rfl

theorem IsTame.mono {ms : List Normalization} (h : IsTame ns f) (hms : ∀ m ∈ ms, m ∈ ns) :
    IsTame ms f :=
  ⟨fun n hn => h.admits n (hms n hn), fun n hn hfield m hm => h.agree n (hms n hn) hfield m (hms m hm)⟩

/-- **A step keeps** what the steps ask of a field. -/
theorem IsTame.apply (h : IsTame ns f) (hm : m ∈ ns) : IsTame ns (m.apply f).1 where
  admits n hn hfield s' hs' := by
    rw [applies_apply] at hfield
    obtain ⟨s, hs, ⟨rfl, -⟩ | ⟨happlies, hreached, rfl⟩⟩ := exists_of_mem_reached hs'
    · exact h.admits n hn hfield s' hs
    · rw [(text_segment (mem_reached_iff.1 hs').1).2]
      exact admits_rewritten (h.admits m hm happlies s hreached) (h.admits n hn hfield s hs)
  agree n hn hfield k hk hfield' := by
    rw [applies_apply] at hfield hfield'
    exact h.agree n hn hfield k hk hfield'

/-- Every segment that a step concerns is left by it as it is. -/
def IsFixed (n : Normalization) (f : Field) : Prop :=
  n.applies f = true → ∀ s ∈ n.reached f.value, Fixed n f s

theorem value_eq_self (hn : n ≠ stripEnclosingBraces) (h : IsFixed n f) : n.value f = f.value :=
  value_eq_self_iff.2 fun hfield s hs => segment_eq_self hn (h hfield s hs)

/-- **A step** leaves a field as it will leave it the next time. -/
theorem isFixed_apply_self (h : IsTame [n] f) : IsFixed n (n.apply f).1 := by
  intro hfield s' hs'
  rw [applies_apply] at hfield
  rw [fixed_apply_iff]
  obtain ⟨s, hs, ⟨rfl, hnot⟩ | ⟨-, -, rfl⟩⟩ := exists_of_mem_reached hs'
  · exact absurd ⟨hfield, hs⟩ hnot
  · exact fixed_segment_self (h.admits n List.mem_cons_self hfield s hs) (mem_reached_iff.1 hs').1

/-- **A later step** keeps what an earlier one has left. -/
theorem IsFixed.apply (hrank : n.rank ≤ m.rank) (htame : IsTame [m] f)
    (hclash : n.applies f = true → m.applies f = true → Clashes n m = false) (h : IsFixed n f) :
    IsFixed n (m.apply f).1 := by
  intro hfield s' hs'
  rw [applies_apply] at hfield
  rw [fixed_apply_iff]
  obtain ⟨s, hs, ⟨rfl, -⟩ | ⟨happlies, hreached, rfl⟩⟩ := exists_of_mem_reached hs'
  · exact h hfield s' hs
  · exact fixed_segment hrank hfield happlies (htame.admits m List.mem_cons_self happlies s hreached)
      (hclash hfield happlies) (mem_reached_iff.1 hs').1 (h hfield s hs)

/-! ## all steps -/

theorem applyAll_cons (n : Normalization) (ns : List Normalization) (f : Field) :
    applyAll (n :: ns) f =
      ((applyAll ns (n.apply f).1).1, (n.apply f).2 || (applyAll ns (n.apply f).1).2) := rfl

/-- Later steps keep what an earlier one has left. -/
theorem IsFixed.applyAll (hrank : ∀ m ∈ ns, n.rank ≤ m.rank) (htame : IsTame (n :: ns) f)
    (h : IsFixed n f) : IsFixed n (applyAll ns f).1 := by
  induction ns generalizing f with
  | nil => exact h
  | cons m ns ih =>
      have hm : m ∈ n :: m :: ns := List.mem_cons_of_mem n List.mem_cons_self
      have hstep : IsFixed n (m.apply f).1 :=
        h.apply (hrank m List.mem_cons_self) (htame.mono (by simp))
          fun hfield hfield' => htame.agree n List.mem_cons_self hfield m hm hfield'
      refine ih (fun k hk => hrank k (List.mem_cons_of_mem m hk)) ?_ hstep
      exact (htame.apply hm).mono fun k hk => by
        simp only [List.mem_cons] at hk ⊢
        tauto

/-- **After all steps** in the order of their ranks, each leaves the field as it is. -/
theorem isFixed_applyAll (hrank : ns.Pairwise fun n m => n.rank ≤ m.rank) (h : IsTame ns f) :
    ∀ n ∈ ns, IsFixed n (applyAll ns f).1 := by
  induction ns generalizing f with
  | nil => exact List.forall_mem_nil _
  | cons n ns ih =>
      obtain ⟨hfirst, hrest⟩ := List.pairwise_cons.1 hrank
      have htame := h.apply List.mem_cons_self
      have hfixed : IsFixed n (n.apply f).1 := isFixed_apply_self (h.mono (by simp))
      have hkept : IsFixed n (applyAll ns (n.apply f).1).1 := hfixed.applyAll hfirst htame
      exact List.forall_mem_cons.2
        ⟨hkept, ih hrest (htame.mono fun m hm => List.mem_cons_of_mem n hm)⟩

/-- Steps count as a change exactly if one of them changes the value. -/
theorem applyAll_snd_eq_false_iff : (applyAll ns f).2 = false ↔ ∀ n ∈ ns, n.value f = f.value := by
  induction ns generalizing f with
  | nil => simp [applyAll]
  | cons n ns ih =>
      rw [applyAll_cons, Bool.or_eq_false_iff, ih, List.forall_mem_cons]
      have hsame : (n.apply f).2 = false ↔ n.value f = f.value := by simp [apply]
      rw [hsame]
      refine and_congr_right fun hvalue => ?_
      have hfield : (n.apply f).1 = f := by rw [apply, hvalue]
      rw [hfield]

/-- The removal of braces changes nothing exactly if there is none to remove. -/
theorem value_strip_eq_self_iff : stripEnclosingBraces.value f = f.value ↔
    ∀ s, f.value.sole? = some s → isEnclosed s.text = false := by
  have hsegment (s : Segment) :
      stripEnclosingBraces.segment f s = s ↔ isEnclosed s.text = false := by
    change s.withText ((enclosed? s.text).getD s.text) = s ↔ (enclosed? s.text).isSome = false
    cases henclosed : enclosed? s.text with
    | none => simp
    | some u =>
        simp only [Option.getD_some, Option.isSome_some, Bool.true_eq_false, iff_false]
        intro hsame
        have hlength := congrArg List.length (enclosed?_eq_some henclosed)
        rw [← hsame, Segment.text_withText] at hlength
        simp only [List.cons_append, List.length_cons, List.length_append] at hlength
        omega
  rw [value_eq_self_iff]
  simp [applies, reached, isForSole, hsegment]

/-- Steps in the order of their ranks stay in it. -/
theorem inOrder_eq_self (h : ns.Pairwise fun n m => n.rank ≤ m.rank) : inOrder ns = ns :=
  List.mergeSort_of_pairwise (h.imp fun hle => decide_eq_true hle)

theorem pairwise_inOrder (ns : List Normalization) :
    (inOrder ns).Pairwise fun n m => n.rank ≤ m.rank := by
  refine (List.pairwise_mergeSort ?_ ?_ ns).imp fun hle => of_decide_eq_true hle
  · intro a b c hab hbc
    rw [decide_eq_true_eq] at *
    exact Nat.le_trans hab hbc
  · intro a b
    rw [Bool.or_eq_true, decide_eq_true_eq, decide_eq_true_eq]
    exact Nat.le_total a.rank b.rank

/-- **Applying the steps again** changes nothing exactly if no pair of braces is left that encloses
all of a text, or none is to be removed. -/
theorem applyAll_applyAll_iff (h : IsTame ns f) :
    (applyAll (inOrder ns) (applyAll (inOrder ns) f).1).2 = false ↔
      (stripEnclosingBraces ∈ ns →
        ∀ s, (applyAll (inOrder ns) f).1.value.sole? = some s → isEnclosed s.text = false) := by
  have hmem (n : Normalization) : n ∈ inOrder ns ↔ n ∈ ns := List.mem_mergeSort
  have hfixed := isFixed_applyAll (pairwise_inOrder ns) (h.mono fun n hn => (hmem n).1 hn)
  rw [applyAll_snd_eq_false_iff]
  constructor
  · intro hsame hstrip
    exact value_strip_eq_self_iff.1 (hsame _ ((hmem _).2 hstrip))
  · intro hnone n hn
    by_cases hstrip : n = stripEnclosingBraces
    · subst hstrip
      exact value_strip_eq_self_iff.2 (hnone ((hmem _).1 hn))
    · exact value_eq_self hstrip (hfixed n hn)

/-- Where a step does not admit a text, or clashes with another one, the second application changes
the field again. -/
example :
    let again (name : String) (s : Segment) (ns : List Normalization) : Bool :=
      (applyAll ns (applyAll ns ⟨name.toList, [s]⟩).1).2
    again "title" (.braced "ᾼ A".toList) [.dropAllCaps] ∧
    again "author" (.braced "Y and\u00a0 and Z".toList) [.maxAuthors 1] ∧
    again "note" (.braced "x \x7by".toList) [.enclosingBraces ["note".toList]] ∧
    again "author" (.braced "A".toList) [.maxAuthors 0, .enclosingBraces ["author".toList]] := by
  decide +kernel

end Normalization

end Bibliography
