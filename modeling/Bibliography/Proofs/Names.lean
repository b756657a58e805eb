import Bibliography.Proofs.Unicode.Capitals
import Bibliography.Proofs.Value.Normalization

/-!
# Bibliography.Proofs.Names

Author lists that are cut off.  A name is cut out of a list where a brace is closed,
and no ` and ` is left in it, not even with the blank that follows it
(`IsName`); so names that are joined again are found again (`split_join`).  What is
left of a list has no more names than the limit, or just the placeholder after as
many, and is not cut off again (`IsShort`).

The names are trimmed of all white space, but only the five blanks stand around an
` and `.  Where another white space stands after a word `and`, trimming brings a
blank there, and the word becomes one that names are cut at.

* `isShort_truncateAuthors`, `truncateAuthors_of_isShort` — a list that was cut off
  is not cut off again;
* `IsShort.truncateAuthors`, `isShort_braces` — neither is it after a cut at another
  limit, nor in braces.
-/

namespace Bibliography

namespace Names

variable {d l : Nat} {b b' c : Char} {s t w r : Text}

/-! ## pieces -/

/-- Whether a text begins with an ` and `. -/
def startsAnd : Text → Bool
  | b :: a :: n :: d :: e :: _ => Text.isBlank b && isAnd a n d e
  | _ => false

theorem pieces_cons (d : Nat) (c : Char) (s : Text) : pieces d (c :: s) =
    if d = 0 ∧ startsAnd (c :: s) = true then [] :: pieces 0 (s.drop 4)
    else consFirst c (pieces (depthAfter d c) s) := by
  match s with
  | a :: n :: x :: e :: r =>
      rw [pieces]
      simp [startsAnd]
  | [] | [_] | [_, _] | [_, _, _] => simp [pieces, startsAnd]

theorem startsAnd_iff : startsAnd s = true ↔ ∃ b a n x e r, s = b :: a :: n :: x :: e :: r ∧
    Text.isBlank b = true ∧ isAnd a n x e = true := by
  constructor
  · intro h
    unfold startsAnd at h
    split at h
    · next b a n x e r =>
      rw [Bool.and_eq_true] at h
      exact ⟨b, a, n, x, e, r, rfl, h⟩
    · cases h
  · rintro ⟨b, a, n, x, e, r, rfl, hb, hand⟩
    rw [startsAnd, hb, hand]
    rfl

theorem isBlank_of_startsAnd (h : startsAnd (b :: r) = true) : Text.isBlank b = true := by
  obtain ⟨b, a, n, x, e, r, heq, hb, -⟩ := startsAnd_iff.1 h
  cases heq
  exact hb

theorem pieces_ne_nil (d : Nat) (s : Text) : pieces d s ≠ [] := by
  have hfirst (c : Char) (ws : List Text) : consFirst c ws ≠ [] := by
    unfold consFirst
    split <;> exact List.cons_ne_nil _ _
  cases s with
  | nil => rw [pieces]; exact List.cons_ne_nil _ _
  | cons c s =>
      rw [pieces_cons]
      split
      · exact List.cons_ne_nil _ _
      · exact hfirst c _

theorem consFirst_eq_singleton_iff {ws : List Text} (hws : ws ≠ []) :
    consFirst c ws = [c :: s] ↔ ws = [s] := by
  cases ws with
  | nil => contradiction
  | cons w ws => simp [consFirst]

/-- A text is one piece if it does not begin with an ` and `, nor its rest has one. -/
theorem pieces_cons_eq_singleton_iff : pieces d (c :: s) = [c :: s] ↔
    ¬ (d = 0 ∧ startsAnd (c :: s) = true) ∧ pieces (depthAfter d c) s = [s] := by
  rw [pieces_cons]
  split
  · next hand => simp [hand]
  · next hand => simp [hand, consFirst_eq_singleton_iff (pieces_ne_nil _ _)]

/-- A text without blanks is one piece. -/
theorem pieces_eq_singleton (h : ∀ x ∈ s, Text.isBlank x = false) (d : Nat) :
    pieces d s = [s] := by
  induction s generalizing d with
  | nil => rw [pieces]
  | cons c s ih =>
      obtain ⟨hc, hs⟩ := List.forall_mem_cons.1 h
      refine pieces_cons_eq_singleton_iff.2 ⟨fun hand => ?_, ih hs _⟩
      rw [isBlank_of_startsAnd hand.2] at hc
      cases hc

/-- A blank is no letter of an ` and `. -/
theorem toLower_of_isBlank (h : Text.isBlank b = true) :
    b.toLower ≠ 'a' ∧ b.toLower ≠ 'n' ∧ b.toLower ≠ 'd' := by
  simp only [Text.isBlank, Bool.or_eq_true, decide_eq_true_eq] at h
  obtain (((rfl | rfl) | rfl) | rfl) | rfl := h <;> decide

theorem startsAnd_of_append (hb : Text.isBlank b = true) (hb' : Text.isBlank b' = true)
    (h : startsAnd (c :: (w ++ b :: r)) = true) (r' : Text) :
    startsAnd (c :: (w ++ b' :: r')) = true := by
  obtain ⟨b₀, a, n, x, e, r₀, heq, hb₀, hand⟩ := startsAnd_iff.1 h
  obtain ⟨rfl, hrest⟩ := List.cons.inj heq
  obtain ⟨hne_a, hne_n, hne_d⟩ := toLower_of_isBlank hb
  have hletters := hand
  simp only [isAnd, Bool.and_eq_true, decide_eq_true_eq] at hletters
  obtain ⟨⟨⟨ha, hn⟩, hd⟩, -⟩ := hletters
  -- The blank is no letter of the word, so that it comes just after the word or later.
  rcases w with _ | ⟨y₁, _ | ⟨y₂, _ | ⟨y₃, _ | ⟨y₄, w⟩⟩⟩⟩ <;>
    simp only [List.cons_append, List.nil_append, List.cons.injEq] at hrest
  · exact absurd (hrest.1 ▸ ha) hne_a
  · exact absurd (hrest.2.1 ▸ hn) hne_n
  · exact absurd (hrest.2.2.1 ▸ hd) hne_d
  · obtain ⟨rfl, rfl, rfl, -⟩ := hrest
    exact startsAnd_iff.2 ⟨_, _, _, _, _, _, rfl, hb₀, by simp [isAnd, ha, hn, hd, hb']⟩
  · obtain ⟨rfl, rfl, rfl, rfl, -⟩ := hrest
    exact startsAnd_iff.2 ⟨_, _, _, _, _, _, rfl, hb₀, hand⟩

/-- What follows a blank does not matter for an ` and ` before it. -/
theorem startsAnd_append (hb : Text.isBlank b = true) (hb' : Text.isBlank b' = true) (c : Char)
    (w r r' : Text) : startsAnd (c :: (w ++ b :: r)) = startsAnd (c :: (w ++ b' :: r')) :=
  Bool.eq_iff_iff.2 ⟨fun h => startsAnd_of_append hb hb' h r', fun h => startsAnd_of_append hb' hb h r⟩

/-- A text in which no name ends, even if a blank follows it. -/
def IsName (d : Nat) (w : Text) : Prop := pieces d (w ++ [' ']) = [w ++ [' ']]

theorem isName_nil (d : Nat) : IsName d [] := by
  rw [IsName, List.nil_append, pieces_cons_eq_singleton_iff]
  exact ⟨by simp [startsAnd], by rw [pieces]⟩

theorem isName_cons : IsName d (c :: w) ↔
    ¬ (d = 0 ∧ startsAnd (c :: (w ++ [' '])) = true) ∧ IsName (depthAfter d c) w := by
  rw [IsName, List.cons_append, pieces_cons_eq_singleton_iff]
  rfl

/-- **A name is cut out** of what follows it. -/
theorem pieces_append (hw : IsName d w) (hdepth : w.foldl depthAfter d = 0)
    (hand : startsAnd (b :: r) = true) : pieces d (w ++ b :: r) = w :: pieces 0 (r.drop 4) := by
  have hb := isBlank_of_startsAnd hand
  induction w generalizing d with
  | nil =>
      rw [List.nil_append, pieces_cons, if_pos ⟨hdepth, hand⟩]
  | cons c w ih =>
      obtain ⟨hstart, hw⟩ := isName_cons.1 hw
      rw [startsAnd_append (by decide) hb c w [] r] at hstart
      rw [List.cons_append, pieces_cons, if_neg hstart, ih hw hdepth]
      rfl

/-- **A text is one piece**, or its first piece is a name in front of an ` and `. -/
theorem pieces_cases (d : Nat) (s : Text) : pieces d s = [s] ∨
    ∃ w b r, s = w ++ b :: r ∧ startsAnd (b :: r) = true ∧ IsName d w ∧
      w.foldl depthAfter d = 0 ∧ pieces d s = w :: pieces 0 (r.drop 4) := by
  induction s generalizing d with
  | nil => exact .inl (by rw [pieces])
  | cons c s ih =>
      by_cases hand : d = 0 ∧ startsAnd (c :: s) = true
      · obtain ⟨rfl, hand⟩ := hand
        refine .inr ⟨[], c, s, rfl, hand, isName_nil 0, rfl, ?_⟩
        rw [pieces_cons, if_pos ⟨rfl, hand⟩]
      · obtain hone | ⟨w, b, r, rfl, hr, hw, hdepth, hpieces⟩ := ih (depthAfter d c)
        · exact .inl (pieces_cons_eq_singleton_iff.2 ⟨hand, hone⟩)
        · have hb := isBlank_of_startsAnd hr
          refine .inr ⟨c :: w, b, r, rfl, hr, isName_cons.2 ⟨?_, hw⟩, hdepth, ?_⟩
          · rwa [startsAnd_append (by decide) hb c w [] r]
          · rw [pieces_cons, if_neg hand, hpieces]
            rfl
/-- Induction over the names of a list: the last one, or one in front of an ` and `. -/
@[elab_as_elim]
theorem pieces_induction {motive : Text → Prop} (one : ∀ t, pieces 0 t = [t] → motive t)
    (cut : ∀ w b r, startsAnd (b :: r) = true → IsName 0 w → w.foldl depthAfter 0 = 0 →
      motive (r.drop 4) → motive (w ++ b :: r)) (t : Text) : motive t := by
  obtain hone | ⟨w, b, r, ht, hand, hw, hdepth, -⟩ := pieces_cases 0 t
  · exact one t hone
  · exact ht ▸ cut w b r hand hw hdepth (pieces_induction one cut (r.drop 4))
termination_by t.length
decreasing_by
  simp only [ht, List.length_append, List.length_cons, List.length_drop]
  omega

/-- Within braces nothing is cut: what is passed there is at the front of a piece. -/
theorem pieces_inside {k : Scan.Enclosure} {q q' : Scan.Quotation} {r : Text} {ws : List Text}
    (h : Scan.pass? k.after? q t = some q') (hr : pieces (q'.depth + 1) r = w :: ws) :
    pieces (q.depth + 1) (t ++ r) = (t ++ w) :: ws := by
  induction t generalizing q with
  | nil =>
      cases h
      exact hr
  | cons c t ih =>
      rw [Scan.pass?_cons] at h
      obtain ⟨q₁, hc, ht⟩ := Option.bind_eq_some_iff.1 h
      have hdeeper := Scan.Enclosure.depth_of_after? (Scan.Enclosure.after?_deeper id hc 1)
      rw [List.cons_append, pieces_cons, if_neg fun hand => absurd hand.1 (Nat.succ_ne_zero _),
        ← hdeeper, ih ht]
      rfl

/-! ## names -/

/-- A name that can stand in any list: nothing in it is cut or trimmed, and no brace is open. -/
structure StandsAlone (w : Text) : Prop where
  isName : IsName 0 w
  depth : w.foldl depthAfter 0 = 0
  trimmed : w.strip = w
  ne_nil : w ≠ []

theorem foldl_depthAfter_of_isSign (h : ∀ x ∈ s, Scan.isSign x = false) (d : Nat) :
    s.foldl depthAfter d = d :=
  (Scan.Enclosure.depth_of_pass? (Scan.Enclosure.pass?_of_isSign h .braces d)).symm

theorem isName_of_append (h : IsName d (s ++ w)) : IsName (s.foldl depthAfter d) w := by
  induction s generalizing d with
  | nil => exact h
  | cons c s ih => exact ih (isName_cons.1 h).2

/-- Blanks that follow a name may be left out. -/
theorem isName_of_append_blanks (ht : ∀ x ∈ t, Text.isBlank x = true) (h : IsName d (w ++ t)) :
    IsName d w := by
  cases t with
  | nil => rwa [List.append_nil] at h
  | cons b t =>
      have hb := ht b List.mem_cons_self
      induction w generalizing d with
      | nil => exact isName_nil d
      | cons c w ih =>
          obtain ⟨hstart, hw⟩ := isName_cons.1 h
          refine isName_cons.2 ⟨?_, ih hw⟩
          rw [startsAnd_append (by decide) hb c w [] (t ++ [' '])]
          simpa using hstart

/-- A name outside of braces is one after it is trimmed, up to white space at its end. -/
theorem exists_isName_strip (hw : IsName 0 w) (hdepth : w.foldl depthAfter 0 = 0) :
    ∃ v : Text, IsName 0 (w.strip ++ v) ∧ (∀ x ∈ v, x ∈ w ∧ Unicode.isWhiteSpace x = true) ∧
      w.strip.foldl depthAfter 0 = 0 := by
  obtain ⟨u, v, hsplit, hu, hv⟩ := Text.exists_trim Unicode.isWhiteSpace w
  have hsign {t : Text} (ht : ∀ x ∈ t, Unicode.isWhiteSpace x = true) (d : Nat) :
      t.foldl depthAfter d = d :=
    foldl_depthAfter_of_isSign (fun x hx => Scan.isSign_of_isWhiteSpace (ht x hx)) d
  have hmem {x : Char} (hx : x ∈ v) : x ∈ w := hsplit ▸ List.mem_append_right _ hx
  rw [hsplit, List.append_assoc] at hw
  rw [hsplit, List.append_assoc, List.foldl_append, List.foldl_append, hsign hu, hsign hv] at hdepth
  have hrest := isName_of_append hw
  rw [hsign hu] at hrest
  exact ⟨v, hrest, fun x hx => ⟨hmem hx, hv x hx⟩, hdepth⟩

/-- A name can stand alone when it is trimmed of blanks only. -/
theorem standsAlone_strip (hw : IsName 0 w) (hdepth : w.foldl depthAfter 0 = 0)
    (hblank : ∀ x ∈ w, Unicode.isWhiteSpace x = true → Text.isBlank x = true)
    (hne : w.strip ≠ []) : StandsAlone w.strip := by
  obtain ⟨v, hname, hv, hzero⟩ := exists_isName_strip hw hdepth
  have hblanks : ∀ x ∈ v, Text.isBlank x = true := fun x hx => hblank x (hv x hx).1 (hv x hx).2
  exact ⟨isName_of_append_blanks hblanks hname, hzero, Text.trim_trim _ w, hne⟩

/-- The one name of a list, unless it is empty. -/
theorem split_of_one (h : pieces 0 t = [t]) : split t = [t.strip].filter (· ≠ []) := by
  rw [split, h]
  rfl

/-- The first name of a list is cut off, unless it is empty. -/
theorem split_of_cut (hand : startsAnd (b :: r) = true) (hw : IsName 0 w)
    (hdepth : w.foldl depthAfter 0 = 0) :
    split (w ++ b :: r) = [w.strip].filter (· ≠ []) ++ split (r.drop 4) := by
  rw [split, pieces_append hw hdepth hand, List.map_cons, ← List.singleton_append, List.filter_append]
  rfl

/-- Every name but the last one is what stood in front of an ` and `, trimmed. -/
theorem exists_of_mem_dropLast (hw : w ∈ (split t).dropLast) : ∃ v : Text, w = v.strip ∧
    v.strip ≠ [] ∧ IsName 0 v ∧ v.foldl depthAfter 0 = 0 ∧ v ⊆ t := by
  induction t using pieces_induction with
  | one t h =>
      rw [split_of_one h] at hw
      by_cases hne : t.strip = [] <;> simp [hne] at hw
  | cut v b r hand hv hdepth ih =>
      have hrest (hw : w ∈ (split (r.drop 4)).dropLast) : ∃ u : Text, w = u.strip ∧
          u.strip ≠ [] ∧ IsName 0 u ∧ u.foldl depthAfter 0 = 0 ∧ u ⊆ v ++ b :: r := by
        obtain ⟨u, hu, hne, hname, hzero, hsub⟩ := ih hw
        refine ⟨u, hu, hne, hname, hzero, fun x hx => ?_⟩
        exact List.mem_append_right v (List.mem_cons_of_mem b (List.mem_of_mem_drop (hsub hx)))
      rw [split_of_cut hand hv hdepth] at hw
      by_cases hne : v.strip = []
      · exact hrest (by simpa [hne] using hw)
      · rw [List.filter_cons_of_pos (by simpa using hne), List.filter_nil,
          List.singleton_append] at hw
        cases hsplit : split (r.drop 4) with
        | nil => simp [hsplit] at hw
        | cons u us =>
            rw [hsplit, List.dropLast_cons_of_ne_nil (List.cons_ne_nil u us)] at hw
            obtain rfl | hw := List.mem_cons.1 hw
            · exact ⟨v, rfl, hne, hv, hdepth, fun x hx => List.mem_append_left _ hx⟩
            · exact hrest (hsplit ▸ hw)

/-- **Every name but the last one** can stand alone, in a list whose white space is blank. -/
theorem standsAlone_of_mem_dropLast
    (hblank : ∀ x ∈ t, Unicode.isWhiteSpace x = true → Text.isBlank x = true) :
    ∀ w ∈ (split t).dropLast, StandsAlone w := by
  intro w hw
  obtain ⟨v, rfl, hne, hv, hdepth, hsub⟩ := exists_of_mem_dropLast hw
  exact standsAlone_strip hv hdepth (fun x hx => hblank x (hsub hx)) hne

/-! ## joining names again -/

/-- **Names are found again** where they are joined. -/
theorem split_join {ns : List Text} (h : ∀ w ∈ ns, StandsAlone w) :
    split (join (ns ++ [others])) = ns ++ [others] := by
  have hpieces : pieces 0 (join (ns ++ [others])) = ns ++ [others] := by
    induction ns with
    | nil => exact pieces_eq_singleton (by decide) 0
    | cons w ns ih =>
        obtain ⟨hw, hns⟩ := List.forall_mem_cons.1 h
        have hand : startsAnd (' ' :: ("and ".toList ++ join (ns ++ [others]))) = true := by
          simp [startsAnd, isAnd, Text.isBlank]
        rw [join_cons_others]
        refine (pieces_append hw.isName hw.depth hand).trans ?_
        rw [show ("and ".toList ++ join (ns ++ [others])).drop 4 = join (ns ++ [others]) from rfl,
          ih hns]
        rfl
  have hall : ∀ w ∈ ns ++ [others], w.strip = w ∧ w ≠ [] := by
    simp only [List.mem_append, List.mem_singleton]
    rintro w (hw | rfl)
    · exact ⟨(h w hw).trimmed, (h w hw).ne_nil⟩
    · decide
  have hmap : (ns ++ [others]).map Text.strip = ns ++ [others] :=
    (List.map_congr_left fun w hw => (hall w hw).1).trans (List.map_id _)
  rw [split, hpieces, hmap]
  exact List.filter_eq_self.2 fun w hw => by simpa using (hall w hw).2
/-! ## characters -/

/-- The characters of a name are those of the list. -/
theorem mem_of_mem_split {x : Char} (hw : w ∈ split t) (hx : x ∈ w) : x ∈ t := by
  have hname {v : Text} (hw : w ∈ [v.strip].filter (· ≠ [])) : x ∈ v := by
    obtain rfl := List.mem_singleton.1 (List.mem_filter.1 hw).1
    exact Text.mem_of_mem_trim hx
  induction t using pieces_induction with
  | one t h =>
      rw [split_of_one h] at hw
      exact hname hw
  | cut v b r hand hv hdepth ih =>
      rw [split_of_cut hand hv hdepth, List.mem_append] at hw
      obtain hw | hw := hw
      · exact List.mem_append_left _ (hname hw)
      · exact List.mem_append_right _ (List.mem_cons_of_mem _ (List.mem_of_mem_drop (ih hw)))

theorem mem_join_others {ns : List Text} {x : Char} (h : x ∈ join (ns ++ [others])) :
    (∃ w ∈ ns, x ∈ w) ∨ x ∈ " and others".toList := by
  induction ns with
  | nil => exact .inr (List.mem_append_right " and ".toList h)
  | cons w ns ih =>
      rw [join_cons_others, List.mem_append, List.mem_append] at h
      obtain hw | hand | hns := h
      · exact .inl ⟨w, List.mem_cons_self, hw⟩
      · exact .inr (List.mem_append_left others hand)
      · exact (ih hns).imp_left fun ⟨v, hv, hx⟩ => ⟨v, List.mem_cons_of_mem w hv, hx⟩

theorem mem_join_of_mem_others {x : Char} (h : x ∈ others) (ns : List Text) :
    x ∈ join (ns ++ [others]) := by
  induction ns with
  | nil => exact h
  | cons w ns ih =>
      rw [join_cons_others]
      exact List.mem_append_right _ (List.mem_append_right _ ih)

end Names

/-! ## cutting lists off -/

namespace Normalization

open Names

variable {l : Nat} {t : Text}

/-- A list that is not cut off at a limit: it has no more names, or the placeholder after no more
than as many. -/
def IsShort (l : Nat) (t : Text) : Prop :=
  (split t).length ≤ l ∨ ∃ ns, t = join (ns ++ [others]) ∧ split t = ns ++ [others] ∧
    ns.length ≤ l ∧ ∀ w ∈ ns, isOthers w = false

theorem truncateAuthors_of_isShort (h : IsShort l t) : truncateAuthors l t = t := by
  unfold truncateAuthors
  dsimp only
  split
  · rfl
  · next hlong =>
    obtain hshort | ⟨ns, ht, hsplit, hlength, hnames⟩ := h
    · exact absurd hshort hlong
    · obtain rfl : l = ns.length := by
        rw [hsplit, List.length_append, List.length_singleton] at hlong
        omega
      have hfilter : ns.filter (!isOthers ·) = ns :=
        List.filter_eq_self.2 fun w hw => by simp [hnames w hw]
      rw [hsplit, List.take_left, hfilter, ← ht]

/-- The names that are left of a list that is cut off. -/
def kept (l : Nat) (t : Text) : List Text := ((split t).take l).filter (!isOthers ·)

/-- The last name of a list that is cut off is not left. -/
theorem mem_dropLast_of_mem_kept (hlong : l < (split t).length) (hw : w ∈ kept l t) :
    w ∈ (split t).dropLast := by
  have hfirst : (split t).take l <+: (split t).dropLast := by
    rw [List.dropLast_eq_take]
    exact List.take_prefix_take_left (by omega)
  exact hfirst.subset (List.mem_filter.1 hw).1

/-- A list that is cut off is found again as the names that are left and the placeholder. -/
theorem truncateAuthors_cases
    (hblank : ∀ x ∈ t, Unicode.isWhiteSpace x = true → Text.isBlank x = true) :
    (split t).length ≤ l ∧ truncateAuthors l t = t ∨
      l < (split t).length ∧ truncateAuthors l t = join (kept l t ++ [others]) ∧
        split (truncateAuthors l t) = kept l t ++ [others] := by
  by_cases hlong : (split t).length ≤ l
  · exact .inl ⟨hlong, truncateAuthors_of_isShort (.inl hlong)⟩
  · have hcut : truncateAuthors l t = join (kept l t ++ [others]) := if_neg hlong
    have hlong' := Nat.lt_of_not_le hlong
    refine .inr ⟨hlong', hcut, ?_⟩
    rw [hcut]
    exact split_join fun w hw =>
      standsAlone_of_mem_dropLast hblank w (mem_dropLast_of_mem_kept hlong' hw)

/-- **A list that was cut off** is not cut off again. -/
theorem isShort_truncateAuthors
    (hblank : ∀ x ∈ t, Unicode.isWhiteSpace x = true → Text.isBlank x = true) :
    IsShort l (truncateAuthors l t) := by
  obtain ⟨hshort, hsame⟩ | ⟨-, hcut, hsplit⟩ := truncateAuthors_cases hblank (l := l)
  · rw [hsame]
    exact .inl hshort
  · refine .inr ⟨kept l t, hcut, hsplit, ?_, fun w hw => by simpa using (List.mem_filter.1 hw).2⟩
    exact Nat.le_trans (List.length_filter_le _ _) (List.length_take_le l _)

/-- A list that is not cut off at a limit is not cut off there after it was at another one. -/
theorem IsShort.truncateAuthors (h : IsShort l t) (m : Nat)
    (hblank : ∀ x ∈ t, Unicode.isWhiteSpace x = true → Text.isBlank x = true) :
    IsShort l (truncateAuthors m t) := by
  obtain ⟨-, hsame⟩ | ⟨hlong, hcut, hsplit⟩ := truncateAuthors_cases hblank (l := m)
  · rwa [hsame]
  · refine .inr ⟨kept m t, hcut, hsplit, ?_, fun w hw => by simpa using (List.mem_filter.1 hw).2⟩
    have hkept : (kept m t).length ≤ ((split t).take m).length := List.length_filter_le _ _
    rw [List.length_take] at hkept
    obtain hshort | ⟨ns, -, hnames, hlength, -⟩ := h
    · omega
    · rw [hnames, List.length_append, List.length_singleton] at hlong
      omega

/-- **A balanced list in braces** is one name, which no limit but zero cuts off. -/
theorem isShort_braces (h : t.IsBalanced) (hl : l ≠ 0) : IsShort l ('{' :: t ++ ['}']) := by
  obtain ⟨q, ht, hq, -⟩ := Scan.Enclosure.closes_braces_iff.2 h
  have hend : pieces (q.depth + 1) ['}'] = [['}']] := pieces_eq_singleton (by decide) _
  have hone : pieces 0 ('{' :: t ++ ['}']) = ['{' :: t ++ ['}']] :=
    pieces_cons_eq_singleton_iff.2 ⟨fun hand => absurd (isBlank_of_startsAnd hand.2) (by decide),
      pieces_inside ht hend⟩
  left
  have hlength : (split ('{' :: t ++ ['}'])).length ≤ 1 := by
    rw [split_of_one hone]
    exact List.length_filter_le _ _
  omega

/-! ## what is cut off -/

/-- A list is kept, or what is cut off is the names that are left and the placeholder. -/
theorem truncateAuthors_eq (l : Nat) (t : Text) :
    truncateAuthors l t = t ∨ truncateAuthors l t = join (kept l t ++ [others]) := by
  unfold truncateAuthors
  dsimp only
  split
  · exact .inl rfl
  · exact .inr rfl

/-- The characters of a list that is cut off are its own, or those of the placeholder. -/
theorem mem_truncateAuthors {x : Char} (hx : x ∈ truncateAuthors l t) :
    x ∈ t ∨ x ∈ " and others".toList := by
  obtain hsame | hcut := truncateAuthors_eq l t
  · exact .inl (hsame ▸ hx)
  · rw [hcut] at hx
    refine (mem_join_others hx).imp_left fun ⟨w, hw, hx⟩ => ?_
    exact mem_of_mem_split (List.mem_of_mem_take (List.mem_filter.1 hw).1) hx

end Normalization

end Bibliography
