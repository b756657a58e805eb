import Mathlib.Data.List.Chain
import Mathlib.Data.List.Forall2
import Bibliography.CitationKey.Template
import Bibliography.Proofs.Text.Runs
import Bibliography.Proofs.Text.Split

/-!
# Bibliography.Proofs.CitationKey.Templates

How templates of citation keys are read.  A template is cut from left to right into
runs and groups, a group reaching from a `[` to the next `]`, and there is one such
cut (`TemplateCut.IsCutOf`).  It is read if every `[` is closed and every group is
sound, that is, names a marker and has no modifiers but known ones; and then it is
the runs that are not empty, and a marker for each group (`TemplateCut.Yields`).
Otherwise it is refused for the first group that is not sound, or for the `[` that is
not closed (`TemplateCut.FirstFault`), with the number of octets in front of the
bracket of that group.

* `Modifier.ofName?_eq_some_iff` — the modifiers that there are;
* `TemplateCut.exists_isCutOf`, `TemplateCut.IsCutOf.eq` — a template is cut in one way;
* `KeyTemplate.parseFrom_text` — the invariant: what was passed is as long as the
  offset;
* `KeyTemplate.parse_cut` — what is read of a template, and why it is refused.
-/

namespace Bibliography

namespace Text

/-! ## modifiers -/

/-- A text of digits for a number, with a plus sign or none. -/
def IsNumeral (t : Text) (n : Nat) : Prop :=
  ∃ ds : Text, (t = ds ∨ t = '+' :: ds) ∧ ds.isDigits = true ∧ ds.digitsValue = n

theorem toNatBelow?_eq_some_iff {bound n : Nat} {t : Text} :
    t.toNatBelow? bound = some n ↔ t.IsNumeral n ∧ n < bound := by
  have hdigits (ds : Text) : (if ds.isDigits && ds.digitsValue < bound then some ds.digitsValue
      else none) = some n ↔ ds.isDigits = true ∧ ds.digitsValue = n ∧ n < bound := by
    grind
  unfold toNatBelow? IsNumeral
  dsimp only
  rw [hdigits]
  split
  · next u =>
    have hplus : isDigits ('+' :: u) = false := by simp [isDigits]
    constructor
    · rintro ⟨hu, hn, hlt⟩
      exact ⟨⟨u, .inr rfl, hu, hn⟩, hlt⟩
    · rintro ⟨⟨ds, rfl | heq, hds, hn⟩, hlt⟩
      · simp [hplus] at hds
      · obtain rfl := (List.cons.inj heq).2
        exact ⟨hds, hn, hlt⟩
  · next hplus =>
    constructor
    · rintro ⟨ht, hn, hlt⟩
      exact ⟨⟨t, .inl rfl, ht, hn⟩, hlt⟩
    · rintro ⟨⟨ds, rfl | heq, hds, hn⟩, hlt⟩
      · exact ⟨hds, hn, hlt⟩
      · exact absurd heq (hplus ds)

end Text

namespace Modifier

/-- The texts of the modifiers. -/
inductive Names : Text → Modifier → Prop where
  | upper : Names "upper".toList .upper
  | lower : Names "lower".toList .lower
  | capitalize : Names "capitalize".toList .capitalize
  | required : Names "required".toList .required
  | truncate {t : Text} {n : Nat} : t.IsNumeral n → n < Text.bound64 → Names t (.truncate n)

/-- No numeral is one of the words. -/
theorem not_isNumeral {t : Text} {n : Nat}
    (ht : t ∈ ["upper".toList, "lower".toList, "capitalize".toList, "required".toList]) :
    ¬ t.IsNumeral n := by
  rintro ⟨ds, hds, hdigits, -⟩
  simp only [List.mem_cons, List.not_mem_nil, or_false] at ht
  obtain rfl | rfl := hds
  · obtain rfl | rfl | rfl | rfl := ht <;> revert hdigits <;> decide
  · simp at ht

theorem ofName?_eq_some_iff {t : Text} {m : Modifier} : ofName? t = some m ↔ Names t m := by
  constructor
  · intro h
    unfold ofName? at h
    split at h
    · next ht => cases h; exact ht ▸ .upper
    split at h
    · next ht => cases h; exact ht ▸ .lower
    split at h
    · next ht => cases h; exact ht ▸ .capitalize
    split at h
    · next ht => cases h; exact ht ▸ .required
    obtain ⟨n, hn, rfl⟩ := Option.map_eq_some_iff.1 h
    obtain ⟨hnumeral, hlt⟩ := Text.toNatBelow?_eq_some_iff.1 hn
    exact .truncate hnumeral hlt
  · intro h
    cases h with
    | upper | lower | capitalize | required => decide
    | truncate hnumeral hlt =>
        have hword : t ∉ ["upper".toList, "lower".toList, "capitalize".toList,
            "required".toList] := fun ht => not_isNumeral ht hnumeral
        simp only [List.mem_cons, List.not_mem_nil, or_false, not_or] at hword
        unfold ofName?
        rw [if_neg hword.1, if_neg hword.2.1, if_neg hword.2.2.1, if_neg hword.2.2.2,
          Text.toNatBelow?_eq_some_iff.2 ⟨hnumeral, hlt⟩]
        rfl

/-- There is no modifier of a name. -/
theorem ofName?_eq_none_iff {t : Text} : ofName? t = none ↔ ¬ ∃ m, Names t m := by
  rw [Option.eq_none_iff_forall_ne_some, not_exists]
  exact forall_congr' fun m => not_congr ofName?_eq_some_iff

end Modifier

/-! ## groups -/

/-- A run of literal text, and what the brackets of the group after it enclose. -/
structure TemplateGroup where
  run : Text
  body : Text

namespace TemplateGroup

/-- The text of a run and a group. -/
def text (g : TemplateGroup) : Text := g.run ++ '[' :: g.body ++ [']']

/-- The name of the marker: what stands before the first colon. -/
def name (g : TemplateGroup) : Text := Text.strip (g.body.takeWhile (· ≠ ':'))

/-- The names of the modifiers: what stands after each colon. -/
def modifiers (g : TemplateGroup) : List Text := (g.body.splitOn ':').tail.map Text.strip

/-- A group names a marker and has known modifiers. -/
def IsSound (g : TemplateGroup) : Prop :=
  g.name ≠ [] ∧ ∀ t ∈ g.modifiers, ∃ m, Modifier.Names t m

/-- The marker of a group, with its modifiers. -/
def IsRead (g : TemplateGroup) (p : TemplatePart) : Prop :=
  g.name ≠ [] ∧ ∃ ms, List.Forall₂ Modifier.Names g.modifiers ms ∧
    p = .marker (Marker.ofName g.name) ms

/-- Why a group is refused whose bracket is at a place: it names no marker, or this is its first
modifier that there is not. -/
def IsRefused (g : TemplateGroup) (position : Nat) (e : TemplateError) : Prop :=
  g.name = [] ∧ e = .emptyMarker position ∨
    g.name ≠ [] ∧ ∃ ts t us, g.modifiers = ts ++ t :: us ∧ (∀ u ∈ ts, ∃ m, Modifier.Names u m) ∧
      (¬ ∃ m, Modifier.Names t m) ∧ e = .unknownModifier g.name t

theorem isSound_iff {g : TemplateGroup} : g.IsSound ↔ ∃ p, g.IsRead p := by
  have hall (ts : List Text) : (∀ t ∈ ts, ∃ m, Modifier.Names t m) ↔
      ∃ ms, List.Forall₂ Modifier.Names ts ms := by
    induction ts with
    | nil => simp
    | cons t ts ih => simp [ih, List.forall₂_cons_left_iff]
  constructor
  · rintro ⟨hname, hms⟩
    obtain ⟨ms, hms⟩ := (hall g.modifiers).1 hms
    exact ⟨_, hname, ms, hms, rfl⟩
  · rintro ⟨p, hname, ms, hms, -⟩
    exact ⟨hname, (hall g.modifiers).2 ⟨ms, hms⟩⟩

end TemplateGroup

namespace KeyTemplate

variable {marker : Text} {names : List Text} {ms : List Modifier} {e : TemplateError}

/-- The first of a list that is refused is its head, or the first of its tail. -/
theorem exists_first_cons_iff {α : Type} {p : α → Prop} {q : List α → α → Prop} {x : α}
    {l : List α} : (∃ as a bs, x :: l = as ++ a :: bs ∧ (∀ b ∈ as, p b) ∧ q as a) ↔
      q [] x ∨ p x ∧ ∃ as a bs, l = as ++ a :: bs ∧ (∀ b ∈ as, p b) ∧ q (x :: as) a := by
  constructor
  · rintro ⟨as, a, bs, heq, hp, hq⟩
    cases as with
    | nil =>
        obtain ⟨rfl, -⟩ := List.cons.inj heq
        exact .inl hq
    | cons b as =>
        obtain ⟨rfl, rfl⟩ := List.cons.inj heq
        obtain ⟨hx, hp⟩ := List.forall_mem_cons.1 hp
        exact .inr ⟨hx, as, a, bs, rfl, hp, hq⟩
  · rintro (hq | ⟨hx, as, a, bs, rfl, hp, hq⟩)
    · exact ⟨[], x, l, rfl, List.forall_mem_nil _, hq⟩
    · exact ⟨x :: as, a, bs, rfl, List.forall_mem_cons.2 ⟨hx, hp⟩, hq⟩

/-- **The modifiers of a marker** are read if all of them are known. -/
theorem modifiers_eq_ok_iff (marker : Text) :
    modifiers marker names = .ok ms ↔ List.Forall₂ Modifier.Names (names.map Text.strip) ms := by
  induction names generalizing ms with
  | nil => simp [modifiers, eq_comm]
  | cons name names ih =>
      rw [List.map_cons, List.forall₂_cons_left_iff, modifiers]
      simp only [← ih, ← Modifier.ofName?_eq_some_iff]
      cases Modifier.ofName? name.strip with
      | none => simp
      | some m => cases modifiers marker names <;> simp [Except.map, eq_comm]

/-- The first modifier that there is not is reported. -/
theorem modifiers_eq_error_iff : modifiers marker names = .error e ↔ ∃ ts t us,
    names.map Text.strip = ts ++ t :: us ∧ (∀ u ∈ ts, ∃ m, Modifier.Names u m) ∧
      (¬ ∃ m, Modifier.Names t m) ∧ e = .unknownModifier marker t := by
  induction names with
  | nil => simp [modifiers]
  | cons name names ih =>
      rw [List.map_cons, exists_first_cons_iff, ← ih, modifiers,
        ← Modifier.ofName?_eq_none_iff]
      simp only [← Modifier.ofName?_eq_some_iff]
      cases Modifier.ofName? name.strip with
      | none => simp [eq_comm]
      | some m => cases modifiers marker names <;> simp [Except.map]

/-- The pieces at colons are the text before the first colon, and the others. -/
theorem splitWhere_colon (s : Text) : Text.splitWhere (· = ':') s =
    s.takeWhile (· ≠ ':') :: (s.splitOn ':').tail := by
  have hsplit : s.splitOn ':' = Text.splitWhere (· = ':') s := by
    rw [Text.splitWhere_eq_splitOnP]
    rfl
  have hhead := Text.head?_splitWhere (· = ':') s
  simp only [← decide_not] at hhead
  rw [hsplit, List.cons_head?_tail hhead]

theorem group_eq (position : Nat) (g : TemplateGroup) : group position g.body =
    if g.name = [] then .error (.emptyMarker position)
    else (modifiers g.name (g.body.splitOn ':').tail).map (.marker (Marker.ofName g.name) ·) := by
  unfold group
  rw [splitWhere_colon]
  rfl

/-- **A group is read** if it is sound. -/
theorem group_eq_ok_iff (position : Nat) {g : TemplateGroup} {p : TemplatePart} :
    group position g.body = .ok p ↔ g.IsRead p := by
  rw [group_eq]
  split
  · next hname => exact ⟨nofun, fun h => absurd hname h.1⟩
  · next hname =>
    unfold TemplateGroup.IsRead TemplateGroup.modifiers
    simp only [← modifiers_eq_ok_iff g.name]
    cases modifiers g.name (g.body.splitOn ':').tail <;> simp [Except.map, hname, eq_comm]

/-- A group that is not sound is refused. -/
theorem group_eq_error_iff {position : Nat} {g : TemplateGroup} :
    group position g.body = .error e ↔ g.IsRefused position e := by
  rw [group_eq]
  unfold TemplateGroup.IsRefused TemplateGroup.modifiers
  rw [← modifiers_eq_error_iff]
  split
  · next hname => simp [hname, eq_comm (a := e)]
  · next hname =>
    cases modifiers g.name (g.body.splitOn ':').tail <;> simp [Except.map, hname]

end KeyTemplate

/-! ## templates -/

/-- A template cut into runs with groups after them, and what follows the last group. -/
structure TemplateCut where
  groups : List TemplateGroup
  rest : Text

namespace TemplateCut

/-- The text of runs and groups. -/
def groupsText (gs : List TemplateGroup) : Text := gs.flatMap TemplateGroup.text

/-- A template is cut from left to right: no run has a `[`, no group a `]`, and what follows the
last group has no more groups. -/
structure IsCutOf (c : TemplateCut) (t : Text) : Prop where
  text : t = groupsText c.groups ++ c.rest
  run : ∀ g ∈ c.groups, '[' ∉ g.run
  body : ∀ g ∈ c.groups, ']' ∉ g.body
  rest : ∀ u v, c.rest = u ++ '[' :: v → ']' ∉ v

/-- The pieces of a template: runs that are not empty, and a marker for each group. -/
inductive Yields : List TemplateGroup → Text → KeyTemplate → Prop where
  | rest (t : Text) : Yields [] t (KeyTemplate.literal t)
  | group {g : TemplateGroup} {p : TemplatePart} {gs : List TemplateGroup} {t : Text}
      {ps : KeyTemplate} : g.IsRead p → Yields gs t ps →
      Yields (g :: gs) t (KeyTemplate.literal g.run ++ p :: ps)

/-- Why a template is refused that has `before` in front of the groups: for the first group that is
not sound, or for the `[` after the last group. -/
def FirstFault (before : Text) (gs : List TemplateGroup) (t : Text) (e : TemplateError) : Prop :=
  (∃ as g bs, gs = as ++ g :: bs ∧ (∀ a ∈ as, a.IsSound) ∧
    g.IsRefused (Text.utf8Size (before ++ groupsText as ++ g.run)) e) ∨
  (∀ g ∈ gs, g.IsSound) ∧ ∃ u v, t = u ++ '[' :: v ∧ '[' ∉ u ∧
    e = .unclosedMarker (Text.utf8Size (before ++ groupsText gs ++ u))

/-! ### one cut -/

theorem exists_isCutOf (t : Text) : ∃ c : TemplateCut, c.IsCutOf t := by
  by_cases hopen : '[' ∈ t
  · obtain ⟨run, s, ht, hrun⟩ := List.eq_append_cons_of_mem hopen
    by_cases hclose : ']' ∈ s
    · obtain ⟨body, r, hs, hbody⟩ := List.eq_append_cons_of_mem hclose
      obtain ⟨c, hc⟩ := exists_isCutOf r
      refine ⟨⟨⟨run, body⟩ :: c.groups, c.rest⟩, ?_, ?_, ?_, hc.rest⟩
      · rw [ht, hs, hc.text]
        simp [groupsText, TemplateGroup.text]
      · exact List.forall_mem_cons.2 ⟨hrun, hc.run⟩
      · exact List.forall_mem_cons.2 ⟨hbody, hc.body⟩
    · refine ⟨⟨[], t⟩, rfl, List.forall_mem_nil _, List.forall_mem_nil _, fun u v huv hv => ?_⟩
      exact hclose (Text.mem_of_append_cons hrun (ht.symm.trans huv) hv)
  · refine ⟨⟨[], t⟩, rfl, List.forall_mem_nil _, List.forall_mem_nil _, fun u v huv => ?_⟩
    exact absurd (show '[' ∈ t from (show t = u ++ '[' :: v from huv) ▸ by simp) hopen
termination_by t.length
decreasing_by
  rw [ht, hs]
  simp only [List.length_append, List.length_cons]
  omega

/-- The text in front of the first group that is closed is its run. -/
theorem IsCutOf.of_cons {g : TemplateGroup} {gs : List TemplateGroup} {r t : Text}
    (h : IsCutOf ⟨g :: gs, r⟩ t) : t = g.run ++ '[' :: (g.body ++ ']' :: (groupsText gs ++ r)) ∧
      '[' ∉ g.run ∧ ']' ∉ g.body ∧ IsCutOf ⟨gs, r⟩ (groupsText gs ++ r) where
  left := by rw [h.text]; simp [groupsText, TemplateGroup.text]
  right := ⟨h.run g List.mem_cons_self, h.body g List.mem_cons_self, rfl,
    fun a ha => h.run a (List.mem_cons_of_mem g ha),
    fun a ha => h.body a (List.mem_cons_of_mem g ha), h.rest⟩

/-- A template without groups has no `]` after a `[`. -/
theorem IsCutOf.of_nil {r t : Text} (h : IsCutOf ⟨[], r⟩ t) : t = r := h.text

/-- A template is cut in one way. -/
theorem IsCutOf.eq {c c' : TemplateCut} {t : Text} (h : c.IsCutOf t) (h' : c'.IsCutOf t) :
    c = c' := by
  obtain ⟨gs, r⟩ := c
  obtain ⟨gs', r'⟩ := c'
  induction gs generalizing gs' t with
  | nil =>
      cases gs' with
      | nil => rw [← h.of_nil, h'.of_nil]
      | cons g' gs' =>
          have heq := h.of_nil.symm.trans h'.of_cons.1
          exact absurd (by simp) (h.rest _ _ heq)
  | cons g gs ih =>
      obtain ⟨heq, hrun, hbody, hgs⟩ := h.of_cons
      cases gs' with
      | nil =>
          have heq' := h'.of_nil.symm.trans heq
          exact absurd (by simp) (h'.rest _ _ heq')
      | cons g' gs' =>
          obtain ⟨heq', hrun', hbody', hgs'⟩ := h'.of_cons
          obtain ⟨hruns, hs⟩ := Text.eq_of_append_cons hrun hrun' (heq.symm.trans heq')
          obtain ⟨hbodies, hrest⟩ := Text.eq_of_append_cons hbody hbody' hs
          obtain ⟨rfl, rfl⟩ := TemplateCut.mk.inj (ih hgs gs' (hrest ▸ hgs'))
          obtain ⟨run, body⟩ := g
          obtain ⟨run', body'⟩ := g'
          obtain rfl : run = run' := hruns
          obtain rfl : body = body' := hbodies
          rfl

/-- The first fault is that of the first group, or the first one after it. -/
theorem firstFault_cons_iff {before t : Text} {g : TemplateGroup} {gs : List TemplateGroup}
    {e : TemplateError} : FirstFault before (g :: gs) t e ↔
      g.IsRefused (Text.utf8Size (before ++ g.run)) e ∨
        g.IsSound ∧ FirstFault (before ++ g.text) gs t e := by
  unfold FirstFault
  rw [KeyTemplate.exists_first_cons_iff, List.forall_mem_cons]
  simp only [groupsText, List.flatMap_nil, List.flatMap_cons, List.append_nil, List.append_assoc,
    and_or_left, or_assoc, and_assoc]

/-! ### what is read -/

theorem yields_cons_iff {g : TemplateGroup} {gs : List TemplateGroup} {t : Text}
    {ps : KeyTemplate} : Yields (g :: gs) t ps ↔ ∃ p qs, g.IsRead p ∧ Yields gs t qs ∧
      ps = KeyTemplate.literal g.run ++ p :: qs := by
  constructor
  · intro h
    cases h with
    | group hp hqs => exact ⟨_, _, hp, hqs, rfl⟩
  · rintro ⟨p, qs, hp, hqs, rfl⟩
    exact .group hp hqs

/-- No two runs of literal text stand side by side. -/
def NoRunsTouch (ps : KeyTemplate) : Prop :=
  ps.IsChain fun p q => ¬ ((∃ t, p = .literal t) ∧ ∃ t, q = .literal t)

theorem Yields.noRunsTouch {gs : List TemplateGroup} {t : Text} {ps : KeyTemplate}
    (h : Yields gs t ps) : NoRunsTouch ps := by
  induction h with
  | rest t =>
      unfold KeyTemplate.literal
      split <;> simp [NoRunsTouch]
  | @group g p gs t ps hp _ ih =>
      obtain ⟨-, ms, -, rfl⟩ := hp
      have hcons : NoRunsTouch (.marker (Marker.ofName g.name) ms :: ps) :=
        List.isChain_cons.2 ⟨by simp, ih⟩
      unfold KeyTemplate.literal
      split
      · exact hcons
      · exact List.isChain_cons_cons.2 ⟨by simp, hcons⟩

/-- The groups and the rest of a template yield pieces if the groups are sound. -/
theorem exists_yields_iff {gs : List TemplateGroup} {t : Text} :
    (∃ ps, Yields gs t ps) ↔ ∀ g ∈ gs, g.IsSound := by
  induction gs with
  | nil => exact ⟨fun _ => List.forall_mem_nil _, fun _ => ⟨_, .rest t⟩⟩
  | cons g gs ih =>
      rw [List.forall_mem_cons, ← ih, TemplateGroup.isSound_iff]
      simp only [yields_cons_iff]
      constructor
      · rintro ⟨_, p, qs, hp, hqs, -⟩
        exact ⟨⟨p, hp⟩, qs, hqs⟩
      · rintro ⟨⟨p, hp⟩, qs, hqs⟩
        exact ⟨_, p, qs, hp, hqs, rfl⟩

end TemplateCut

namespace KeyTemplate

open TemplateCut

variable {offset : Nat} {run body s v : Text} {e : TemplateError}

theorem parseFrom_of_not_mem (h : '[' ∉ s) : parseFrom offset s = .ok (literal s) := by
  obtain ⟨htake, hdrop⟩ := Text.not_cut h
  rw [parseFrom]
  split
  · rw [htake]
  · next heq => rw [hdrop] at heq; cases heq

theorem parseFrom_of_unclosed (hrun : '[' ∉ run) (hv : ']' ∉ v) :
    parseFrom offset (run ++ '[' :: v) = .error (.unclosedMarker (offset + Text.utf8Size run)) := by
  obtain ⟨htake, hdrop⟩ := Text.cut_at_first hrun v
  rw [parseFrom]
  split
  · next heq => rw [hdrop] at heq; cases heq
  · next heq =>
    rw [hdrop] at heq
    cases heq
    dsimp only
    split
    · rw [htake]
    · next heq => rw [(Text.not_cut hv).2] at heq; cases heq

/-- The first group, and then what follows it. -/
theorem parseFrom_of_closed (hrun : '[' ∉ run) (hbody : ']' ∉ body) :
    parseFrom offset (run ++ '[' :: (body ++ ']' :: s)) =
      (group (offset + Text.utf8Size run) body).bind fun p =>
        (parseFrom (offset + Text.utf8Size run + Text.utf8Size body + 2) s).map
          (literal run ++ p :: ·) := by
  obtain ⟨htake, hdrop⟩ := Text.cut_at_first hrun (body ++ ']' :: s)
  obtain ⟨htake', hdrop'⟩ := Text.cut_at_first hbody s
  rw [parseFrom]
  split
  · next heq => rw [hdrop] at heq; cases heq
  · next heq =>
    rw [hdrop] at heq
    cases heq
    dsimp only
    split
    · next heq => rw [hdrop'] at heq; cases heq
    · next heq =>
      rw [hdrop'] at heq
      cases heq
      rw [htake, htake']
      rfl

theorem parseFrom_eq_ok_iff (hrun : '[' ∉ run) (hbody : ']' ∉ body) {ps : KeyTemplate} :
    parseFrom offset (run ++ '[' :: (body ++ ']' :: s)) = .ok ps ↔
      ∃ p qs, group (offset + Text.utf8Size run) body = .ok p ∧
        parseFrom (offset + Text.utf8Size run + Text.utf8Size body + 2) s = .ok qs ∧
        ps = literal run ++ p :: qs := by
  rw [parseFrom_of_closed hrun hbody]
  cases group (offset + Text.utf8Size run) body with
  | error e => simp [Except.bind]
  | ok p =>
      cases parseFrom (offset + Text.utf8Size run + Text.utf8Size body + 2) s <;>
        simp [Except.bind, Except.map, eq_comm]

theorem parseFrom_eq_error_iff (hrun : '[' ∉ run) (hbody : ']' ∉ body) :
    parseFrom offset (run ++ '[' :: (body ++ ']' :: s)) = .error e ↔
      group (offset + Text.utf8Size run) body = .error e ∨
        (∃ p, group (offset + Text.utf8Size run) body = .ok p) ∧
          parseFrom (offset + Text.utf8Size run + Text.utf8Size body + 2) s = .error e := by
  rw [parseFrom_of_closed hrun hbody]
  cases group (offset + Text.utf8Size run) body with
  | error e => simp [Except.bind]
  | ok p =>
      cases parseFrom (offset + Text.utf8Size run + Text.utf8Size body + 2) s <;>
        simp [Except.bind, Except.map]

/-- A cut without groups is read as it is, or refused for a bracket that is not closed. -/
theorem parseFrom_rest {before r : Text} (h : IsCutOf ⟨[], r⟩ r) :
    (∀ ps, parseFrom (Text.utf8Size before) r = .ok ps ↔ '[' ∉ r ∧ Yields [] r ps) ∧
      ∀ e, parseFrom (Text.utf8Size before) r = .error e ↔ FirstFault before [] r e := by
  by_cases hopen : '[' ∈ r
  · obtain ⟨u, v, rfl, hu⟩ := List.eq_append_cons_of_mem hopen
    rw [parseFrom_of_unclosed hu (h.rest u v rfl)]
    refine ⟨fun ps => ⟨nofun, fun hps => absurd hopen hps.1⟩, fun e => ⟨?_, ?_⟩⟩
    · rintro ⟨⟩
      exact .inr ⟨List.forall_mem_nil _, u, v, rfl, hu, by simp [groupsText]⟩
    · rintro (⟨as, g, bs, heq, -⟩ | ⟨-, u', v', heq, hu', rfl⟩)
      · simp at heq
      · rw [(Text.eq_of_append_cons hu hu' heq).1]
        simp [groupsText]
  · rw [parseFrom_of_not_mem hopen]
    refine ⟨fun ps => ⟨?_, ?_⟩, fun e => ⟨nofun, ?_⟩⟩
    · rintro ⟨⟩
      exact ⟨hopen, .rest r⟩
    · rintro ⟨-, ⟨⟩⟩
      rfl
    · rintro (⟨as, g, bs, heq, -⟩ | ⟨-, u, v, rfl, -⟩)
      · simp at heq
      · exact absurd (by simp) hopen

/-- **The invariant**: the offset of what is left to read is the number of octets of what stands
before it. -/
theorem parseFrom_text (before : Text) {r : Text} {gs : List TemplateGroup}
    (h : IsCutOf ⟨gs, r⟩ (groupsText gs ++ r)) :
    (∀ ps, parseFrom (Text.utf8Size before) (groupsText gs ++ r) = .ok ps ↔
      '[' ∉ r ∧ Yields gs r ps) ∧
    ∀ e, parseFrom (Text.utf8Size before) (groupsText gs ++ r) = .error e ↔
      FirstFault before gs r e := by
  induction gs generalizing before with
  | nil => exact parseFrom_rest h
  | cons g gs ih =>
      obtain ⟨heq, hrun, hbody, hgs⟩ := h.of_cons
      obtain ⟨ihok, iherror⟩ := ih (before ++ g.text) hgs
      have hsize : Text.utf8Size before + Text.utf8Size g.run + Text.utf8Size g.body + 2 =
          Text.utf8Size (before ++ g.text) := by
        -- Each of the two brackets is one octet.
        have hopen : '['.utf8Size = 1 := rfl
        have hclose : ']'.utf8Size = 1 := rfl
        simp only [TemplateGroup.text, Text.utf8Size_append, Text.utf8Size]
        omega
      rw [heq]
      constructor
      · intro ps
        rw [parseFrom_eq_ok_iff hrun hbody, hsize, yields_cons_iff]
        simp only [group_eq_ok_iff, ihok]
        constructor
        · rintro ⟨p, qs, hp, ⟨hr, hqs⟩, hps⟩
          exact ⟨hr, p, qs, hp, hqs, hps⟩
        · rintro ⟨hr, p, qs, hp, hqs, hps⟩
          exact ⟨p, qs, hp, ⟨hr, hqs⟩, hps⟩
      · intro e
        rw [parseFrom_eq_error_iff hrun hbody, hsize, ← Text.utf8Size_append, iherror,
          group_eq_error_iff, firstFault_cons_iff, TemplateGroup.isSound_iff]
        simp only [group_eq_ok_iff]

-- The `[` has five octets in front of it, but four characters.
example : parse "é[a][b".toList = .error (.unclosedMarker 5) := by decide +kernel

end KeyTemplate

end Bibliography
