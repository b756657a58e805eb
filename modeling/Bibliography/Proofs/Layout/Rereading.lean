import Bibliography.Proofs.Grammar.Nesting
import Bibliography.Proofs.Parse.Sound
import Bibliography.Proofs.Render.RoundTrip

/-!
# Bibliography.Proofs.Layout.Rereading

What is read where a layout has wrapped a value.  The reader and the wrapper see the
same braces, but not the same white space and not the same quotation marks.  White
space of Unicode that is no blank can stand in a bare token, and the wrapper breaks
the token there.  A mark after a backslash does not end a quoted text, but the wrapper
takes it for the end, and then breaks the groups in braces that follow.

Where neither happens, a value is read again up to white space outside of nested
braces, which `Text.squeeze` makes a single space: bare tokens are the same, and so
is every nested group.

* `Value.Reflow.squeeze_eq` — refilled texts are the same up to white space;
* `Value.isSolid_of_isReadFrom_wrap`, `Value.Reflow.isSheltered` — where values are
  not read again;
* `Layout.isReadFrom_value_iff` — the values that every layout keeps.
-/

namespace Bibliography

open Wrap

/-! ## squeezed texts -/

namespace Text

/-- A text in which white space where at most `k` braces are open is one space; `n` braces are open
in front of it, and `gap` says that such white space comes before. -/
def squeezeFrom (k n : Nat) (gap : Bool) : Text → Text
  | [] => []
  | c :: s =>
    if Unicode.isWhiteSpace c ∧ n ≤ k then
      (if gap then [] else [' ']) ++ squeezeFrom k (Names.depthAfter n c) true s
    else c :: squeezeFrom k (Names.depthAfter n c) false s

/-- A text in which every run of white space where at most `k` braces are open is one space. -/
def squeeze (k : Nat) (t : Text) : Text := squeezeFrom k 0 false t

variable {k n : Nat} {gap : Bool} {c : Char} {s t v : Text}

theorem depthAfter_of_isWhiteSpace (hc : Unicode.isWhiteSpace c = true) (n : Nat) :
    Names.depthAfter n c = n :=
  (Scan.Enclosure.depth_of_after?
    (Scan.Enclosure.after?_of_isSign (Scan.isSign_of_isWhiteSpace hc) .braces ⟨n, false⟩)).symm

theorem squeezeFrom_white (hc : Unicode.isWhiteSpace c = true) (hn : n ≤ k) :
    squeezeFrom k n gap (c :: s) = (if gap then [] else [' ']) ++ squeezeFrom k n true s := by
  rw [squeezeFrom, if_pos ⟨hc, hn⟩, depthAfter_of_isWhiteSpace hc]

theorem squeezeFrom_of_lt (hn : k < n) :
    squeezeFrom k n gap (c :: s) = c :: squeezeFrom k (Names.depthAfter n c) false s := by
  rw [squeezeFrom, if_neg fun h => absurd h.2 (Nat.not_le.2 hn)]

/-- A gap is squeezed like one character of white space. -/
theorem squeezeFrom_gap (hv : ∀ x ∈ v, Text.isBlank x = true) (hn : n ≤ k) :
    squeezeFrom k n gap (v ++ ' ' :: t) =
      (if gap then [] else [' ']) ++ squeezeFrom k n true t := by
  induction v generalizing gap with
  | nil => exact squeezeFrom_white rfl hn
  | cons x v ih =>
      obtain ⟨hx, hv⟩ := List.forall_mem_cons.1 hv
      rw [List.cons_append, squeezeFrom_white (Unicode.isWhiteSpace_of_isBlank hx) hn, ih hv]
      rfl

/-- White space stays where more braces are open. -/
theorem le_length_squeezeFrom (hv : ∀ x ∈ v, Unicode.isWhiteSpace x = true) (hn : k < n) :
    v.length ≤ (squeezeFrom k n gap (v ++ t)).length := by
  induction v generalizing gap with
  | nil => exact Nat.zero_le _
  | cons x v ih =>
      obtain ⟨hx, hv⟩ := List.forall_mem_cons.1 hv
      rw [List.cons_append, squeezeFrom_of_lt hn, depthAfter_of_isWhiteSpace hx, List.length_cons,
        List.length_cons]
      exact Nat.succ_le_succ (ih hv)

theorem length_squeezeFrom_le (k n : Nat) (gap : Bool) (s : Text) :
    (squeezeFrom k n gap s).length ≤ s.length := by
  induction s generalizing n gap with
  | nil => exact Nat.le_refl _
  | cons c s ih =>
      have hwhite := ih (Names.depthAfter n c) true
      have hother := ih (Names.depthAfter n c) false
      rw [squeezeFrom]
      cases gap <;> split <;> simp <;> omega

/-- One brace more is open everywhere. -/
theorem squeezeFrom_succ (h : Scan.depth? '{' '}' n s ≠ none) :
    squeezeFrom (k + 1) (n + 1) gap s = squeezeFrom k n gap s := by
  induction s generalizing n gap with
  | nil => rfl
  | cons c s ih =>
      rw [Scan.depth?, Scan.pass?_cons] at h
      cases hc : Scan.bracket? '{' '}' n c with
      | none => simp [hc] at h
      | some m =>
          rw [hc, Option.bind_some] at h
          have hdepth : Names.depthAfter n c = m ∧ Names.depthAfter (n + 1) c = m + 1 := by
            unfold Scan.bracket? at hc
            unfold Names.depthAfter
            grind
          rw [squeezeFrom, squeezeFrom, hdepth.1, hdepth.2, ih h, ih h]
          simp only [Nat.add_le_add_iff_right]

end Text

namespace Wrap

variable {k m : Nat} {n : Nesting} {s t : Text}

/-- The wrapper counts braces as everyone else. -/
theorem Nesting.depth_after (n : Nesting) (c : Char) :
    (n.after c).depth = Names.depthAfter n.depth c := by
  unfold after Names.depthAfter
  split
  · rfl
  · split
    · rfl
    · split <;> rfl

theorem Nesting.depth_run (n : Nesting) (s : Text) :
    (n.run s).depth = s.foldl Names.depthAfter n.depth := by
  induction s generalizing n with
  | nil => rfl
  | cons c s ih => rw [run_cons, ih, depth_after, List.foldl_cons]

/-- Tokens may be broken only where at most `k` braces are open. -/
def BreaksWithin (k : Nat) (n : Nesting) : Text → Prop
  | [] => True
  | c :: s => (n.breakable c = true → n.depth ≤ k) ∧ BreaksWithin k (n.after c) s

instance decidableBreaksWithin (k : Nat) : (n : Nesting) → (s : Text) →
    Decidable (BreaksWithin k n s)
  | _, [] => .isTrue trivial
  | n, c :: s =>
    have := decidableBreaksWithin k (n.after c) s
    inferInstanceAs (Decidable ((n.breakable c = true → n.depth ≤ k) ∧
      BreaksWithin k (n.after c) s))

theorem breaksWithin_one (n : Nesting) (s : Text) : BreaksWithin 1 n s := by
  induction s generalizing n with
  | nil => trivial
  | cons c s ih =>
      refine ⟨fun h => ?_, ih _⟩
      have hlevel := (Nesting.breakable_iff.1 h).2
      unfold Nesting.level at hlevel
      omega

/-- **A refilled text is the same up to white space.** -/
theorem Refilled.squeezeFrom_eq (h : Refilled m n s t) (hs : BreaksWithin k n s) (gap : Bool) :
    t.squeezeFrom k n.depth gap = s.squeezeFrom k n.depth gap := by
  induction h generalizing gap with
  | nil => rfl
  | @keep n c s t _ _ ih =>
      have hrest := ih hs.2
      rw [Nesting.depth_after] at hrest
      rw [Text.squeezeFrom, Text.squeezeFrom, hrest, hrest]
  | @drop n c x s t hc hx _ ih =>
      have hn := hs.1 hc
      have hrest := hs.2
      rw [Nesting.after_of_breakable hc] at hrest
      have hwhite {c : Char} (hc : n.breakable c = true) := (Nesting.breakable_iff.1 hc).1
      rw [ih hrest, Text.squeezeFrom_white (hwhite hc) hn, Text.squeezeFrom_white (hwhite hx) hn,
        Text.squeezeFrom_white (hwhite hx) hn]
      rfl
  | @space n c v s t hc hv _ _ ih =>
      have hn := hs.1 hc
      have hrest := hs.2
      rw [Nesting.after_of_breakable hc] at hrest
      rw [Text.squeezeFrom_gap hv hn, Text.squeezeFrom_white (Nesting.breakable_iff.1 hc).1 hn,
        ih hrest]

/-- Where tokens are broken in braces, the gap stays that comes there. -/
theorem Refilled.lt_length (h : Refilled m n s t) (hs : ¬ BreaksWithin k n s) (gap : Bool) :
    m < (t.squeezeFrom k n.depth gap).length := by
  induction h generalizing gap with
  | nil => exact absurd trivial hs
  | @keep n c s t hc _ ih =>
      have hrest (gap : Bool) := ih (fun h => hs ⟨fun hc' => absurd hc' hc, h⟩) gap
      simp only [Nesting.depth_after] at hrest
      have hwhite := hrest true
      have hother := hrest false
      rw [Text.squeezeFrom]
      cases gap <;> split <;> simp <;> omega
  | @drop n c x s t hc hx _ ih =>
      refine ih (fun h => hs ⟨fun _ => h.1 hx, ?_⟩) gap
      rwa [Nesting.after_of_breakable hc]
  | @space n c v s t hc hv hm _ ih =>
      by_cases hn : n.depth ≤ k
      · rw [Text.squeezeFrom_gap hv hn, List.length_append]
        refine Nat.lt_add_left _ (ih (fun h => hs ⟨fun _ => hn, ?_⟩) true)
        rwa [Nesting.after_of_breakable hc]
      · have hgap : ∀ x ∈ v ++ [' '], Unicode.isWhiteSpace x = true := fun x hx =>
          Unicode.isWhiteSpace_of_isBlank (isBlank_gap hv x hx)
        have hlength : (v ++ [' ']).length ≤
            (((v ++ [' ']) ++ t).squeezeFrom k n.depth gap).length :=
          Text.le_length_squeezeFrom hgap (Nat.lt_of_not_le hn)
        rw [List.length_append, List.length_singleton, ← List.append_cons] at hlength
        exact Nat.lt_of_lt_of_le (Nat.lt_succ_of_le hm) hlength

end Wrap

/-! ## segments -/

namespace Text.IsBalanced

variable {t : Text}

theorem foldl_depthAfter (h : IsBalanced t) (n : Nat) : t.foldl Names.depthAfter n = n := by
  obtain ⟨e, he⟩ := (Scan.Enclosure.exists_pass?_braces false).1 (h.depth?_eq n)
  exact (Scan.Enclosure.depth_of_pass? he).symm

/-- A text without braces. -/
theorem of_forall (h : ∀ x ∈ t, x ≠ '{' ∧ x ≠ '}') : IsBalanced t := by
  induction t with
  | nil => exact nil
  | cons x t ih =>
      obtain ⟨hx, ht⟩ := List.forall_mem_cons.1 h
      exact (singleton hx.1 hx.2).append (ih ht)

/-- A balanced text in a pair of braces. -/
theorem squeezeFrom_one (h : IsBalanced t) (k : Nat) :
    t.squeezeFrom (k + 1) 1 false = t.squeeze k := by
  have hdepth : Scan.depth? '{' '}' 0 t = some 0 := h
  exact Text.squeezeFrom_succ (by rw [hdepth]; exact Option.some_ne_none 0)

end Text.IsBalanced

namespace Segment

variable {k m : Nat} {n : Nesting} {s s' : Segment}

/-- The white space of a segment squeezed: outside of braces in a text in braces, where at most `k`
are open in a text in quotation marks, and nowhere in a bare token. -/
def squeeze (k : Nat) : Segment → Segment
  | literal t => literal t
  | braced t => braced (t.squeeze 0)
  | quoted t => quoted (t.squeeze k)

/-- The wrapper breaks no group in braces, if the nesting is `n` in front of the segment. -/
def IsSheltered (n : Nesting) : Segment → Prop
  | literal _ | braced _ => True
  | quoted t => BreaksWithin 0 (n.after '"') t

instance (n : Nesting) : (s : Segment) → Decidable (s.IsSheltered n)
  | literal _ | braced _ => .isTrue trivial
  | quoted t => decidableBreaksWithin 0 (n.after '"') t

theorem isBalanced_written (h : s.IsClosed) : s.written.IsBalanced := by
  cases s with
  | literal t =>
      refine .of_forall fun x hx => ?_
      have hliteral := h.2 x hx
      constructor <;> rintro rfl <;> cases hliteral
  | braced t => exact Text.IsBalanced.enclose h
  | quoted t =>
      have ht : t.IsBalanced := Scan.Enclosure.closes_braces_iff.1
        (Scan.Enclosure.closes_of_marks ((isClosed_iff_closes rfl).1 h) .braces)
      exact ((Text.IsBalanced.singleton (c := '"') (by decide) (by decide)).append ht).append
        (.singleton (by decide) (by decide))

/-- No brace is left open. -/
theorem depth_run_written (h : s.IsClosed) (n : Nesting) : (n.run s.written).depth = n.depth := by
  rw [Nesting.depth_run, (isBalanced_written h).foldl_depthAfter]

/-- **A refilled segment is the same up to white space.** -/
theorem Reflow.squeeze_eq (h : Reflow m n s s') (hs : s.IsClosed) (hn : n.depth = 0) :
    s'.squeeze 1 = s.squeeze 1 ∧ (s.IsSheltered n → s'.squeeze 0 = s.squeeze 0) := by
  have hs' := h.isClosed hs
  cases h with
  | literal t => exact ⟨rfl, fun _ => rfl⟩
  | @braced a b h =>
      have hopen : (n.after '{').depth = 1 := by rw [Nesting.depth_after, hn]; rfl
      have hsame := h.squeezeFrom_eq (breaksWithin_one _ _) false
      rw [hopen, Text.IsBalanced.squeezeFrom_one hs 0, Text.IsBalanced.squeezeFrom_one hs' 0]
        at hsame
      exact ⟨congrArg Segment.braced hsame, fun _ => congrArg Segment.braced hsame⟩
  | quoted h =>
      have hopen : (n.after '"').depth = 0 := by rw [Nesting.depth_after, hn]; rfl
      have hone := h.squeezeFrom_eq (breaksWithin_one _ _) false
      rw [hopen] at hone
      refine ⟨congrArg Segment.quoted hone, fun hsheltered => congrArg Segment.quoted ?_⟩
      have hsame := h.squeezeFrom_eq hsheltered false
      rwa [hopen] at hsame

/-- If wide gaps make no difference, none of them came in a group in braces. -/
theorem Reflow.isSheltered (h : Reflow m n s s') (hn : n.depth = 0) (hm : s.text.length ≤ m)
    (hsame : s'.squeeze 0 = s.squeeze 0) : s.IsSheltered n := by
  cases h with
  | literal t => trivial
  | braced h => trivial
  | @quoted a b h =>
      have hopen : (n.after '"').depth = 0 := by rw [Nesting.depth_after, hn]; rfl
      refine Classical.byContradiction fun hbreaks => ?_
      have hlong := h.lt_length hbreaks false
      rw [hopen, show b.squeezeFrom 0 0 false = a.squeezeFrom 0 0 false from
        Segment.quoted.inj hsame] at hlong
      have hshort : (a.squeezeFrom 0 0 false).length ≤ a.length :=
        Text.length_squeezeFrom_le _ _ _ _
      exact absurd (Nat.lt_of_lt_of_le hlong (Nat.le_trans hshort hm)) (Nat.lt_irrefl m)

end Segment

/-! ## values -/

namespace Value

variable {k m : Nat} {n : Nesting} {v v' : Value} {t : Text}

/-- A value with its white space squeezed. -/
def squeeze (k : Nat) (v : Value) : Value := v.map (Segment.squeeze k)

/-- The wrapper breaks no group in braces, if the nesting is `n` in front of the value. -/
def ShelteredFrom (n : Nesting) : Value → Prop
  | [] => True
  | s :: v => s.IsSheltered n ∧ ShelteredFrom (n.run s.written) v

instance decidableShelteredFrom : (n : Nesting) → (v : Value) → Decidable (ShelteredFrom n v)
  | _, [] => .isTrue trivial
  | n, s :: v =>
    have := decidableShelteredFrom (n.run s.written) v
    inferInstanceAs (Decidable (s.IsSheltered n ∧ ShelteredFrom (n.run s.written) v))

/-- The wrapper breaks no group in braces of a quoted text. -/
def IsSheltered (v : Value) : Prop := ShelteredFrom ⟨0, false⟩ v

instance (v : Value) : Decidable v.IsSheltered := decidableShelteredFrom _ v

/-- **A value of refilled texts is the same up to white space**, which is outside of braces if the
value is sheltered. -/
theorem Reflow.squeeze_eq (h : Reflow m n v v') (hv : v.IsClosed) (hn : n.depth = 0) :
    v'.squeeze 1 = v.squeeze 1 ∧ (ShelteredFrom n v → v'.squeeze 0 = v.squeeze 0) := by
  induction h with
  | nil => exact ⟨rfl, fun _ => rfl⟩
  | @cons n s s' v v' hs _ ih =>
      obtain ⟨hsclosed, hv⟩ := List.forall_mem_cons.1 hv
      obtain ⟨hone, hzero⟩ := hs.squeeze_eq hsclosed hn
      obtain ⟨hmore, hmorezero⟩ := ih hv ((Segment.depth_run_written hsclosed n).trans hn)
      refine ⟨congrArg₂ List.cons hone hmore, fun hsheltered => ?_⟩
      exact congrArg₂ List.cons (hzero hsheltered.1) (hmorezero hsheltered.2)

/-- If wide gaps make no difference, the value is sheltered. -/
theorem Reflow.isSheltered (h : Reflow m n v v') (hv : v.IsClosed) (hn : n.depth = 0)
    (hm : ∀ s ∈ v, s.text.length ≤ m) (hsame : v'.squeeze 0 = v.squeeze 0) :
    ShelteredFrom n v := by
  induction h with
  | nil => trivial
  | @cons n s s' v v' hs _ ih =>
      obtain ⟨hsclosed, hv⟩ := List.forall_mem_cons.1 hv
      obtain ⟨hlength, hm⟩ := List.forall_mem_cons.1 hm
      obtain ⟨hhead, htail⟩ := List.cons.inj hsame
      exact ⟨hs.isSheltered hn hlength hhead,
        ih hv ((Segment.depth_run_written hsclosed n).trans hn) hm htail⟩

/-- Squeezed white space leaves bare tokens alone. -/
theorem isSolid_squeeze : (v.squeeze k).IsSolid ↔ v.IsSolid := by
  unfold IsSolid squeeze
  rw [List.forall_mem_map]
  exact forall₂_congr fun s _ => by cases s <;> rfl

theorem length_text_le {s : Segment} (h : s ∈ v) : s.text.length ≤ v.plain.length := by
  obtain ⟨as, bs, rfl⟩ := List.append_of_mem h
  simp only [plain, List.flatMap_append, List.flatMap_cons, List.length_append]
  omega

/-! ## reading -/

/-- A value is read from a text, at any place and before anything that can follow it. -/
def IsReadFrom (t : Text) (v : Value) : Prop :=
  ∀ (c : Cursor) (d : Delimiter) (r : Text), c.after = ' ' :: (t ++ r) → EndsItem d r →
    ∃ p, c.value = .read v p ∧ p.after.dropWhile Text.isBlank = r.dropWhile Text.isBlank

theorem Spelled.isReadFrom (h : v.Spelled t) : v.IsReadFrom t := fun _ _ _ hc hr =>
  Cursor.exists_value_spelled h hc hr

theorem IsReadFrom.exists_read (h : v.IsReadFrom t) :
    ∃ p, (⟨[], ' ' :: (t ++ [','])⟩ : Cursor).value = .read v p := by
  obtain ⟨p, hp, -⟩ := h ⟨[], ' ' :: (t ++ [','])⟩ .brace [','] rfl ⟨',', [], rfl, .inl rfl⟩
  exact ⟨p, hp⟩

/-- One value is read from a text. -/
theorem IsReadFrom.unique (h : v.IsReadFrom t) (h' : v'.IsReadFrom t) : v = v' := by
  obtain ⟨p, hp⟩ := h.exists_read
  obtain ⟨p', hp'⟩ := h'.exists_read
  exact (ValueRead.read.inj (hp.symm.trans hp')).1

end Value

/-! ## bare tokens -/

/-- A text stands in another one, outside of braces. -/
def Text.StandsIn (t s : Text) : Prop := ∃ a b : Text, s = a ++ (t ++ b) ∧ a.IsBalanced

theorem Text.StandsIn.append {a s t : Text} (h : t.StandsIn s) (ha : a.IsBalanced) :
    t.StandsIn (a ++ s) := by
  obtain ⟨a', b, rfl, ha'⟩ := h
  exact ⟨a ++ a', b, (List.append_assoc a a' _).symm, ha.append ha'⟩

namespace Cursor

variable {c p : Cursor} {s : Segment} {v : Value} {t : Text}

theorem exists_after_skipBlank (c : Cursor) :
    ∃ g : Text, g.IsBalanced ∧ c.after = g ++ c.skipBlank.after := by
  refine ⟨c.after.takeWhile Text.isBlank, .of_forall fun x hx => ?_, ?_⟩
  · have hblank := Text.mem_takeWhile hx
    constructor <;> rintro rfl <;> cases hblank
  · rw [after_skipBlank, List.takeWhile_append_dropWhile]

/-- Blanks are passed in front of a segment, and then the segment is. -/
theorem exists_of_segment_read (h : c.skipBlank.segment = .read s p) :
    s.IsClosed ∧ ∃ g : Text, g.IsBalanced ∧ c.after = g ++ (s.written ++ p.after) := by
  obtain ⟨hs, r, hafter, -, rfl⟩ := segment_eq_read_iff.1 h
  obtain ⟨g, hg, hblanks⟩ := exists_after_skipBlank c
  exact ⟨hs, g, hg, by rw [hblanks, hafter, after_past]⟩

/-- A token of a value is its first segment, or one of the others. -/
theorem standsIn_written (hs : s.IsClosed) (ht : .literal t ∈ s :: v) {r : Text}
    (hmore : .literal t ∈ v → t.StandsIn r) : t.StandsIn (s.written ++ r) := by
  obtain rfl | ht := List.mem_cons.1 ht
  · exact ⟨[], r, rfl, .nil⟩
  · exact (hmore ht).append (Segment.isBalanced_written hs)

theorem standsIn_of_moreSegments (h : c.moreSegments = .read v p) (ht : .literal t ∈ v) :
    t.StandsIn c.after := by
  induction c using moreSegments_induction generalizing v with
  | last c _ hm =>
      rw [hm] at h
      cases h
      cases ht
  | noSegment c q _ _ hm | cut c q seg _ _ hm | stray c q r _ _ _ hm =>
      rw [hm] at h
      cases h
  | more c q seg stop hhash _ hseg hm ih =>
      rw [hm] at h
      obtain ⟨w, rfl, hw⟩ := cons_eq_read h
      obtain ⟨hs, g, hg, hafter⟩ := exists_of_segment_read hseg
      obtain ⟨r, hr, rfl⟩ := hhash
      obtain ⟨g', hg', hblanks⟩ := exists_after_skipBlank c
      have hin := (standsIn_written hs ht fun ht => ih hw ht).append hg
      rw [← hafter, after_past] at hin
      rw [hblanks, hr]
      exact (hin.append (Text.IsBalanced.singleton (c := '#') (by decide) (by decide))).append hg'

/-- **A bare token that is read stands outside of braces.** -/
theorem standsIn_of_value (h : c.value = .read v p) (ht : .literal t ∈ v) : t.StandsIn c.after := by
  by_cases hline : c.skipBlank.atLineBlock = true
  · rw [value_noSegment (.inl hline)] at h
    cases h
    cases ht
  · rw [value_segment (by simpa using hline)] at h
    split at h
    · next seg stop hseg =>
      obtain ⟨w, rfl, hw⟩ := cons_eq_read h
      obtain ⟨hs, g, hg, hafter⟩ := exists_of_segment_read hseg
      rw [hafter]
      exact (standsIn_written hs ht fun ht => standsIn_of_moreSegments hw ht).append hg
    · cases h
      cases ht
    · cases h
    · cases h

end Cursor

/-- **What is read from a wrapped text is solid**: a token with white space is broken. -/
theorem Value.isSolid_of_isReadFrom_wrap {column width : Nat} {v : Value} {s : Text}
    (hcolumn : 0 < column) (h : v.IsReadFrom (wrap column width s)) : v.IsSolid := by
  obtain ⟨p, hp⟩ := h.exists_read
  intro seg hseg
  cases seg with
  | braced t | quoted t => trivial
  | literal t =>
      intro x hx
      refine Bool.eq_false_iff.2 fun hwhite => ?_
      obtain ⟨t₁, t₂, rfl⟩ := List.append_of_mem hx
      have hclosed := Cursor.isClosed_of_value hp _ hseg
      obtain ⟨a, b, hafter, ha⟩ := Cursor.standsIn_of_value hp hseg
      have honly : OnlyBlanks ⟨0, false⟩ (' ' :: (wrap column width s ++ [','])) := by
        refine ⟨fun _ => rfl, (onlyBlanks_append _ _ _).2 ⟨onlyBlanks_wrap hcolumn width s, ?_⟩⟩
        refine ⟨?_, trivial⟩
        exact fun hcomma => absurd (Nesting.breakable_iff.1 hcomma).1 (by decide)
      change ' ' :: (wrap column width s ++ [',']) = _ at hafter
      rw [hafter, List.append_assoc, List.cons_append, ← List.append_assoc, onlyBlanks_append]
        at honly
      have hbalanced : (a ++ t₁).IsBalanced := by
        refine ha.append (.of_forall fun y hy => ?_)
        have hliteral := hclosed.2 y (List.mem_append_left _ hy)
        constructor <;> rintro rfl <;> cases hliteral
      have hblank := honly.2.1 (Nesting.breakable_iff.2 ⟨hwhite, ?_⟩)
      · rw [Scan.isBlank_of_isLiteralChar x (hclosed.2 x hx)] at hblank
        cases hblank
      · rw [Nesting.level, Nesting.depth_run, hbalanced.foldl_depthAfter, Nat.zero_add]
        exact Bool.toNat_le _

/-! ## layouts -/

namespace Layout

variable {column : Nat} {v : Value}

/-- A value that is not wrapped is read again, and one that is wrapped and solid is read again up to
white space. -/
theorem exists_isReadFrom_value (l : Layout) (hcolumn : 0 < column) (hv : v.IsClosed)
    (hl : l.value column v = v.written ∨ v.IsSolid) :
    ∃ v' : Value, v'.IsReadFrom (l.value column v) ∧ v'.squeeze 1 = v.squeeze 1 ∧
      (v.IsSheltered → v'.squeeze 0 = v.squeeze 0) := by
  have hwritten : v.IsReadFrom v.written := (Value.spelled_written hv).isReadFrom
  by_cases hsame : l.value column v = v.written
  · exact ⟨v, hsame ▸ hwritten, rfl, fun _ => rfl⟩
  have hsolid := hl.resolve_left hsame
  unfold Layout.value
  split
  · next width _ =>
    split
    · obtain ⟨hstart, hend⟩ := Value.stops_white hv hsolid
      have hrefilled : Refilled 0 ⟨0, false⟩ v.written (Wrap.wrap column width v.written) :=
        refilled_wrap hcolumn (Nat.zero_le _) hstart hend
      obtain ⟨v', hspelled, hreflow⟩ := Value.exists_spelled hv hsolid hrefilled
      exact ⟨v', hspelled.isReadFrom, hreflow.squeeze_eq hv rfl⟩
    · exact ⟨v, hwritten, rfl, fun _ => rfl⟩
  · exact ⟨v, hwritten, rfl, fun _ => rfl⟩

/-- Without a width every value is wrapped. -/
theorem value_zero (v : Value) (hcolumn : 0 < column) :
    ({ wrap := some 0 } : Layout).value column v = Wrap.wrap column 0 v.written :=
  if_pos (Nat.lt_of_lt_of_le hcolumn (Nat.le_add_right _ _))

/-- **The values that every layout keeps.**  A value that is not wrapped, or without white space in
bare tokens, is read again up to white space where it may be broken.  From every layout a value is
read that differs only in white space outside of nested braces, if and only if there is no white
space in its bare tokens and no group in braces follows a quotation mark that is taken for the end
of a text. -/
theorem isReadFrom_value_iff (hv : v.IsClosed) :
    (∀ (l : Layout) (column : Nat), 0 < column → l.value column v = v.written ∨ v.IsSolid →
      ∃ v' : Value, v'.IsReadFrom (l.value column v) ∧ v'.squeeze 1 = v.squeeze 1) ∧
    ((∀ (l : Layout) (column : Nat), 3 ≤ column →
      ∃ v' : Value, v'.IsReadFrom (l.value column v) ∧ v'.squeeze 0 = v.squeeze 0) ↔
      v.IsSolid ∧ v.IsSheltered) := by
  refine ⟨fun l column hcolumn hl => ?_, fun h => ?_, fun hkept l column hcolumn => ?_⟩
  · obtain ⟨v', hread, hsame, -⟩ := exists_isReadFrom_value l hcolumn hv hl
    exact ⟨v', hread, hsame⟩
  · -- Broken everywhere, with gaps longer than the value, the value shows where it may be broken.
    have hcolumn : 0 < v.plain.length + 3 := Nat.succ_pos _
    obtain ⟨v', hread, hsame⟩ := h { wrap := some 0 } (v.plain.length + 3) (Nat.le_add_left _ _)
    rw [value_zero v hcolumn] at hread
    have hsolid : v.IsSolid := by
      rw [← Value.isSolid_squeeze (k := 0), ← hsame, Value.isSolid_squeeze]
      exact Value.isSolid_of_isReadFrom_wrap hcolumn hread
    obtain ⟨hstart, hend⟩ := Value.stops_white hv hsolid
    have hrefilled : Refilled (v.plain.length + 3) ⟨0, false⟩ v.written
        (Wrap.wrap (v.plain.length + 3) 0 v.written) :=
      refilled_wrap hcolumn (Nat.le_refl _) hstart hend
    obtain ⟨w, hspelled, hreflow⟩ := Value.exists_spelled hv hsolid hrefilled
    obtain rfl := hread.unique hspelled.isReadFrom
    exact ⟨hsolid, hreflow.isSheltered hv rfl
      (fun s hs => Nat.le_add_right_of_le (Value.length_text_le hs)) hsame⟩
  · obtain ⟨v', hread, -, hsame⟩ :=
      exists_isReadFrom_value l (Nat.lt_of_lt_of_le (by decide) hcolumn) hv (.inr hkept.1)
    exact ⟨v', hread, hsame hkept.2⟩

/-- Gaps outside of braces become a space, a gap in a nested group stays. -/
theorem isReadFrom_value_nested :
    let v : Value := [.quoted "a  \x7bb  c\x7d".toList, .literal "x".toList,
      .braced "d  \x7be  f\x7d".toList]
    v.IsClosed ∧ v.squeeze 0 = [.quoted "a \x7bb  c\x7d".toList, .literal "x".toList,
      .braced "d \x7be  f\x7d".toList] ∧
    ∀ (l : Layout) (column : Nat), 3 ≤ column →
      ∃ v' : Value, v'.IsReadFrom (l.value column v) ∧ v'.squeeze 0 = v.squeeze 0 := by
  intro v
  have hv : v.IsClosed := by decide
  exact ⟨hv, by decide, (isReadFrom_value_iff hv).2.2 (by decide)⟩

/-- After a mark that a backslash protects, a group in braces is broken. -/
theorem isReadFrom_value_escaped :
    let v : Value := [.quoted "a \\\" \x7bb  c\x7d".toList]
    let l : Layout := { wrap := some 10 }
    v.IsClosed ∧ l.value 9 v = "\"a\n         \\\"\n         \x7bb\n         c\x7d\"".toList ∧
      ¬ ∃ v' : Value, v'.IsReadFrom (l.value 9 v) ∧ v'.squeeze 0 = v.squeeze 0 := by
  intro v l
  have hvalue : l.value 9 v = "\"a\n         \\\"\n         \x7bb\n         c\x7d\"".toList := by
    decide
  refine ⟨by decide, hvalue, fun ⟨v', hread, hsame⟩ => ?_⟩
  let w : Value := [.quoted "a\n         \\\"\n         \x7bb\n         c\x7d".toList]
  have hw : w.IsReadFrom (l.value 9 v) := by
    have hspelled : w.Spelled w.written := Value.spelled_written (by decide)
    exact (show w.written = l.value 9 v by decide) ▸ hspelled.isReadFrom
  obtain rfl := hread.unique hw
  exact absurd hsame (by decide)

end Layout

end Bibliography
