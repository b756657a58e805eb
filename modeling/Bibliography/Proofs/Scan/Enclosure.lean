import Bibliography.Names
import Bibliography.Proofs.WellFormed
import Bibliography.Proofs.Scan.Classes

/-!
# Bibliography.Proofs.Scan.Enclosure

Texts in braces and texts in quotation marks under one machine.  Both count
braces; a quotation mark where nothing is open stops the second kind only.  So
a fact about the text of a segment is proved once for both kinds, and only the
four *signs* have to be looked at for it.

* `Enclosure.pass?_deeper` — what is passed is passed where more braces are open,
  and what is passed in quotation marks is passed in braces too;
* `Enclosure.pass?_rewrite` — a text that is rewritten from left to right is
  passed as it was, if each of its characters is;
* `Segment.isClosed_iff_closes` — a segment is closed exactly if its enclosure
  closes after its text.
-/

namespace Bibliography

namespace Scan

/-- What stands around the text of a segment. -/
inductive Enclosure where
  | braces
  | marks
deriving DecidableEq, Inhabited

namespace Enclosure

/-- The state after a character; none if the text ends before it. -/
def after? (k : Enclosure) (q : Quotation) (x : Char) : Option Quotation :=
  if k = marks ∧ x = '"' ∧ q = .bare then none
  else if x = '{' then some ⟨q.depth + 1, false⟩
  else if x = '}' then (if q.depth = 0 then none else some ⟨q.depth - 1, false⟩)
  else some ⟨q.depth, x = '\\' && !q.escaped⟩

variable {k : Enclosure} {q q' : Quotation} {x : Char} {s t : Text}

/-! ## characters -/

/-- Quotation marks have the machine of their scanner. -/
theorem after?_marks : marks.after? = Quotation.after? := by
  funext q x
  obtain ⟨depth, escaped⟩ := q
  simp only [after?, Quotation.after?, Quotation.mk.injEq, true_and]

/-- Any character but a sign is passed, and ends a run of backslashes. -/
theorem after?_of_isSign (h : isSign x = false) (k : Enclosure) (q : Quotation) :
    k.after? q x = some ⟨q.depth, false⟩ := by
  simp only [isSign, List.mem_cons, List.not_mem_nil, or_false, decide_eq_false_iff_not,
    not_or] at h
  simp [after?, h]

/-- The braces are counted as everywhere else. -/
theorem depth_of_after? (h : k.after? q x = some q') : q'.depth = Names.depthAfter q.depth x := by
  unfold after? at h
  unfold Names.depthAfter
  split at h
  · cases h
  · split at h
    · next ho =>
      cases h
      rw [if_pos ho]
    · next ho =>
      rw [if_neg ho]
      split at h
      · next hc =>
        rw [if_pos hc]
        split at h
        · cases h
        · cases h
          rfl
      · next hc =>
        cases h
        rw [if_neg hc]

/-- What is passed is passed where more is open, and what is passed in quotation
marks is passed in braces too. -/
theorem after?_deeper {l : Enclosure} (hk : l = marks → k = marks) {n m : Nat} {e e' : Bool}
    (h : k.after? ⟨n, e⟩ x = some ⟨m, e'⟩) (j : Nat) :
    l.after? ⟨n + j, e⟩ x = some ⟨m + j, e'⟩ := by
  unfold after? at h ⊢
  split at h
  · cases h
  · next hmark =>
    have hmark' : ¬ (l = marks ∧ x = '"' ∧ (⟨n + j, e⟩ : Quotation) = .bare) := by
      rintro ⟨hl, hx, hq⟩
      obtain ⟨hn, rfl⟩ := Quotation.mk.inj hq
      obtain rfl : n = 0 := by omega
      exact hmark ⟨hk hl, hx, rfl⟩
    rw [if_neg hmark']
    split at h
    · next ho =>
      cases h
      rw [if_pos ho]
      simp only [Option.some.injEq, Quotation.mk.injEq, and_true]
      omega
    · next ho =>
      rw [if_neg ho]
      split at h
      · next hc =>
        rw [if_pos hc]
        split at h
        · cases h
        · next hn =>
          cases h
          have hn : ¬ n = 0 := hn
          rw [if_neg (by omega : ¬ n + j = 0)]
          simp only [Option.some.injEq, Quotation.mk.injEq, and_true]
          omega
      · next hc =>
        cases h
        rw [if_neg hc]

/-! ## texts -/

/-- Text without signs is passed. -/
theorem pass?_of_isSign (h : ∀ x ∈ t, isSign x = false) (k : Enclosure) (n : Nat) :
    pass? k.after? ⟨n, false⟩ t = some ⟨n, false⟩ :=
  pass?_of_neutral fun x hx => after?_of_isSign (h x hx) k _

/-- Such text ends a run of backslashes, unless it is empty. -/
theorem pass?_of_isSign_of_ne_nil (hne : t ≠ []) (h : ∀ x ∈ t, isSign x = false) (k : Enclosure)
    (q : Quotation) : pass? k.after? q t = some ⟨q.depth, false⟩ := by
  cases t with
  | nil => contradiction
  | cons x t =>
      rw [pass?_cons, after?_of_isSign (h x List.mem_cons_self), Option.bind_some]
      exact pass?_of_isSign (fun y hy => h y (List.mem_cons_of_mem _ hy)) k _

/-- **What is passed is passed where more is open**, and what is passed in
quotation marks is passed in braces too. -/
theorem pass?_deeper {l : Enclosure} (hk : l = marks → k = marks) {n m : Nat} {e e' : Bool}
    (h : pass? k.after? ⟨n, e⟩ t = some ⟨m, e'⟩) (j : Nat) :
    pass? l.after? ⟨n + j, e⟩ t = some ⟨m + j, e'⟩ := by
  induction t generalizing n e with
  | nil =>
      cases h
      rfl
  | cons x t ih =>
      rw [pass?_cons] at h ⊢
      obtain ⟨⟨n', e₁⟩, hx, ht⟩ := Option.bind_eq_some_iff.1 h
      rw [after?_deeper hk hx, Option.bind_some]
      exact ih ht

/-- The braces of a text are counted as everywhere else. -/
theorem depth_of_pass? (h : pass? k.after? q t = some q') :
    q'.depth = t.foldl Names.depthAfter q.depth := by
  induction t generalizing q with
  | nil =>
      cases h
      rfl
  | cons x t ih =>
      rw [pass?_cons] at h
      obtain ⟨q₁, hx, ht⟩ := Option.bind_eq_some_iff.1 h
      rw [List.foldl_cons, ← depth_of_after? hx]
      exact ih ht

/-- In braces the machine counts them, and runs of backslashes do not matter. -/
theorem exists_pass?_braces {n m : Nat} (e : Bool) :
    depth? '{' '}' n t = some m ↔ ∃ e', pass? braces.after? ⟨n, e⟩ t = some ⟨m, e'⟩ := by
  induction t generalizing n e with
  | nil => simp [depth?]
  | cons x t ih =>
      have hstep : braces.after? ⟨n, e⟩ x =
          (bracket? '{' '}' n x).map fun n' =>
            ⟨n', x ≠ '{' && x ≠ '}' && x = '\\' && !e⟩ := by
        unfold after? bracket?
        by_cases ho : x = '{'
        · simp [ho]
        · by_cases hc : x = '}'
          · by_cases hn : n = 0 <;> simp [hc, hn]
          · simp [ho, hc]
      rw [depth?, pass?_cons, pass?_cons, hstep]
      cases bracket? '{' '}' n x with
      | none => simp
      | some n' => exact ih _

/-- **Rewriting from left to right.**  The text that a machine passes is rewritten
character by character; if what each becomes is passed as the character was,
up to a relation between the states, so is the text. -/
theorem pass?_rewrite {μ : Type} {R : μ → Quotation → Quotation → Prop} {out : μ → Char → Text}
    (next : μ → Char → μ) (f : μ → Text → Text) (hnil : ∀ m, f m [] = [])
    (hcons : ∀ m c s, f m (c :: s) = out m c ++ f (next m c) s)
    (hstep : ∀ m q p c q', R m q p → k.after? q c = some q' →
      ∃ p', pass? k.after? p (out m c) = some p' ∧ R (next m c) q' p')
    {m : μ} {p : Quotation} (h : R m q p) (hs : pass? k.after? q s = some q') :
    ∃ m' p', pass? k.after? p (f m s) = some p' ∧ R m' q' p' := by
  induction s generalizing m q p with
  | nil =>
      cases hs
      exact ⟨m, p, by rw [hnil, pass?_nil], h⟩
  | cons c s ih =>
      rw [pass?_cons] at hs
      obtain ⟨q₁, hc, hs⟩ := Option.bind_eq_some_iff.1 hs
      obtain ⟨p₁, hp, h₁⟩ := hstep m q p c q₁ h hc
      obtain ⟨m', p', hp', h'⟩ := ih h₁ hs
      exact ⟨m', p', by rw [hcons, pass?_append, hp, Option.bind_some, hp'], h'⟩

/-! ## closing -/

/-- The enclosure can be closed in a state. -/
def ClosesIn (k : Enclosure) (q : Quotation) : Prop := q.depth = 0 ∧ (k = marks → q.escaped = false)

/-- The enclosure can be closed after a text, and not before its end. -/
def Closes (k : Enclosure) (t : Text) : Prop :=
  ∃ q, pass? k.after? .bare t = some q ∧ k.ClosesIn q

theorem closesIn_bare (k : Enclosure) : k.ClosesIn .bare := ⟨rfl, fun _ => rfl⟩

theorem closes_marks_iff : marks.Closes t ↔ pass? Quotation.after? .bare t = some .bare := by
  unfold Closes
  rw [after?_marks]
  constructor
  · rintro ⟨⟨n, e⟩, ht, rfl, he⟩
    obtain rfl : e = false := he rfl
    exact ht
  · exact fun ht => ⟨_, ht, closesIn_bare marks⟩

theorem closes_braces_iff : braces.Closes t ↔ t.IsBalanced := by
  have hclosed : braces.Closes t ↔ ∃ e, pass? braces.after? ⟨0, false⟩ t = some ⟨0, e⟩ := by
    constructor
    · rintro ⟨⟨n, e⟩, ht, rfl, -⟩
      exact ⟨e, ht⟩
    · rintro ⟨e, ht⟩
      exact ⟨_, ht, rfl, by simp⟩
  rw [hclosed, Text.IsBalanced, exists_pass?_braces false]

/-- Quotation marks can be replaced by braces. -/
theorem closes_of_marks (h : marks.Closes t) (k : Enclosure) : k.Closes t := by
  obtain ⟨⟨n, e⟩, ht, rfl, he⟩ := h
  obtain rfl : e = false := he rfl
  exact ⟨_, pass?_deeper (fun _ => rfl) ht 0, closesIn_bare k⟩

end Enclosure

end Scan

/-! ## segments -/

namespace Segment

/-- What stands around the text of a segment; nothing around a bare token. -/
def enclosure? : Segment → Option Scan.Enclosure
  | literal _ => none
  | braced _ => some .braces
  | quoted _ => some .marks

theorem exists_enclosure?_of_isDelimited {s : Segment} (h : s.isDelimited = true) :
    ∃ k, s.enclosure? = some k := by
  cases s with
  | literal t => cases h
  | braced t => exact ⟨_, rfl⟩
  | quoted t => exact ⟨_, rfl⟩

@[simp] theorem enclosure?_withText (t : Text) (s : Segment) :
    (s.withText t).enclosure? = s.enclosure? := by
  cases s <;> rfl

/-- **A segment is closed** exactly if its enclosure closes after its text. -/
theorem isClosed_iff_closes {s : Segment} {k : Scan.Enclosure} (h : s.enclosure? = some k) :
    s.IsClosed ↔ k.Closes s.text := by
  cases s with
  | literal t => cases h
  | braced t =>
      cases h
      exact Scan.Enclosure.closes_braces_iff.symm
  | quoted t =>
      cases h
      exact isClosed_quoted_iff.trans Scan.Enclosure.closes_marks_iff.symm

end Segment

end Bibliography
