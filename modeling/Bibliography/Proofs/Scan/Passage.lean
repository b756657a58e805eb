import Bibliography.Scan

/-!
# Bibliography.Proofs.Scan.Passage

The scanners as machines.  A scanner reads its text from left to right and
keeps a small state: the brackets that are open and, in quotation marks,
whether a backslash comes just before.  It stops at the first character for
which its machine has no next state.  So where a scan ends is said by two
facts that do not mention the scanner: the text splits at the closing
character, and the machine passes what stands before it.

* `balanced_eq_closed_iff`, `quoted_eq_closed_iff`, `payload_eq_closed_iff` — a
  scan closes at a character;
* `quoted_eq_stray_iff` — a quoted text closes a brace that it did not open.

The machines run over concatenated texts one after the other (`pass?_append`),
which is what the scanners themselves do not say.
-/

namespace Bibliography.Scan

/-! ## machines -/

/-- The state of a machine after a text; none if it stops in the text. -/
def pass? {σ : Type} (step : σ → Char → Option σ) : σ → Text → Option σ
  | q, [] => some q
  | q, c :: s => (step q c).bind (pass? step · s)

section

variable {σ : Type} {step : σ → Char → Option σ} {q q' : σ}

@[simp] theorem pass?_nil : pass? step q [] = some q := rfl

@[simp] theorem pass?_cons (c : Char) (s : Text) :
    pass? step q (c :: s) = (step q c).bind (pass? step · s) := rfl

/-- A machine runs over concatenated texts one after the other. -/
theorem pass?_append (s t : Text) :
    pass? step q (s ++ t) = (pass? step q s).bind (pass? step · t) := by
  induction s generalizing q with
  | nil => rfl
  | cons c s ih =>
      rw [List.cons_append, pass?_cons, pass?_cons]
      cases step q c with
      | none => rfl
      | some q' => exact ih

/-- A machine that passes a text passes its beginnings. -/
theorem pass?_of_append {s t : Text} (h : pass? step q (s ++ t) = some q') :
    ∃ q₁, pass? step q s = some q₁ ∧ pass? step q₁ t = some q' := by
  rw [pass?_append] at h
  exact Option.bind_eq_some_iff.1 h

/-- A machine passes characters that leave its state alone. -/
theorem pass?_of_neutral {s : Text} (h : ∀ c ∈ s, step q c = some q) :
    pass? step q s = some q := by
  induction s with
  | nil => rfl
  | cons c s ih =>
      rw [pass?_cons, h c List.mem_cons_self, Option.bind_some]
      exact ih fun x hx => h x (List.mem_cons_of_mem _ hx)

end

/-- A character stands at the split of a list, or comes before it. -/
theorem cons_eq_append_cons_iff {α : Type} {x c : α} {s i r : List α} :
    x :: s = i ++ c :: r ↔ (i = [] ∧ x = c ∧ s = r) ∨ ∃ j, i = x :: j ∧ s = j ++ c :: r := by
  cases i with
  | nil => simp
  | cons y i =>
      constructor
      · intro h
        obtain ⟨rfl, rfl⟩ := List.cons.inj h
        exact .inr ⟨i, rfl, rfl⟩
      · rintro (⟨h, -, -⟩ | ⟨j, h, rfl⟩)
        · cases h
        · rw [h, List.cons_append]

/-- **Where a scanner stops.**  If a scanner goes on as its machine does, and
reports the character at which its machine stops, then the report says how the
text splits at that character. -/
theorem scan_eq_iff {σ R : Type} {step : σ → Char → Option σ} {extend : Char → R → R} {c : Char}
    (scan : σ → Text → R) (report : Text → Text → R)
    (hnil : ∀ q i r, scan q [] ≠ report i r)
    (hgo : ∀ {q q' x} s, step q x = some q' → scan q (x :: s) = extend x (scan q' s))
    (hstop : ∀ {q x} s i r, step q x = none →
      (scan q (x :: s) = report i r ↔ i = [] ∧ x = c ∧ s = r))
    (hextend : ∀ x a i r, extend x a = report i r ↔ ∃ j, i = x :: j ∧ a = report j r)
    (q : σ) (s i r : Text) :
    scan q s = report i r ↔
      s = i ++ c :: r ∧ ∃ q₁, pass? step q i = some q₁ ∧ step q₁ c = none := by
  induction s generalizing q i with
  | nil => simp [hnil]
  | cons x s ih =>
      rw [cons_eq_append_cons_iff]
      cases hstep : step q x with
      | none =>
          rw [hstop s i r hstep]
          constructor
          · rintro ⟨rfl, rfl, rfl⟩
            exact ⟨.inl ⟨rfl, rfl, rfl⟩, q, rfl, hstep⟩
          · rintro ⟨h | ⟨j, rfl, -⟩, q₁, hq₁, -⟩
            · exact h
            · rw [pass?_cons, hstep] at hq₁
              cases hq₁
      | some q' =>
          rw [hgo s hstep, hextend]
          constructor
          · rintro ⟨j, rfl, hj⟩
            obtain ⟨hs, q₁, hq₁, hc⟩ := (ih q' j).1 hj
            refine ⟨.inr ⟨j, rfl, hs⟩, q₁, ?_, hc⟩
            rw [pass?_cons, hstep, Option.bind_some, hq₁]
          · rintro ⟨⟨rfl, rfl, -⟩ | ⟨j, rfl, hs⟩, q₁, hq₁, hc⟩
            · cases hq₁
              rw [hstep] at hc
              cases hc
            · rw [pass?_cons, hstep, Option.bind_some] at hq₁
              exact ⟨j, rfl, (ih q' j).2 ⟨hs, q₁, hq₁, hc⟩⟩

theorem cons_eq_closed_iff (c : Char) (r : Closing) (i t : Text) :
    r.cons c = .closed i t ↔ ∃ j, i = c :: j ∧ r = .closed j t := by
  constructor
  · exact eq_of_cons_closed
  · rintro ⟨j, rfl, rfl⟩
    rfl

theorem cons_eq_stray_iff (c : Char) (r : Closing) (i t : Text) :
    r.cons c = .stray i t ↔ ∃ j, i = c :: j ∧ r = .stray j t := by
  constructor
  · exact eq_of_cons_stray
  · rintro ⟨j, rfl, rfl⟩
    rfl

theorem cons_eq_payload_iff (c : Char) (r : PayloadEnd) (i t : Text) :
    r.cons c = .closed i t ↔ ∃ j, i = c :: j ∧ r = .closed j t := by
  constructor
  · exact eq_of_cons_payload
  · rintro ⟨j, rfl, rfl⟩
    rfl

/-! ## brackets -/

/-- The brackets that are open after a character; none if it closes one that is
not open. -/
def bracket? (o c : Char) (n : Nat) (x : Char) : Option Nat :=
  if x = o then some (n + 1)
  else if x = c then (if n = 0 then none else some (n - 1))
  else some n

/-- The brackets that are open after a text; none if it closes one that is not
open. -/
abbrev depth? (o c : Char) : Nat → Text → Option Nat := pass? (bracket? o c)

/-- A bracket stops the machine if it closes one that is not open. -/
theorem bracket?_eq_none_iff {o c : Char} (hne : o ≠ c) {n : Nat} {x : Char} :
    bracket? o c n x = none ↔ x = c ∧ n = 0 := by
  unfold bracket?
  by_cases hxo : x = o
  · subst hxo
    simp [hne]
  · by_cases hxc : x = c
    · rw [if_neg hxo, if_pos hxc]
      simp [hxc]
    · simp [hxo, hxc]

/-- The scanner goes on as its machine does. -/
theorem balancedFrom_cons {o c : Char} {n m : Nat} {x : Char} (s : Text)
    (h : bracket? o c n x = some m) :
    balancedFrom o c n (x :: s) = (balancedFrom o c m s).cons x := by
  unfold bracket? at h
  rw [balancedFrom.eq_def]
  by_cases hxo : x = o
  · rw [if_pos hxo] at h
    cases h
    simp only [if_pos hxo]
  · by_cases hxc : x = c
    · rw [if_neg hxo, if_pos hxc] at h
      cases n with
      | zero => cases h
      | succ n =>
          cases h
          simp only [if_neg hxo, if_pos hxc, Nat.add_sub_cancel]
    · rw [if_neg hxo, if_neg hxc] at h
      cases h
      simp only [if_neg hxo, if_neg hxc]

/-- **A bracket closes** exactly if the text before it leaves none open and
closes none that is not open. -/
theorem balancedFrom_eq_closed_iff {o c : Char} (hne : o ≠ c) {n : Nat} {s i r : Text} :
    balancedFrom o c n s = .closed i r ↔ s = i ++ c :: r ∧ depth? o c n i = some 0 := by
  have hstop {n : Nat} {x : Char} (s i r : Text) (h : bracket? o c n x = none) :
      balancedFrom o c n (x :: s) = .closed i r ↔ i = [] ∧ x = c ∧ s = r := by
    obtain ⟨rfl, rfl⟩ := (bracket?_eq_none_iff hne).1 h
    rw [balancedFrom.eq_def]
    simp [Ne.symm hne, eq_comm]
  rw [scan_eq_iff (balancedFrom o c) .closed (by simp [balancedFrom]) balancedFrom_cons hstop
    cons_eq_closed_iff n s i r]
  simp [bracket?_eq_none_iff hne]

theorem balanced_eq_closed_iff {o c : Char} (hne : o ≠ c) {s i r : Text} :
    balanced o c s = .closed i r ↔ s = i ++ c :: r ∧ depth? o c 0 i = some 0 :=
  balancedFrom_eq_closed_iff hne

/-! ## quotation marks -/

/-- What matters of a quoted text before a place. -/
structure Quotation where
  /-- The braces that are open. -/
  depth : Nat
  /-- Whether an odd run of backslashes comes just before. -/
  escaped : Bool
deriving DecidableEq, Inhabited

namespace Quotation

/-- Before the first character, and wherever a quotation mark would close. -/
abbrev bare : Quotation := ⟨0, false⟩

/-- The state after a character; none if it is a closing quotation mark, or
closes a brace that is not open. -/
def after? (q : Quotation) (x : Char) : Option Quotation :=
  if x = '"' ∧ q.depth = 0 ∧ q.escaped = false then none
  else if x = '{' then some ⟨q.depth + 1, false⟩
  else if x = '}' then (if q.depth = 0 then none else some ⟨q.depth - 1, false⟩)
  else some ⟨q.depth, x = '\\' && !q.escaped⟩

/-- A quotation mark stops the machine where it is bare. -/
theorem after?_mark (q : Quotation) : q.after? '"' = none ↔ q = bare := by
  obtain ⟨depth, escaped⟩ := q
  simp [after?]

/-- A brace stops the machine if it closes one that is not open. -/
theorem after?_brace (q : Quotation) : q.after? '}' = none ↔ q.depth = 0 := by
  simp [after?]

/-- Nothing else stops the machine. -/
theorem eq_of_after?_eq_none {q : Quotation} {x : Char} (h : q.after? x = none) :
    x = '"' ∧ q = bare ∨ x = '}' ∧ q.depth = 0 := by
  by_cases hx : x = '"'
  · subst hx
    exact .inl ⟨rfl, (after?_mark q).1 h⟩
  · by_cases hb : x = '}'
    · subst hb
      exact .inr ⟨rfl, (after?_brace q).1 h⟩
    · exfalso
      by_cases ho : x = '{' <;> simp [after?, hx, hb, ho] at h

end Quotation

/-- Read a quoted text from a state on. -/
def quotedIn (q : Quotation) : Text → Closing := quotedFrom q.depth q.escaped

/-- The scanner goes on as its machine does. -/
theorem quotedIn_cons {q q' : Quotation} {x : Char} (s : Text) (h : q.after? x = some q') :
    quotedIn q (x :: s) = (quotedIn q' s).cons x := by
  obtain ⟨depth, escaped⟩ := q
  unfold Quotation.after? at h
  unfold quotedIn
  rw [quotedFrom.eq_def]
  by_cases hm : x = '"' ∧ depth = 0 ∧ escaped = false
  · simp [hm] at h
  · rw [if_neg hm] at h
    simp only [if_neg hm]
    by_cases ho : x = '{'
    · rw [if_pos ho] at h
      cases h
      rw [if_pos ho]
    · rw [if_neg ho] at h
      rw [if_neg ho]
      by_cases hb : x = '}'
      · rw [if_pos hb] at h
        cases depth with
        | zero => cases h
        | succ n =>
            cases h
            simp only [if_pos hb, Nat.add_sub_cancel]
      · rw [if_neg hb] at h
        cases h
        simp only [if_neg hb]

/-- **A quotation mark closes** exactly if the text before it is passed, leaves
no brace open and does not end in an odd run of backslashes. -/
theorem quotedIn_eq_closed_iff {q : Quotation} {s i r : Text} :
    quotedIn q s = .closed i r ↔
      s = i ++ '"' :: r ∧ pass? Quotation.after? q i = some Quotation.bare := by
  have hstop {q : Quotation} {x : Char} (s i r : Text) (h : q.after? x = none) :
      quotedIn q (x :: s) = .closed i r ↔ i = [] ∧ x = '"' ∧ s = r := by
    obtain ⟨rfl, rfl⟩ | ⟨rfl, hq⟩ := Quotation.eq_of_after?_eq_none h
    · simp [quotedIn, quotedFrom, eq_comm]
    · simp [quotedIn, quotedFrom, hq]
  rw [scan_eq_iff quotedIn .closed (by simp [quotedIn, quotedFrom]) quotedIn_cons hstop
    cons_eq_closed_iff q s i r]
  simp [Quotation.after?_mark]

/-- **A quoted text closes a brace** that it did not open, exactly if the text
before it is passed and leaves no brace open. -/
theorem quotedIn_eq_stray_iff {q : Quotation} {s i r : Text} :
    quotedIn q s = .stray i ('}' :: r) ↔
      s = i ++ '}' :: r ∧ ∃ q₁, pass? Quotation.after? q i = some q₁ ∧ q₁.depth = 0 := by
  have hstop {q : Quotation} {x : Char} (s i r : Text) (h : q.after? x = none) :
      quotedIn q (x :: s) = .stray i ('}' :: r) ↔ i = [] ∧ x = '}' ∧ s = r := by
    obtain ⟨rfl, rfl⟩ | ⟨rfl, hq⟩ := Quotation.eq_of_after?_eq_none h
    · simp [quotedIn, quotedFrom]
    · have hread : quotedIn q ('}' :: s) = .stray [] ('}' :: s) := by
        simp [quotedIn, quotedFrom, hq]
      rw [hread]
      constructor
      · intro hc
        cases hc
        exact ⟨rfl, rfl, rfl⟩
      · rintro ⟨rfl, -, rfl⟩
        rfl
  rw [scan_eq_iff quotedIn (fun i r => .stray i ('}' :: r)) (by simp [quotedIn, quotedFrom])
    quotedIn_cons hstop (fun x a i r => cons_eq_stray_iff x a i ('}' :: r)) q s i r]
  simp [Quotation.after?_brace]

theorem quoted_eq_closed_iff {s i r : Text} :
    quoted s = .closed i r ↔
      s = i ++ '"' :: r ∧ pass? Quotation.after? .bare i = some Quotation.bare :=
  quotedIn_eq_closed_iff (q := .bare)

/-- What closes nothing is a brace. -/
theorem exists_of_quotedFrom_stray {n : Nat} {e : Bool} {s i r : Text}
    (h : quotedFrom n e s = .stray i r) : ∃ t, r = '}' :: t := by
  fun_induction quotedFrom n e s generalizing i with
  | case1 | case2 => cases h
  | case3 _ _ _ _ ih | case5 _ _ _ _ _ ih | case6 _ _ _ _ _ _ _ ih =>
      obtain ⟨j, -, hj⟩ := eq_of_cons_stray h
      exact ih hj
  | case4 =>
      cases h
      simp_all

theorem quoted_eq_stray_iff {s i r : Text} :
    quoted s = .stray i r ↔ (∃ t, r = '}' :: t) ∧ s = i ++ r ∧
      ∃ q, pass? Quotation.after? .bare i = some q ∧ q.depth = 0 := by
  constructor
  · intro h
    obtain ⟨t, rfl⟩ := exists_of_quotedFrom_stray h
    exact ⟨⟨t, rfl⟩, (quotedIn_eq_stray_iff (q := .bare)).1 h⟩
  · rintro ⟨⟨t, rfl⟩, h⟩
    exact (quotedIn_eq_stray_iff (q := .bare)).2 h

/-! ## payloads -/

/-- The braces of a payload that are open after a character; none if it is the
closing bracket.  In parentheses a closing brace too many is passed over. -/
def payload? (d : Delimiter) (n : Nat) (x : Char) : Option Nat :=
  if x = '{' then some (n + 1)
  else if x = d.closing ∧ n = 0 then none
  else if x = '}' then some (n - 1)
  else some n

/-- Only the closing bracket stops the machine, outside of all braces. -/
theorem payload?_eq_none_iff {d : Delimiter} {n : Nat} {x : Char} :
    payload? d n x = none ↔ x = d.closing ∧ n = 0 := by
  unfold payload?
  by_cases ho : x = '{'
  · subst ho
    cases d <;> simp [Delimiter.closing]
  · rw [if_neg ho]
    by_cases hc : x = d.closing ∧ n = 0
    · simp [hc]
    · rw [if_neg hc]
      constructor
      · intro h
        split at h <;> cases h
      · exact fun h => absurd h hc

/-- The scanner goes on as its machine does. -/
theorem payloadFrom_cons {d : Delimiter} {n m : Nat} {x : Char} (s : Text)
    (h : payload? d n x = some m) :
    payloadFrom d n (x :: s) = (payloadFrom d m s).cons x := by
  unfold payload? at h
  rw [payloadFrom]
  by_cases ho : x = '{'
  · rw [if_pos ho] at h
    cases h
    rw [if_pos ho]
  · rw [if_neg ho] at h
    rw [if_neg ho]
    by_cases hc : x = d.closing ∧ n = 0
    · rw [if_pos hc] at h
      cases h
    · rw [if_neg hc] at h
      rw [if_neg hc]
      by_cases hb : x = '}'
      · rw [if_pos hb] at h
        cases h
        rw [if_pos hb]
      · rw [if_neg hb] at h
        cases h
        rw [if_neg hb]

/-- **A payload closes** exactly if the text before its closing bracket is
passed and leaves no brace open. -/
theorem payloadFrom_eq_closed_iff {d : Delimiter} {n : Nat} {s i r : Text} :
    payloadFrom d n s = .closed i r ↔
      s = i ++ d.closing :: r ∧ pass? (payload? d) n i = some 0 := by
  have hstop {n : Nat} {x : Char} (s i r : Text) (h : payload? d n x = none) :
      payloadFrom d n (x :: s) = .closed i r ↔ i = [] ∧ x = d.closing ∧ s = r := by
    obtain ⟨rfl, rfl⟩ := payload?_eq_none_iff.1 h
    have hread : payloadFrom d 0 (d.closing :: s) = .closed [] s := by
      cases d <;> simp [payloadFrom, Delimiter.closing]
    rw [hread]
    simp [eq_comm]
  have hnil (n : Nat) (i r : Text) : payloadFrom d n [] ≠ .closed i r := by
    cases d <;> simp [payloadFrom]
  rw [scan_eq_iff (payloadFrom d) .closed hnil payloadFrom_cons hstop cons_eq_payload_iff n s i r]
  simp [payload?_eq_none_iff]

theorem payload_eq_closed_iff {d : Delimiter} {s i r : Text} :
    payload d s = .closed i r ↔ s = i ++ d.closing :: r ∧ pass? (payload? d) 0 i = some 0 :=
  payloadFrom_eq_closed_iff

theorem cons_eq_unclosed_iff {braces parens : Nat} (c : Char) (r : PayloadEnd) :
    r.cons c = .unclosed braces parens ↔ r = .unclosed braces parens := by
  cases r <;> simp [PayloadEnd.cons]

/-- What has no end has a bracket open, the outer one at least. -/
theorem ne_zero_of_unclosed {d : Delimiter} {n braces parens : Nat} {s : Text}
    (h : payloadFrom d n s = .unclosed braces parens) :
    braces ≠ 0 ∨ parens ≠ 0 := by
  fun_induction payloadFrom d n s with
  | case1 | case2 =>
      cases h
      simp
  | case3 _ _ ih | case5 _ _ _ _ ih | case6 _ _ _ _ _ _ ih =>
      exact ih ((cons_eq_unclosed_iff _ _).1 h)
  | case4 => cases h

end Bibliography.Scan
