import Bibliography.Parse.Block
import Bibliography.Proofs.Text.Runs

/-!
# Bibliography.Proofs.Parse.Opening

Where a block begins.  Whether an `@` begins a block depends on what follows
it up to the first character that is neither of the command nor a blank after
it: that character has to be an opening bracket.  So free text can be read
from left to right by a machine with five states, and free text is *inert* if
the machine never sees an opening bracket where it counts.

* `opening?_append` — text that is empty or begins with an `@` does not open
  what precedes it;
* `isFree_iff_inert` — no `@` of a text begins a block, if such text follows,
  exactly if the text is inert.
-/

namespace Bibliography

/-! ## the opening bracket after an `@` -/

/-- The bracket after a run of blanks. -/
def afterGap? (s : Text) : Option Delimiter :=
  (s.dropWhile Text.isBlank).head?.bind Delimiter.ofOpening?

/-- The bracket after the rest of a command and a run of blanks. -/
def afterCommand? (s : Text) : Option Delimiter := afterGap? (s.dropWhile Scan.isCommandChar)

/-- The bracket that opens the block of an `@`, of which `s` is what follows. -/
def opening? (s : Text) : Option Delimiter :=
  if s.takeWhile Scan.isCommandChar = [] then none else afterCommand? s

/-- A block is read where there is an opening bracket. -/
theorem isSome_read? (s : Text) : (Block.read? s).isSome = (opening? s).isSome := by
  unfold Block.read? opening? afterCommand? afterGap?
  dsimp only
  by_cases h : s.takeWhile Scan.isCommandChar = []
  · rw [if_pos h, if_pos h]
    rfl
  · rw [if_neg h, if_neg h]
    have hafter : ((⟨['@'], s⟩ : Cursor).skip Scan.isCommandChar).skipBlank.after =
        (s.dropWhile Scan.isCommandChar).dropWhile Text.isBlank := rfl
    rw [hafter]
    cases (s.dropWhile Scan.isCommandChar).dropWhile Text.isBlank with
    | nil => rfl
    | cons x r =>
        simp only [List.head?_cons, Option.bind_some, Option.isSome_map]

theorem read?_eq_none_iff {s : Text} : Block.read? s = none ↔ opening? s = none := by
  have h := isSome_read? s
  constructor
  · intro hr
    rw [hr] at h
    simpa using h.symm
  · intro ho
    rw [ho] at h
    simpa using h

/-- Text that can follow free text: none at all, or the `@` of a block. -/
def Follows (rest : Text) : Prop := rest = [] ∨ rest.head? = some '@'

/-- Text that can follow stops every class without the `@`. -/
theorem Follows.stops {rest : Text} (h : Follows rest) {p : Char → Bool} (hp : p '@' = false) :
    Text.Stops p rest := by
  obtain rfl | hhead := h
  · exact Text.stops_nil
  · intro x hx
    obtain rfl : '@' = x := by simpa [hhead] using hx
    exact hp

/-- **Text that can follow free text opens nothing before it.** -/
theorem opening?_append {rest : Text} (h : Follows rest) (s : Text) :
    opening? (s ++ rest) = opening? s := by
  unfold opening? afterCommand? afterGap?
  rw [(h.stops rfl).takeWhile_append, (h.stops rfl).dropWhile_append,
    (h.stops rfl).dropWhile_append]
  cases (s.dropWhile Scan.isCommandChar).dropWhile Text.isBlank with
  | cons x r => rfl
  | nil =>
      obtain rfl | hr := h
      · rfl
      · rw [List.nil_append, hr]
        rfl

/-! ## reading free text from left to right -/

/-- What matters of the text before a place. -/
inductive Opening where
  /-- No `@` counts. -/
  | outside
  /-- Just after an `@`. -/
  | sign
  /-- In the command after an `@`. -/
  | command
  /-- In the blanks after a command. -/
  | gap
  /-- A block has begun. -/
  | opened
deriving DecidableEq, Inhabited

namespace Opening

/-- The state after a character that belongs to no command. -/
def enter (c : Char) : Opening := if c = '@' then sign else outside

/-- The state after a character that follows a command or its blanks. -/
def leave (c : Char) : Opening :=
  if Text.isBlank c then gap else if (Delimiter.ofOpening? c).isSome then opened else enter c

/-- The state after a character. -/
def after : Opening → Char → Opening
  | outside, c => enter c
  | sign, c => if Scan.isCommandChar c then command else enter c
  | command, c => if Scan.isCommandChar c then command else leave c
  | gap, c => leave c
  | opened, _ => opened

/-- The state after a text. -/
def run (q : Opening) (s : Text) : Opening := s.foldl after q

@[simp] theorem run_nil (q : Opening) : q.run [] = q := rfl

@[simp] theorem run_cons (q : Opening) (c : Char) (s : Text) :
    q.run (c :: s) = (q.after c).run s := rfl

theorem run_append (q : Opening) (s t : Text) : q.run (s ++ t) = (q.run s).run t :=
  List.foldl_append

@[simp] theorem run_opened (s : Text) : opened.run s = opened := by
  induction s with
  | nil => rfl
  | cons c s ih => exact ih

/-- An `@` counts wherever no block has begun. -/
theorem after_sign {q : Opening} (h : q ≠ opened) : q.after '@' = sign := by
  cases q with
  | opened => contradiction
  | _ => rfl

/-- What opens a block in the text that follows a place. -/
def awaits : Opening → Text → Option Delimiter
  | outside, _ => none
  | sign, s => opening? s
  | command, s => afterCommand? s
  | gap, s => afterGap? s
  | opened, _ => none

/-- Nothing that precedes an `@` awaits what follows it. -/
theorem awaits_at (q : Opening) (s : Text) : q.awaits ('@' :: s) = none := by
  cases q <;> rfl

/-- After a command and its blanks, a character opens the block, or is a blank
more, or ends the matter. -/
theorem isSome_afterGap?_cons {c : Char} (hc : c ≠ '@') (s : Text) :
    (afterGap? (c :: s)).isSome ↔ leave c = opened ∨ ((leave c).awaits s).isSome := by
  unfold leave
  by_cases hb : Text.isBlank c = true
  · have hgap : afterGap? (c :: s) = afterGap? s := by
      unfold afterGap?
      rw [List.dropWhile_cons_of_pos hb]
    rw [if_pos hb, hgap]
    simp [awaits]
  · have hgap : afterGap? (c :: s) = Delimiter.ofOpening? c := by
      unfold afterGap?
      rw [List.dropWhile_cons_of_neg hb, List.head?_cons, Option.bind_some]
    rw [if_neg hb, hgap]
    by_cases ho : (Delimiter.ofOpening? c).isSome = true
    · simp [ho]
    · rw [if_neg ho, enter, if_neg hc]
      simp [ho, awaits]

/-- What a place awaits is settled by the next character, or awaited after
it. -/
theorem isSome_awaits_cons {q : Opening} (hq : q ≠ opened) {c : Char} (hc : c ≠ '@') (s : Text) :
    (q.awaits (c :: s)).isSome ↔ q.after c = opened ∨ ((q.after c).awaits s).isSome := by
  cases q with
  | opened => contradiction
  | outside => simp [awaits, after, enter, hc]
  | gap => exact isSome_afterGap?_cons hc s
  | sign =>
      by_cases hcmd : Scan.isCommandChar c = true
      · have hcons : opening? (c :: s) = afterCommand? s := by
          unfold opening? afterCommand?
          rw [List.takeWhile_cons_of_pos hcmd, if_neg (List.cons_ne_nil _ _),
            List.dropWhile_cons_of_pos hcmd]
        simp [awaits, after, hcmd, hcons]
      · have hcons : opening? (c :: s) = none := by
          unfold opening?
          rw [List.takeWhile_cons_of_neg hcmd, if_pos rfl]
        simp [awaits, after, hcmd, hcons, enter, hc]
  | command =>
      by_cases hcmd : Scan.isCommandChar c = true
      · have hcons : afterCommand? (c :: s) = afterCommand? s := by
          unfold afterCommand?
          rw [List.dropWhile_cons_of_pos hcmd]
        simp [awaits, after, hcmd, hcons]
      · have hcons : afterCommand? (c :: s) = afterGap? (c :: s) := by
          unfold afterCommand?
          rw [List.dropWhile_cons_of_neg hcmd]
        have hafter : command.after c = leave c := by
          rw [after, if_neg hcmd]
        rw [awaits, hcons, hafter]
        exact isSome_afterGap?_cons hc s

/-- An `@` of a text is its first character or stands in the rest. -/
theorem exists_split_cons {P : Text → Prop} {c : Char} {s : Text} :
    (∃ a b, c :: s = a ++ '@' :: b ∧ P b) ↔
      (c = '@' ∧ P s) ∨ ∃ a b, s = a ++ '@' :: b ∧ P b := by
  constructor
  · rintro ⟨a, b, hab, hb⟩
    cases a with
    | nil =>
        obtain ⟨rfl, rfl⟩ := List.cons.inj hab
        exact .inl ⟨rfl, hb⟩
    | cons x a =>
        obtain ⟨rfl, rfl⟩ := List.cons.inj hab
        exact .inr ⟨a, b, rfl, hb⟩
  · rintro (⟨rfl, hs⟩ | ⟨a, b, rfl, hb⟩)
    · exact ⟨[], s, rfl, hs⟩
    · exact ⟨c :: a, b, rfl, hb⟩

/-- **The machine sees an opening bracket** exactly if the place before the text
awaits one in it, or an `@` of the text does. -/
theorem run_eq_opened_iff (q : Opening) (s : Text) :
    q.run s = opened ↔ q = opened ∨ (q.awaits s).isSome ∨
      ∃ a b, s = a ++ '@' :: b ∧ (opening? b).isSome := by
  induction s generalizing q with
  | nil =>
      have hawaits : q.awaits [] = none := by cases q <;> rfl
      simp [hawaits]
  | cons c s ih =>
      by_cases hq : q = opened
      · simp only [hq, run_opened, true_or]
      · rw [run_cons, ih, exists_split_cons]
        by_cases hc : c = '@'
        · subst hc
          rw [after_sign hq, awaits_at]
          simp [hq, awaits]
        · rw [isSome_awaits_cons hq hc]
          simp [hq, hc, or_assoc]

end Opening

/-! ## inert text -/

/-- No `@` of a text begins a block, whatever block or end follows. -/
def Inert (t : Text) : Prop := Opening.outside.run t ≠ .opened

/-- No `@` of a text begins a block, the text being followed by `rest`. -/
def IsFree (t rest : Text) : Prop := ∀ a b, t = a ++ '@' :: b → Block.read? (b ++ rest) = none

/-- **Free text is inert text**, if a block or the end follows. -/
theorem isFree_iff_inert {rest : Text} (h : Follows rest) (t : Text) :
    IsFree t rest ↔ Inert t := by
  have hfree : IsFree t rest ↔ ¬ ∃ a b, t = a ++ '@' :: b ∧ (opening? b).isSome := by
    constructor
    · rintro hf ⟨a, b, ht, hb⟩
      have hnone := read?_eq_none_iff.1 (hf a b ht)
      rw [opening?_append h] at hnone
      simp [hnone] at hb
    · intro hf a b ht
      apply read?_eq_none_iff.2
      rw [opening?_append h]
      cases hb : opening? b with
      | none => rfl
      | some d => exact absurd ⟨a, b, ht, by rw [hb]; rfl⟩ hf
  rw [hfree, Inert, ne_eq, Opening.run_eq_opened_iff]
  simp [Opening.awaits]

end Bibliography
