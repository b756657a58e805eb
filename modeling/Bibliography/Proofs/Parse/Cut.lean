import Mathlib.Data.List.Chain
import Bibliography.Parse.Document
import Bibliography.Proofs.Parse.Opening

/-!
# Bibliography.Proofs.Parse.Cut

What it means to cut a text into pieces, said without the reader: a block
stands where one can be read, free text stands between blocks, is not empty,
and none of its `@` begins a block.

* `cut_ofText` — reading a text cuts it;
* `ofText_eq_of_cut` — there is no other way to cut it;
* `Cut.written`, `Cut.noAdjacentText`, `Cut.isFree` — what a cut says about its
  pieces, by one induction each.
-/

namespace Bibliography

namespace Piece

/-- Whether a piece is free text. -/
def isText : Piece → Bool
  | text _ => true
  | block _ _ => false

/-- A text as its pieces. -/
inductive Cut : Text → List Piece → Prop
  | nil : Cut [] []
  | block {s : Text} {b : BlockRead} {ps : List Piece} :
      Block.read? s = some b → Cut b.rest ps → Cut ('@' :: s) (.block b.block b.causes :: ps)
  | text {t rest : Text} {ps : List Piece} :
      t ≠ [] → IsFree t rest → (∀ p ∈ ps.head?, p.isText = false) → Cut rest ps →
      Cut (t ++ rest) (.text t :: ps)

/-! ## what a cut says -/

/-- The pieces, written one after the other, are the text. -/
theorem Cut.written {s : Text} {ps : List Piece} (h : Cut s ps) :
    ps.flatMap Piece.written = s := by
  induction h with
  | nil => rfl
  | block hb _ ih =>
      obtain ⟨t, hsource, hrest⟩ := Block.source_append_rest hb
      rw [List.flatMap_cons, ih, Piece.written, hsource, Option.getD_some, List.cons_append, hrest]
  | text _ _ _ _ ih => rw [List.flatMap_cons, ih, Piece.written]

/-- What follows free text is the end or the `@` of a block. -/
theorem Cut.follows {s : Text} {ps : List Piece} (h : Cut s ps)
    (hps : ∀ p ∈ ps.head?, p.isText = false) : Follows s := by
  cases h with
  | nil => exact .inl rfl
  | block hb _ => exact .inr rfl
  | text _ _ _ _ => exact absurd (hps _ rfl) (by simp [isText])

/-- Free text is not empty. -/
theorem Cut.text_ne_nil {s : Text} {ps : List Piece} (h : Cut s ps) {t : Text}
    (ht : .text t ∈ ps) : t ≠ [] := by
  induction h with
  | nil => cases ht
  | block _ _ ih =>
      obtain ht | ht := List.mem_cons.1 ht
      · cases ht
      · exact ih ht
  | text hne _ _ _ ih =>
      obtain ht | ht := List.mem_cons.1 ht
      · cases ht
        exact hne
      · exact ih ht

/-- No two texts stand side by side. -/
theorem Cut.noAdjacentText {s : Text} {ps : List Piece} (h : Cut s ps) :
    ps.IsChain fun p q => ¬ (p.isText ∧ q.isText) := by
  induction h with
  | nil => exact List.isChain_nil
  | block _ _ ih =>
      refine List.isChain_cons.2 ⟨fun q _ hpq => ?_, ih⟩
      exact absurd hpq.1 (by simp [isText])
  | text _ _ hhead _ ih =>
      refine List.isChain_cons.2 ⟨fun q hq hpq => ?_, ih⟩
      exact absurd hpq.2 (by simp [hhead q hq])

/-- A block was read at its `@`. -/
theorem Cut.read {s : Text} {ps : List Piece} (h : Cut s ps) {b : Block} {causes : List Cause}
    (hb : .block b causes ∈ ps) :
    ∃ r rest, Block.read? r = some ⟨b, causes, rest⟩ := by
  induction h with
  | nil => cases hb
  | block hread _ ih =>
      obtain hb | hb := List.mem_cons.1 hb
      · cases hb
        exact ⟨_, _, hread⟩
      · exact ih hb
  | text _ _ _ _ ih =>
      obtain hb | hb := List.mem_cons.1 hb
      · cases hb
      · exact ih hb

/-- No `@` of free text begins a block where it stands. -/
theorem Cut.isFree {s : Text} {ps qs : List Piece} {t : Text} (h : Cut s (ps ++ .text t :: qs)) :
    IsFree t (qs.flatMap Piece.written) := by
  generalize hps : ps ++ .text t :: qs = all at h
  induction h generalizing ps with
  | nil => simp at hps
  | block _ _ ih =>
      cases ps with
      | nil => simp at hps
      | cons p ps => exact ih (List.cons.inj hps).2
  | text _ hfree _ hcut ih =>
      cases ps with
      | nil =>
          obtain ⟨h1, rfl⟩ := List.cons.inj hps
          cases h1
          rw [hcut.written]
          exact hfree
      | cons p ps => exact ih (List.cons.inj hps).2

/-- Free text is inert. -/
theorem Cut.inert {s : Text} {ps : List Piece} (h : Cut s ps) {t : Text} (ht : .text t ∈ ps) :
    Inert t := by
  induction h with
  | nil => cases ht
  | block _ _ ih =>
      obtain ht | ht := List.mem_cons.1 ht
      · cases ht
      · exact ih ht
  | text _ hfree hhead hcut ih =>
      obtain ht | ht := List.mem_cons.1 ht
      · cases ht
        exact (isFree_iff_inert (hcut.follows hhead) t).1 hfree
      · exact ih ht

/-! ## reading cuts the text -/

/-- A character in front of a cut whose `@`, if it is one, begins no block. -/
theorem Cut.consText {c : Char} {s : Text} {ps : List Piece} (h : Cut s ps)
    (hc : c = '@' → Block.read? s = none) : Cut (c :: s) (consText c ps) := by
  have hfree (t rest : Text) (hs : s = t ++ rest) (ht : IsFree t rest) : IsFree (c :: t) rest := by
    intro a b hab
    cases a with
    | nil =>
        obtain ⟨rfl, rfl⟩ := List.cons.inj hab
        rw [← hs]
        exact hc rfl
    | cons x a => exact ht a b (List.cons.inj hab).2
  have hnil : IsFree [] s := fun a b hab => by simp at hab
  cases h with
  | nil => exact .text (List.cons_ne_nil _ _) (hfree [] [] rfl hnil) (by simp) .nil
  | block hb hcut =>
      exact .text (t := [c]) (List.cons_ne_nil _ _) (hfree [] _ rfl hnil)
        (by simp [isText]) (.block hb hcut)
  | text _ ht hhead hcut =>
      exact .text (List.cons_ne_nil _ _) (hfree _ _ rfl ht) hhead hcut

/-- **Reading a text cuts it.** -/
theorem cut_ofText (s : Text) : Cut s (ofText s) := by
  fun_induction ofText s with
  | case1 => exact .nil
  | case2 s b hb ih => exact .block hb ih
  | case3 s hb ih => exact ih.consText fun _ => hb
  | case4 c s hc ih => exact ih.consText fun h => absurd h hc

/-! ## there is one cut -/

theorem ofText_at {s : Text} {b : BlockRead} (h : Block.read? s = some b) :
    ofText ('@' :: s) = .block b.block b.causes :: ofText b.rest := by
  rw [ofText]
  simp only [if_pos]
  split
  · next b' hb =>
    rw [h] at hb
    cases hb
    rfl
  · next hb =>
    rw [h] at hb
    cases hb

theorem ofText_cons {c : Char} {s : Text} (h : c = '@' → Block.read? s = none) :
    ofText (c :: s) = consText c (ofText s) := by
  rw [ofText]
  split
  · next hc =>
    split
    · next b hb =>
      rw [h hc] at hb
      cases hb
    · rfl
  · rfl

/-- Free text in front of a text becomes a piece of its own. -/
theorem ofText_append {t rest : Text} (hne : t ≠ []) (hfree : IsFree t rest)
    (hhead : ∀ p ∈ (ofText rest).head?, p.isText = false) :
    ofText (t ++ rest) = .text t :: ofText rest := by
  induction t with
  | nil => contradiction
  | cons c t ih =>
      have hc : c = '@' → Block.read? (t ++ rest) = none := by
        rintro rfl
        exact hfree [] t rfl
      rw [List.cons_append, ofText_cons hc]
      cases t with
      | nil =>
          rw [List.nil_append]
          cases hrest : ofText rest with
          | nil => rfl
          | cons p ps =>
              cases p with
              | block b causes => rfl
              | text u => simp [hrest, isText] at hhead
      | cons d t =>
          rw [ih (List.cons_ne_nil _ _) fun a b hab => hfree (c :: a) b (by rw [hab]; rfl)]
          rfl

/-- **There is only one way to cut a text.** -/
theorem ofText_eq_of_cut {s : Text} {ps : List Piece} (h : Cut s ps) : ofText s = ps := by
  induction h with
  | nil => rw [ofText]
  | block hb _ ih => rw [ofText_at hb, ih]
  | text hne hfree hhead _ ih =>
      rw [← ih] at hhead
      rw [ofText_append hne hfree hhead, ih]

/-- The empty text has no pieces. -/
theorem Cut.eq_nil {ps : List Piece} (h : Cut [] ps) : ps = [] :=
  (ofText_eq_of_cut h).symm.trans (ofText_eq_of_cut .nil)

end Piece

end Bibliography
