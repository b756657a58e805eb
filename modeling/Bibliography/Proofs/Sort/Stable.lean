import Mathlib.Data.Char
import Mathlib.Data.List.Lex
import Mathlib.Order.Defs.Unbundled
import Bibliography.Sort.Entries

/-!
# Bibliography.Proofs.Sort.Stable

Sorting by several keys, one after the other.  A list has one stable sort
(`IsStableSort.unique`), and a stable sort by one key of what is a stable sort by
the other keys is one by all of them, the last key used counting most
(`IsStableSort.lex`).  Entries are compared by lists of values, the first of which
that differs decides (`SortKey.Before`).

* `Document.isStableSort_sortPass` — sorting groups by one key;
* `Document.isStableSort_sortGroups` — and by all keys, by induction over them;
* `Document.sortGroups_concat` — what stands after the last entry stays at the end.
-/

namespace Bibliography

/-! ## stable sorts -/

namespace Sorting

variable {α β γ δ : Type} [DecidableEq β] [DecidableEq γ] [DecidableEq δ]

/-- A list in the order of the values of its items, in which items of one value stand as they
stood. -/
structure IsStableSort (f : α → β) (lt : β → β → Prop) (l l' : List α) : Prop where
  perm : l'.Perm l
  sorted : l'.Pairwise fun a b => ¬ lt (f b) (f a)
  stable : ∀ a, (l'.filter fun b => f b = f a) = l.filter fun b => f b = f a

variable {f : α → β} {lt : β → β → Prop} {l l' l₁ l₂ : List α}

/-- Sorted lists of the same items, which stand in the same order in either where their values are
the same, are the same. -/
theorem eq_of_sorted (hperm : l₁.Perm l₂)
    (htie : ∀ a ∈ l₁, ∀ b ∈ l₁, ¬ lt (f a) (f b) → ¬ lt (f b) (f a) → f a = f b)
    (h₁ : l₁.Pairwise fun a b => ¬ lt (f b) (f a)) (h₂ : l₂.Pairwise fun a b => ¬ lt (f b) (f a))
    (hstable : ∀ a, (l₁.filter fun b => f b = f a) = l₂.filter fun b => f b = f a) : l₁ = l₂ := by
  induction l₁ generalizing l₂ with
  | nil => exact hperm.nil_eq
  | cons a l₁ ih =>
      cases l₂ with
      | nil => exact hperm.eq_nil
      | cons b l₂ =>
          obtain ⟨ha, hrest₁⟩ := List.pairwise_cons.1 h₁
          obtain ⟨hb, hrest₂⟩ := List.pairwise_cons.1 h₂
          have hmem : b ∈ a :: l₁ := hperm.mem_iff.2 List.mem_cons_self
          -- Each of the two heads is behind the other one in one of the lists.
          have hvalue : f a = f b := by
            obtain rfl | hba := List.mem_cons.1 hmem
            · rfl
            obtain rfl | hab := List.mem_cons.1 (hperm.mem_iff.1 List.mem_cons_self)
            · rfl
            exact htie a List.mem_cons_self b hmem (hb a hab) (ha b hba)
          have hhead := hstable a
          rw [List.filter_cons_of_pos (by simp), List.filter_cons_of_pos (by simp [hvalue])] at hhead
          obtain ⟨rfl, -⟩ := List.cons.inj hhead
          refine congrArg (a :: ·) (ih hperm.cons_inv ?_ hrest₁ hrest₂ fun c => ?_)
          · exact fun x hx y hy => htie x (List.mem_cons_of_mem a hx) y (List.mem_cons_of_mem a hy)
          · have hc := hstable c
            by_cases hac : f a = f c
            · simpa [hac] using hc
            · simpa [hac] using hc

namespace IsStableSort

/-- **A list has one stable sort.** -/
theorem unique (h₁ : IsStableSort f lt l l₁) (h₂ : IsStableSort f lt l l₂)
    (htie : ∀ a ∈ l, ∀ b ∈ l, ¬ lt (f a) (f b) → ¬ lt (f b) (f a) → f a = f b) : l₁ = l₂ := by
  refine eq_of_sorted (h₁.perm.trans h₂.perm.symm) (fun a ha b hb => ?_) h₁.sorted h₂.sorted
    fun a => (h₁.stable a).trans (h₂.stable a).symm
  exact htie a (h₁.perm.subset ha) b (h₁.perm.subset hb)

/-- An item that comes before no other one stays the last. -/
theorem concat (h : IsStableSort f lt l l') {z : α} (hz : ∀ a ∈ l, ¬ lt (f z) (f a)) :
    IsStableSort f lt (l ++ [z]) (l' ++ [z]) where
  perm := h.perm.append_right [z]
  sorted := by
    refine List.pairwise_append.2 ⟨h.sorted, List.pairwise_singleton _ _, fun a ha b hb => ?_⟩
    obtain rfl := List.mem_singleton.1 hb
    exact hz a (h.perm.subset ha)
  stable a := by rw [List.filter_append, List.filter_append, h.stable a]

/-- Two items the second of which comes before the first one change places. -/
theorem swap [Std.Asymm lt] {a b : α} (h : lt (f b) (f a)) : IsStableSort f lt [a, b] [b, a] where
  perm := .swap a b []
  sorted := List.pairwise_pair.2 (asymm_of lt h)
  stable c := by
    have hne : f a ≠ f b := fun heq => asymm_of lt h (by rwa [heq] at h ⊢)
    by_cases ha : f a = f c
    · have hb : f b ≠ f c := fun hb => hne (ha.trans hb.symm)
      simp [ha, hb]
    · by_cases hb : f b = f c <;> simp [ha, hb]

/-- **A stable sort of a stable sort** is one by both values, and the value of the later sort
decides where it can. -/
theorem lex {f₁ : α → γ} {f₂ : α → δ} {lt₁ : γ → γ → Prop} {lt₂ : δ → δ → Prop}
    (hf : ∀ a b, f a = f b ↔ f₁ a = f₁ b ∧ f₂ a = f₂ b)
    (hlt : ∀ a b, lt (f a) (f b) ↔ lt₁ (f₁ a) (f₁ b) ∨ f₁ a = f₁ b ∧ lt₂ (f₂ a) (f₂ b))
    (h₂ : IsStableSort f₂ lt₂ l l₁) (h₁ : IsStableSort f₁ lt₁ l₁ l₂) :
    IsStableSort f lt l l₂ where
  perm := h₁.perm.trans h₂.perm
  sorted := by
    refine List.pairwise_iff_forall_sublist.2 fun {a b} hab hba => ?_
    obtain hfirst | ⟨hsame, hrest⟩ := (hlt b a).1 hba
    · exact List.pairwise_iff_forall_sublist.1 h₁.sorted hab hfirst
    · -- Two items of one first value stand as they stood before the later sort.
      have hclass : [a, b].Sublist (l₂.filter fun x => f₁ x = f₁ a) := by
        simpa [hsame] using hab.filter fun x => decide (f₁ x = f₁ a)
      rw [h₁.stable a] at hclass
      exact List.pairwise_iff_forall_sublist.1 h₂.sorted (hclass.trans List.filter_sublist) hrest
  stable a := by
    have hboth (k : List α) : (k.filter fun b => f b = f a) =
        (k.filter fun b => f₁ b = f₁ a).filter fun b => f₂ b = f₂ a := by
      rw [List.filter_filter]
      refine List.filter_congr fun b _ => ?_
      simp [hf, Bool.and_comm]
    rw [hboth, hboth, h₁.stable a, List.filter_comm, h₂.stable a, List.filter_comm]

end IsStableSort

/-- **Merge sort** is a stable sort by a strict total order. -/
theorem isStableSort_mergeSort [IsStrictTotalOrder β lt] {r : α → α → Bool}
    (hr : ∀ a b, r a b = true ↔ ¬ lt (f b) (f a)) (l : List α) :
    IsStableSort f lt l (l.mergeSort r) := by
  have htrans : ∀ a b c, r a b = true → r b c = true → r a c = true := by
    simp only [hr]
    intro a b c hab hbc hca
    obtain hlt | heq | hgt := trichotomous_of lt (f a) (f b)
    · exact hbc (trans_of lt hca hlt)
    · exact hbc (heq ▸ hca)
    · exact hab hgt
  have htotal : ∀ a b, (r a b || r b a) = true := by
    intro a b
    rw [Bool.or_eq_true, hr, hr, ← not_and_or]
    exact fun h => asymm_of lt h.1 h.2
  refine ⟨List.mergeSort_perm l r, ?_, fun a => ?_⟩
  · exact (List.pairwise_mergeSort htrans htotal l).imp fun h => (hr _ _).1 h
  · have hclass : (l.filter fun b => f b = f a).Pairwise fun x y => r x y = true := by
      refine List.pairwise_of_forall_mem_list fun x hx y hy => ?_
      have hx := (List.mem_filter.1 hx).2
      have hy := (List.mem_filter.1 hy).2
      rw [decide_eq_true_eq] at hx hy
      rw [hr, hx, hy]
      exact irrefl_of lt (f a)
    have hsub := (List.sublist_mergeSort htrans htotal hclass List.filter_sublist).filter
      fun b => decide (f b = f a)
    rw [List.filter_filter] at hsub
    simp only [Bool.and_self] at hsub
    exact (hsub.eq_of_length ((List.mergeSort_perm l r).filter _).length_eq.symm).symm

end Sorting

/-! ## values -/

/-- Texts are compared as lists of characters. -/
theorem Text.compare_eq_iff (s t : Text) :
    (compare s t = .lt ↔ s < t) ∧ (compare s t = .gt ↔ t < s) := by
  induction s generalizing t with
  | nil => cases t <;> simp [compare]
  | cons c s ih =>
      cases t with
      | nil => simp [compare]
      | cons d t =>
          have hlt {x y : Char} : x < y ↔ x.toNat < y.toNat := Iff.rfl
          obtain ⟨ihlt, ihgt⟩ := ih t
          rw [compare, List.cons_lt_cons_iff, List.cons_lt_cons_iff, ← ihlt, ← ihgt, hlt, hlt,
            ← Char.toNat_inj, ← Char.toNat_inj]
          obtain h | h | h := Nat.lt_trichotomy c.toNat d.toNat
          · simp [Nat.compare_eq_lt.2 h, h, h.ne', h.le]
          · simp [h]
          · simp [Nat.compare_eq_gt.2 h, h, h.ne', h.le]

namespace SortValue

/-- Whether a value comes before another one: values that are there by code point, or the other way
round, and one that is missing after all of them either way. -/
def Before (descending : Bool) : SortValue → SortValue → Prop
  | some s, some t => if descending then t < s else s < t
  | some _, none => True
  | none, _ => False

instance (descending : Bool) : DecidableRel (Before descending)
  | some s, some t => inferInstanceAs (Decidable (if descending then t < s else s < t))
  | some _, none => inferInstanceAs (Decidable True)
  | none, _ => inferInstanceAs (Decidable False)

theorem compare_ne_gt_iff (descending : Bool) (v w : SortValue) :
    compare descending v w ≠ .gt ↔ ¬ Before descending w v := by
  cases v <;> cases w <;> cases descending <;> simp [compare, Before, (Text.compare_eq_iff _ _).2]

instance (descending : Bool) : IsStrictTotalOrder SortValue (Before descending) where
  trichotomous v w := by
    cases v <;> cases w <;> cases descending <;> simp [Before]
    all_goals exact fun h h' => le_antisymm ‹_› ‹_›
  irrefl v := by cases v <;> cases descending <;> simp [Before]
  trans u v w := by
    cases u <;> cases v <;> cases w <;> cases descending <;> simp [Before]
    · exact lt_trans
    · exact fun h h' => lt_trans h' h

end SortValue

namespace SortKey

variable {keys : List SortKey} {vs ws : List SortValue}

/-- Whether the values of an item come before those of another one: the first key under which they
differ decides. -/
def Before : List SortKey → List SortValue → List SortValue → Prop
  | key :: keys, v :: vs, w :: ws =>
    SortValue.Before key.descending v w ∨ v = w ∧ Before keys vs ws
  | _, _, _ => False

instance decidableBefore : ∀ keys vs ws, Decidable (Before keys vs ws)
  | key :: keys, v :: vs, w :: ws =>
    have := decidableBefore keys vs ws
    inferInstanceAs (Decidable (SortValue.Before key.descending v w ∨ v = w ∧ Before keys vs ws))
  | [], _, _ | _ :: _, [], _ | _ :: _, _ :: _, [] => .isFalse fun h => by simp [Before] at h

/-- Values of which none come before the others are the same. -/
theorem eq_of_not_before (hvs : vs.length = keys.length) (hws : ws.length = keys.length)
    (h : ¬ Before keys vs ws) (h' : ¬ Before keys ws vs) : vs = ws := by
  induction keys generalizing vs ws with
  | nil => rw [List.eq_nil_of_length_eq_zero hvs, List.eq_nil_of_length_eq_zero hws]
  | cons key keys ih =>
      obtain ⟨v, vs, rfl⟩ := List.exists_cons_of_length_eq_add_one hvs
      obtain ⟨w, ws, rfl⟩ := List.exists_cons_of_length_eq_add_one hws
      rw [Before, not_or, not_and] at h h'
      obtain hlt | rfl | hgt := trichotomous_of (SortValue.Before key.descending) v w
      · exact absurd hlt h.1
      · rw [ih (Nat.succ.inj hvs) (Nat.succ.inj hws) (h.2 rfl) (h'.2 rfl)]
      · exact absurd hgt h'.1

instance (keys : List SortKey) : Std.Asymm (Before keys) where
  asymm vs ws := by
    induction keys generalizing vs ws with
    | nil => exact fun h => h.elim
    | cons key keys ih =>
        obtain _ | ⟨v, vs⟩ := vs
        · exact fun h => h.elim
        obtain _ | ⟨w, ws⟩ := ws
        · exact fun h => h.elim
        rintro (h | ⟨rfl, h⟩) (h' | ⟨heq, h'⟩)
        · exact asymm_of _ h h'
        · exact irrefl_of _ v (heq ▸ h)
        · exact irrefl_of _ v h'
        · exact ih vs ws h h'

/-- Values that are all missing come before no others. -/
theorem not_before_missing (keys : List SortKey) (vs : List SortValue) :
    ¬ Before keys (keys.map fun _ => none) vs := by
  induction keys generalizing vs with
  | nil => exact id
  | cons key keys ih =>
      cases vs with
      | nil => exact id
      | cons v vs =>
          rintro (h | ⟨-, h⟩)
          · exact h
          · exact ih vs h

end SortKey

/-! ## groups -/

/-- The values of a group under keys. -/
def Group.values (d : Document) (index : FieldIndex) (keys : List SortKey) (g : Group) :
    List SortValue :=
  keys.map fun key => g.value d index key

namespace Document

open Sorting

variable (d : Document) (index : FieldIndex)

/-- **Sorting by one key.** -/
theorem isStableSort_sortPass (key : SortKey) (gs : List Group) :
    IsStableSort (Group.value d index key) (SortValue.Before key.descending) gs
      (d.sortPass index key gs) := by
  let r (a b : Group) : Bool :=
    SortValue.compare key.descending (a.value d index key) (b.value d index key) ≠ .gt
  have hpass : d.sortPass index key gs = gs.mergeSort r := by
    unfold sortPass
    rw [List.map_mergeSort (s := r)]
    · simp [Function.comp_def]
    · intro a ha b hb
      obtain ⟨g, -, rfl⟩ := List.mem_map.1 ha
      obtain ⟨h, -, rfl⟩ := List.mem_map.1 hb
      rfl
  rw [hpass]
  exact isStableSort_mergeSort (fun a b => by simp [r, ← SortValue.compare_ne_gt_iff]) gs

/-- **Sorting by all keys**, the first of which counts most. -/
theorem isStableSort_sortGroups (keys : List SortKey) (gs : List Group) :
    IsStableSort (Group.values d index keys) (SortKey.Before keys) gs
      (d.sortGroups index keys gs) := by
  induction keys with
  | nil => exact ⟨.refl _, List.pairwise_of_forall fun _ _ => id, fun _ => rfl⟩
  | cons key keys ih =>
      refine .lex (fun a b => ?_) (fun a b => ?_) ih (d.isStableSort_sortPass index key _)
      · simp [Group.values]
      · rfl

theorem eq_of_not_before (keys : List SortKey) (g h : Group) :
    ¬ SortKey.Before keys (g.values d index keys) (h.values d index keys) →
      ¬ SortKey.Before keys (h.values d index keys) (g.values d index keys) →
        g.values d index keys = h.values d index keys :=
  SortKey.eq_of_not_before (List.length_map _) (List.length_map _)

/-- **Groups have one stable sort.** -/
theorem eq_sortGroups {keys : List SortKey} {gs gs' : List Group}
    (h : IsStableSort (Group.values d index keys) (SortKey.Before keys) gs gs') :
    gs' = d.sortGroups index keys gs :=
  h.unique (d.isStableSort_sortGroups index keys gs) fun g _ g' _ => d.eq_of_not_before index keys g g'

theorem sortGroups_perm (keys : List SortKey) (gs : List Group) :
    (d.sortGroups index keys gs).Perm gs :=
  (d.isStableSort_sortGroups index keys gs).perm

/-- **What stands after the last entry** stays at the end. -/
theorem sortGroups_concat (keys : List SortKey) (gs : List Group) (left : List NodeId) :
    d.sortGroups index keys (gs ++ [⟨none, left⟩]) =
      d.sortGroups index keys gs ++ [⟨none, left⟩] := by
  refine (d.eq_sortGroups index ?_).symm
  exact (d.isStableSort_sortGroups index keys gs).concat fun g _ => SortKey.not_before_missing keys _

end Document

end Bibliography
