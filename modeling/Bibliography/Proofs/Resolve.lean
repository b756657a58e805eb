import Bibliography.Proofs.Tidy.Index
import Bibliography.Proofs.Unicode.Folding

/-!
# Bibliography.Proofs.Resolve

Two ways to look up a field.  An entry compares names up to case folding
(`Entry.field?`), an index by their lower case (`Entry.indexed?`), and each takes the
first field that it finds.

What has the name in lower case has it up to folding, too.  So whatever the index has,
the entry has, though perhaps at an earlier field; and both find the same field just if
the one that the entry finds has the name in lower case.  They differ at names such as
straße, which folds to what STRASSE folds to and has another lower case.

* `Entry.indexed?_eq_iff` — when both find the same field;
* `FieldIndex.get?_build` — what an index has.
-/

namespace Bibliography

/-- Of two classes, one in the other, the first item is the same just if that of the larger one is
in the smaller one. -/
theorem find?_eq_find?_iff {α : Type} {p q : α → Bool} (hqp : ∀ a, q a = true → p a = true)
    (as : List α) : as.find? q = as.find? p ↔ ∀ a ∈ as.find? p, q a = true := by
  induction as with
  | nil => simp
  | cons a as ih =>
      cases hp : p a with
      | false =>
          have hq : q a = false := Bool.eq_false_iff.2 fun hq => by simp [hqp a hq] at hp
          simpa only [List.find?_cons, hp, hq] using ih
      | true =>
          rw [List.find?_cons_of_pos hp]
          constructor
          · intro h b hb
            exact List.find?_some (h.trans hb)
          · intro h
            exact List.find?_cons_of_pos (h a rfl)

namespace Entry

variable {e : Entry} {name : Text}

/-- The first field that has a name in lower case. -/
def indexed? (e : Entry) (name : Text) : Option Field :=
  e.fields.find? fun f => f.lowerName = name.toLower

theorem isNamed_of_lowerName {f : Field} (h : f.lowerName = name.toLower) :
    f.isNamed name = true :=
  decide_eq_true (Text.caseFold_eq_of_toLower_eq h)

/-- **The same field** is found, or none, just if the one of that name up to folding has it in lower
case. -/
theorem indexed?_eq_iff :
    e.indexed? name = e.field? name ↔ ∀ f ∈ e.field? name, f.lowerName = name.toLower := by
  unfold indexed? field?
  rw [find?_eq_find?_iff fun f hf => isNamed_of_lowerName (of_decide_eq_true hf)]
  simp only [decide_eq_true_eq]

theorem isSome_field?_of_indexed? (h : (e.indexed? name).isSome = true) :
    (e.field? name).isSome = true := by
  obtain ⟨f, hf, hlower⟩ := List.find?_isSome.1 h
  exact List.find?_isSome.2 ⟨f, hf, isNamed_of_lowerName (of_decide_eq_true hlower)⟩

/-- Folding leaves the lower case of the names alone. -/
theorem indexed?_of_isFolded (hname : name.IsFolded) (hfields : ∀ f ∈ e.fields, f.name.IsFolded) :
    e.indexed? name = e.field? name := by
  refine indexed?_eq_iff.2 fun f hf => ?_
  change e.fields.find? (·.isNamed name) = some f at hf
  have hnamed := List.find?_some hf
  exact (Text.toLower_eq_iff (hfields f (List.mem_of_find?_eq_some hf)) hname).2
    (of_decide_eq_true hnamed)

end Entry

namespace FieldIndex

variable {d : Document} {id : NodeId} {e : Entry}

/-- **What an index has** of a present entry: the first field with the name in lower case.  So the
entry has a field of that name, and it is the same one just if it has the name in lower case. -/
theorem get?_build (h : (id, e) ∈ d.entries) (name : Text) :
    let found := (build d).get? id name
    found = (e.indexed? name).map Field.resolve ∧
    (found.isSome = true → (e.field? name).isSome = true) ∧
    (e.indexed? name = e.field? name ↔ ∀ f ∈ e.field? name, f.lowerName = name.toLower) ∧
    ((∀ f ∈ e.field? name, f.lowerName = name.toLower) →
      found.map Resolved.raw = (e.field? name).map fun f => f.value.written) ∧
    (name.IsFolded → (∀ f ∈ e.fields, f.name.IsFolded) → e.indexed? name = e.field? name) := by
  intro found
  obtain ⟨i, hi, hentry⟩ := List.mem_filterMap.1 h
  obtain ⟨e', he, heq⟩ := Option.map_eq_some_iff.1 hentry
  obtain ⟨rfl, rfl⟩ := Prod.mk.inj heq
  have hfound : found = (e'.indexed? name).map Field.resolve := by
    change ((build d).entries.lookup i).bind _ = _
    rw [lookup_build hi, he, Option.map_some, Option.bind_some, Entry.resolve,
      FieldMap.lookup_ofFields]
    rfl
  refine ⟨hfound, fun hsome => ?_, Entry.indexed?_eq_iff, fun hlower => ?_,
    Entry.indexed?_of_isFolded⟩
  · rw [hfound, Option.isSome_map] at hsome
    exact Entry.isSome_field?_of_indexed? hsome
  · rw [hfound, Entry.indexed?_eq_iff.2 hlower, Option.map_map]
    rfl

/-- The second field repeats the name of the first. -/
theorem get?_build_umlaut :
    let d := (Document.parse "@misc\x7bk, Müller = \x7bx\x7d, müller = \x7by\x7d\x7d".toList).1
    ∃ e, (0, e) ∈ d.entries ∧ (∀ f ∈ e.field? "MÜLLER".toList, f.lowerName = "müller".toList) ∧
      (e.field? "MÜLLER".toList).isSome = true ∧
      ((build d).get? 0 "MÜLLER".toList).map Resolved.raw =
        (e.field? "MÜLLER".toList).map fun f => f.value.written := by
  intro d
  have hentry : (0, d.entries.head!.2) ∈ d.entries := by decide +kernel
  have hlower : ∀ f ∈ d.entries.head!.2.field? "MÜLLER".toList,
      f.lowerName = Text.toLower "MÜLLER".toList := by
    decide +kernel
  refine ⟨_, hentry, by decide +kernel, by decide +kernel, ?_⟩
  exact (get?_build hentry "MÜLLER".toList).2.2.2.1 hlower

/-- The entry has a field of this name up to folding, and the index has none in lower case. -/
theorem get?_build_sharpS :
    let d := (Document.parse "@misc\x7bk, straße = \x7bx\x7d\x7d".toList).1
    ∃ e, (0, e) ∈ d.entries ∧ (build d).get? 0 "STRASSE".toList = none ∧
      e.field? "STRASSE".toList = some ⟨"straße".toList, [.braced "x".toList]⟩ := by
  intro d
  exact ⟨d.entries.head!.2, by decide +kernel, by decide +kernel, by decide +kernel⟩

end FieldIndex

end Bibliography
