import Bibliography.Proofs.Tidy.Comments
import Bibliography.Proofs.Tidy.Sorting

/-!
# Bibliography.Proofs.Tidy.Passes

A run keeps its document faithful.  There is one lemma for a pass, from the
lemmas of the modules before this one, and by induction one for all passes.  Two
kinds of pass are left out: merging, which brings the fields of one entry into
another, and the removal of enclosing braces.

* `Pass.isFaithful_run` — a pass keeps the document faithful;
* `reparse_tidy` — what a run writes is read as what the run has.
-/

namespace Bibliography

open Document

namespace Pass

/-- A pass that neither merges entries nor removes braces. -/
def IsFaithful : Pass → Prop
  | normalize steps => .stripEnclosingBraces ∉ steps
  | duplicates _ merge => merge = none
  | _ => True

theorem isFaithful_editFields {f : Edit (List Field)} (hf : Edit.Keeps Fields.AreWellFormed f)
    {r : Run} (h : r.document.IsFaithful) : (r.editFields f).document.IsFaithful :=
  (edits_editFields hf r.document).isFaithful h

/-- **A pass keeps the document faithful.** -/
theorem isFaithful_run {p : Pass} (hp : p.IsFaithful) {r : Run} (h : r.document.IsFaithful) :
    (p.run r).document.IsFaithful := by
  cases p with
  | stripComments => exact h.stripComments
  | tidyComments => exact (edits_tidyComments r.document).isFaithful h
  | removeNamed names => exact isFaithful_editFields (Fields.keeps_removing _) h
  | removeEmptyFields => exact isFaithful_editFields (Fields.keeps_removing _) h
  | removeDuplicateFields => exact isFaithful_editFields Fields.keeps_removeRepeated h
  | normalize steps => exact isFaithful_editFields (Fields.keeps_normalize hp) h
  | checkKeys => exact h
  | duplicates rules merge =>
      obtain rfl : merge = none := hp
      exact (edits_detect r.document r.index rules).isFaithful h
  | sortEntries specs => exact h.sortEntries r.index (SortKey.parseAll specs).1
  | sortFields order =>
      exact (edits_editFields (Fields.keeps_sort order) r.document).isFaithful h
  | generateKeys template =>
      exact (edits_generateKeysFrom r.document r.index template).isFaithful h

/-- **All passes** keep the document faithful. -/
theorem isFaithful_foldl {ps : List Pass} (hps : ∀ p ∈ ps, p.IsFaithful) {r : Run}
    (h : r.document.IsFaithful) : (ps.foldl Pass.run r).document.IsFaithful := by
  induction ps generalizing r with
  | nil => exact h
  | cons p ps ih =>
      obtain ⟨hp, hps⟩ := List.forall_mem_cons.1 hps
      exact ih hps (isFaithful_run hp h)

end Pass

namespace Options

variable {o : Options}

theorem mem_chosen_iff {α : Type} {condition : Bool} {a b : α} :
    a ∈ chosen condition b ↔ condition = true ∧ a = b := by
  unfold chosen
  cases condition <;> simp

/-- Braces are removed only where that is asked for. -/
theorem stripEnclosingBraces_not_mem (h : o.stripEnclosingBraces = false) :
    .stripEnclosingBraces ∉ o.normalizations := by
  simp [normalizations, mem_chosen_iff, h]

/-- The passes of a run, if neither merging nor the removal of braces is asked
for. -/
theorem isFaithful_passes (hstrip : o.stripEnclosingBraces = false)
    (hmerge : o.mergeStrategy = none) : ∀ p ∈ o.passes, p.IsFaithful := by
  intro p hp
  simp only [passes, List.mem_append, mem_chosen_iff, Option.mem_toList, Option.map_eq_some_iff,
    List.mem_singleton] at hp
  obtain (((((((((⟨-, rfl⟩ | ⟨-, rfl⟩) | ⟨-, rfl⟩) | ⟨-, rfl⟩) | ⟨-, rfl⟩) | ⟨-, rfl⟩) | rfl) |
    ⟨rules, -, rfl⟩) | ⟨specs, -, rfl⟩) | ⟨order, -, rfl⟩) | ⟨template, -, rfl⟩ := hp
  case inl.inl.inl.inl.inl.inr => exact stripEnclosingBraces_not_mem hstrip
  case inl.inl.inl.inr => exact hmerge
  all_goals trivial

end Options

/-- Nothing in a text had to be recovered: every block of it was understood up to
its closing bracket. -/
def Text.ReadsCleanly (s : Text) : Prop :=
  ∀ w ∈ (Document.parse s).2, w.code ≠ "UNTERMINATED_BLOCK" ∧ w.code ≠ "MALFORMED_BLOCK"

instance (s : Text) : Decidable s.ReadsCleanly := List.decidableBAll
  (fun w : Warning => w.code ≠ "UNTERMINATED_BLOCK" ∧ w.code ≠ "MALFORMED_BLOCK") _

theorem Text.readsCleanly_iff {s : Text} :
    s.ReadsCleanly ↔ ∀ w ∈ (Document.parse s).2, w.cause.isRecovery = false := by
  simp only [ReadsCleanly, Warning.code, Cause.isRecovery, Bool.or_eq_false_iff,
    decide_eq_false_iff_not, ne_eq]

/-- **Faithful output.**  If nothing in the input had to be recovered, and the
output has no layout, then what a run writes is read as the blocks that the run
has at its end, in order, and again without recovery.  Sources and notes of
duplicates do not count; entries are not merged, and enclosing braces stay. -/
theorem reparse_tidy {s : Text} {o : Options} (hclean : s.ReadsCleanly)
    (hlayout : o.isLayout = false) (hstrip : o.stripEnclosingBraces = false)
    (hmerge : o.mergeStrategy = none) :
    (Document.parse (tidy o s).text).1.blocks.map Block.content =
        (o.passes.foldl Pass.run (Run.start s)).document.blocks.map Block.content ∧
      (tidy o s).text.ReadsCleanly := by
  have hfaithful : (o.passes.foldl Pass.run (Run.start s)).document.IsFaithful :=
    Pass.isFaithful_foldl (Options.isFaithful_passes hstrip hmerge)
      (Document.isFaithful_parse (Text.readsCleanly_iff.1 hclean))
  have htext : (tidy o s).text =
      (o.passes.foldl Pass.run (Run.start s)).document.preserved := by
    have hrender : o.rendering.layout = none := by simp [Options.rendering, hlayout]
    unfold tidy Document.render
    rw [hrender]
  rw [Text.readsCleanly_iff, htext]
  exact Document.parse_preserved hfaithful

/-- Commentary, two kinds of delimiters, a bare token and an entry without a key,
under every pass. -/
theorem reparse_tidy_notes :
    let s : Text :=
      "notes \n@misc\x7bb, title = \"ON \x7b\\\"U\x7d\", month = \x7bJAN\x7d\x7d\n@misc(year = 1999)".toList
    let o : Options :=
      { omitted := ["abstract".toList], curly := true, numeric := true, dropAllCaps := true,
        escape := true, encodeUrls := true, maxAuthors := some 2, stripComments := true,
        tidyComments := true, removeEmptyFields := true, removeDuplicateFields := true,
        enclosingBraces := some (.flag true), duplicates := some (.flag true),
        sort := some (.flag true), sortFields := some (.flag true),
        generateKeys := some (.flag true) }
    s.ReadsCleanly ∧ o.isLayout = false ∧ o.stripEnclosingBraces = false ∧
      o.mergeStrategy = none ∧
      (Document.parse (tidy o s).text).1.blocks.map Block.content =
        (o.passes.foldl Pass.run (Run.start s)).document.blocks.map Block.content ∧
      (tidy o s).text.ReadsCleanly := by
  intro s o
  have hclean : s.ReadsCleanly := by decide +kernel
  exact ⟨hclean, rfl, rfl, rfl, reparse_tidy hclean rfl rfl rfl⟩

end Bibliography
