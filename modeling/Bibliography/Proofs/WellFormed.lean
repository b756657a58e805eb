import Bibliography.Render
import Bibliography.Proofs.Scan.Passage
import Bibliography.Proofs.Text.Runs

/-!
# Bibliography.Proofs.WellFormed

The trees that can be written and read again.  Nothing in the types keeps a
brace that closes nothing out of a value, or a blank out of a name; a block is
*well-formed* if each of its tokens is one that the scanner of its class reads
to its end and not further.  A block that is kept verbatim, or that has no
closing bracket, is not well-formed.

The three delimited classes are said through the scanners themselves;
`isClosed_quoted_iff` and `Payload.isWellFormed_iff` say the same through their
machines.
-/

namespace Bibliography

/-- No brace closes what none has opened, and none is left open. -/
def Text.IsBalanced (t : Text) : Prop := Scan.depth? '{' '}' 0 t = some 0

instance (t : Text) : Decidable t.IsBalanced := inferInstanceAs (Decidable (_ = _))

namespace Segment

/-- The text of a segment ends where its delimiters say. -/
def IsClosed : Segment → Prop
  | literal t => Text.IsRun Scan.isLiteralChar t
  | braced t => t.IsBalanced
  | quoted t => Scan.quoted (t ++ ['"']) = .closed t []

instance (s : Segment) : Decidable s.IsClosed := by
  cases s <;> unfold IsClosed <;> infer_instance

/-- A quoted text is passed by its scanner, and its mark can follow. -/
theorem isClosed_quoted_iff {t : Text} :
    (quoted t).IsClosed ↔ Scan.pass? Scan.Quotation.after? .bare t = some .bare := by
  rw [IsClosed, Scan.quoted_eq_closed_iff]
  simp

end Segment

/-- Every segment of a value is closed. -/
def Value.IsClosed (v : Value) : Prop := ∀ s ∈ v, s.IsClosed

instance (v : Value) : Decidable v.IsClosed := List.decidableBAll Segment.IsClosed v

/-- A field that can be written and read again. -/
structure Field.IsWellFormed (f : Field) : Prop where
  name : Text.IsRun Scan.isKeyChar f.name
  value : f.value.IsClosed

instance (f : Field) : Decidable f.IsWellFormed :=
  decidable_of_iff (Text.IsRun Scan.isKeyChar f.name ∧ f.value.IsClosed)
    ⟨fun h => ⟨h.1, h.2⟩, fun h => ⟨h.name, h.value⟩⟩

/-- An entry that can be written and read again. -/
structure Entry.IsWellFormed (e : Entry) : Prop where
  key : ∀ k ∈ e.key, Text.IsRun Scan.isKeyChar k
  fields : ∀ f ∈ e.fields, f.IsWellFormed

instance (e : Entry) : Decidable e.IsWellFormed :=
  decidable_of_iff ((∀ k ∈ e.key, Text.IsRun Scan.isKeyChar k) ∧ ∀ f ∈ e.fields, f.IsWellFormed)
    ⟨fun h => ⟨h.1, h.2⟩, fun h => ⟨h.key, h.fields⟩⟩

/-- A payload that can be written and read again between brackets. -/
structure Payload.IsWellFormed (d : Delimiter) (p : Payload) : Prop where
  closed : p.isClosed = true
  text : Scan.payload d (p.text ++ [d.closing]) = .closed p.text []

instance (d : Delimiter) (p : Payload) : Decidable (p.IsWellFormed d) :=
  decidable_of_iff
    (p.isClosed = true ∧ Scan.payload d (p.text ++ [d.closing]) = .closed p.text [])
    ⟨fun h => ⟨h.1, h.2⟩, fun h => ⟨h.closed, h.text⟩⟩

/-- A payload is passed by its scanner, and its closing bracket can follow. -/
theorem Payload.isWellFormed_iff {d : Delimiter} {p : Payload} :
    p.IsWellFormed d ↔
      p.isClosed = true ∧ Scan.pass? (Scan.payload? d) 0 p.text = some 0 := by
  have htext : Scan.payload d (p.text ++ [d.closing]) = .closed p.text [] ↔
      Scan.pass? (Scan.payload? d) 0 p.text = some 0 := by
    rw [Scan.payload_eq_closed_iff]
    simp
  rw [← htext]
  exact ⟨fun h => ⟨h.closed, h.text⟩, fun h => ⟨h.1, h.2⟩⟩

namespace Body

/-- The kind of block that a body belongs to; any kind can be kept verbatim. -/
def kind? : Body → Option BlockKind
  | comment _ => some .comment
  | preamble _ => some .preamble
  | stringDef _ => some .stringDef
  | entry _ => some .entry
  | verbatim _ => none

/-- A body that can be written and read again between brackets. -/
def IsWellFormed (d : Delimiter) : Body → Prop
  | comment p | preamble p | stringDef p => p.IsWellFormed d
  | entry e => e.IsWellFormed
  | verbatim _ => False

instance (d : Delimiter) (b : Body) : Decidable (b.IsWellFormed d) := by
  cases b <;> unfold IsWellFormed <;> infer_instance

end Body

/-- A block that can be written and read again. -/
structure Block.IsWellFormed (b : Block) : Prop where
  command : Text.IsRun Scan.isCommandChar b.command
  kind : b.body.kind? = some (BlockKind.ofCommand b.command)
  body : b.body.IsWellFormed b.delimiter

instance (b : Block) : Decidable b.IsWellFormed :=
  decidable_of_iff (Text.IsRun Scan.isCommandChar b.command ∧
      b.body.kind? = some (BlockKind.ofCommand b.command) ∧ b.body.IsWellFormed b.delimiter)
    ⟨fun h => ⟨h.1, h.2.1, h.2.2⟩, fun h => ⟨h.command, h.kind, h.body⟩⟩

/-! ## edits -/

namespace Edit

variable {α : Type} {P : α → Prop} {f : Edit α}

/-- An edit leaves alone what it does not count as changed. -/
def IsHonest (f : Edit α) : Prop := ∀ a, (f a).2 = false → (f a).1 = a

/-- An edit counts as changed exactly what it changes. -/
def IsExact (f : Edit α) : Prop := ∀ a, (f a).2 = true ↔ (f a).1 ≠ a

theorem IsExact.isHonest (h : IsExact f) : IsHonest f := by
  intro a ha
  refine Classical.byContradiction fun hne => ?_
  rw [(h a).2 hne] at ha
  cases ha

/-- An edit that keeps a property and is honest: it leaves alone what it does not
count as changed. -/
structure Keeps (P : α → Prop) (f : Edit α) : Prop where
  keeps : ∀ {a}, P a → P (f a).1
  honest : ∀ {a}, (f a).2 = false → (f a).1 = a

theorem Keeps.isHonest (h : Keeps P f) : IsHonest f := fun _ => h.honest

end Edit

end Bibliography
