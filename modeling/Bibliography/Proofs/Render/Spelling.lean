import Bibliography.Block
import Bibliography.Layout
import Bibliography.Proofs.Scan.Classes
import Bibliography.Proofs.Text.Runs
import Bibliography.Proofs.Unicode.Folding

/-!
# Bibliography.Proofs.Render.Spelling

The spelling of commands and names.  A layout keeps them or writes them in lower
case.  Either way a name stays a name and a command a command of its kind, and a
name that a layout has spelled it spells the same again.
-/

namespace Bibliography

/-! ## lower case in ASCII -/

namespace Text

variable {s : Text}

theorem toLower_of_ascii (h : ∀ c ∈ s, c.toNat < 128) : s.toLower = s.map Char.toLower :=
  Unicode.lowerFrom_ascii [] h

theorem caseFold_of_ascii (h : ∀ c ∈ s, c.toNat < 128) : s.caseFold = s.map Char.toLower := by
  unfold caseFold
  induction s with
  | nil => rfl
  | cons c s ih =>
      obtain ⟨hc, hs⟩ := List.forall_mem_cons.1 h
      rw [List.flatMap_cons, ih hs, Unicode.foldChar, if_pos hc]
      rfl

end Text

namespace Scan

variable {c : Char}

/-- Commands are ASCII. -/
theorem lt_of_isCommandChar (h : isCommandChar c = true) : c.toNat < 128 := by
  rw [isCommandChar, Text.isAlnum, Char.isAlphanum, Bool.or_eq_true, Bool.or_eq_true] at h
  obtain (h | h) | h := h
  · exact Unicode.lt_of_isAlpha h
  · exact Unicode.lt_of_isDigit h
  · simp only [decide_eq_true_eq, List.mem_cons, List.not_mem_nil, or_false] at h
    obtain rfl | rfl | rfl | rfl := h <;> decide

theorem isCommandChar_toLower (h : isCommandChar c = true) : isCommandChar c.toLower = true := by
  have hcase := Unicode.ascii_case (lt_of_isCommandChar h)
  cases hc : c.isAlpha with
  | true => simp [isCommandChar, Text.isAlnum, Char.isAlphanum, (hcase.1 hc).1]
  | false => rwa [(hcase.2 hc).1]

end Scan

/-! ## names and commands -/

namespace Layout

variable {l : Layout} {name command : Text}

/-- A name as a layout spells it is a name. -/
theorem isRun_spelling (l : Layout) (h : Text.IsRun Scan.isKeyChar name) :
    Text.IsRun Scan.isKeyChar (l.spelling name) := by
  unfold spelling
  split
  · refine ⟨Text.toLower_ne_nil h.1, fun x hx => ?_⟩
    obtain hx | hx := Text.mem_toLower hx
    · exact h.2 x hx
    · exact Scan.isKeyChar_of_isLetterlike hx
  · exact h

/-- A command as a layout spells it is a command. -/
theorem isRun_command (l : Layout) (h : Text.IsRun Scan.isCommandChar command) :
    Text.IsRun Scan.isCommandChar (l.spelling command) := by
  unfold spelling
  split
  · refine ⟨Text.toLower_ne_nil h.1, fun x hx => ?_⟩
    rw [Text.toLower_of_ascii fun c hc => Scan.lt_of_isCommandChar (h.2 c hc)] at hx
    obtain ⟨c, hc, rfl⟩ := List.mem_map.1 hx
    exact Scan.isCommandChar_toLower (h.2 c hc)
  · exact h

/-- It is a command of the same kind. -/
theorem ofCommand_spelling (l : Layout) (command : Text) :
    BlockKind.ofCommand (l.spelling command) = BlockKind.ofCommand command := by
  unfold spelling
  split
  · unfold BlockKind.ofCommand Text.eqIgnoreCase
    rw [Text.caseFold_toLower]
  · rfl

/-- A field with its name as a layout spells it. -/
def respellField (l : Layout) (f : Field) : Field := { f with name := l.spelling f.name }

/-- A block with its command and the names of its fields as a layout spells them. -/
def respell (l : Layout) (b : Block) : Block :=
  { b with
    command := l.spelling b.command
    body := match b.body with
      | .entry e => .entry { e with fields := e.fields.map l.respellField }
      | body => body }

/-- A layout that does not lower the case spells nothing otherwise. -/
theorem respell_of_keeps (h : l.lowercase = false) (b : Block) : l.respell b = b := by
  have hspelling (name : Text) : l.spelling name = name := by simp [spelling, h]
  have hfields (fs : List Field) : fs.map l.respellField = fs :=
    List.map_id'' (fun f => by rw [respellField, hspelling]) fs
  obtain ⟨command, d, body, source⟩ := b
  cases body <;> simp [respell, hspelling, hfields]

end Layout

end Bibliography
