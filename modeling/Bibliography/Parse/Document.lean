import Bibliography.Document
import Bibliography.Parse.Block

/-!
# Bibliography.Parse.Document

Reading a bibliography, which never fails: the text is cut into blocks and the
free text between them.

`written_pieces` says that the pieces, written one after the other, are the
text.
-/

namespace Bibliography

/-- A piece of a bibliography, with what was found about it. -/
inductive Piece where
  /-- Free text. -/
  | text (text : Text)
  | block (block : Block) (causes : List Cause)

namespace Piece

/-- Put a character of free text in front of pieces. -/
def consText (c : Char) : List Piece → List Piece
  | text t :: ps => text (c :: t) :: ps
  | ps => text [c] :: ps

/-- The node of a piece. -/
def node : Piece → Node
  | text t => .text t
  | block b _ => .block b

/-- The warnings about a piece, which is the node of a handle. -/
def warnings (id : NodeId) : Piece → List Warning
  | text _ => []
  | block b causes =>
    causes.map fun cause => { cause, entry := some ⟨id, b.entry?.bind Entry.key⟩ }

/-- Cut a text into blocks and free text. -/
def ofText (s : Text) : List Piece :=
  match s with
  | [] => []
  | c :: s =>
    if c = '@' then
      match _ : Block.read? s with
      | some b => block b.block b.causes :: ofText b.rest
      | none => consText c (ofText s)
    else consText c (ofText s)
termination_by s.length
decreasing_by
  · exact Nat.lt_succ_of_le (Block.length_rest_le ‹_›)
  · exact Nat.lt_succ_self _
  · exact Nat.lt_succ_self _

/-- The text of a piece as it was read. -/
def written : Piece → Text
  | text t => t
  | block b _ => b.source.getD []

theorem flatMap_written_consText (c : Char) (ps : List Piece) :
    (consText c ps).flatMap written = c :: ps.flatMap written := by
  unfold consText
  split <;> simp [written]

/-- The pieces, written one after the other, are the text. -/
theorem written_pieces (s : Text) : (ofText s).flatMap written = s := by
  fun_induction ofText s with
  | case1 => rfl
  | case2 s b h ih =>
    obtain ⟨t, hs, ht⟩ := Block.source_append_rest h
    simp [written, hs, ih, ht]
  | case3 s _ ih | case4 c s _ ih => simp [flatMap_written_consText, ih]

end Piece

namespace Document

/-- The document of a list of pieces. -/
def ofPieces (ps : List Piece) : Document := ofNodes (ps.map Piece.node)

/-- Read a bibliography, with the warnings about its blocks in order. -/
def parse (s : Text) : Document × List Warning :=
  let ps := Piece.ofText s
  (ofPieces ps, ps.zipIdx.flatMap fun (p, id) => p.warnings id)

end Document

end Bibliography
