import Bibliography.Document
import Bibliography.Layout

/-!
# Bibliography.Render

Writing a document.  To preserve it, every piece is written as it was read, and
only blocks that an edit changed are laid out anew.  With a layout, every block
is laid out, blank text is dropped, and one blank line separates the pieces.
-/

namespace Bibliography

/-- How a document is written. -/
structure Rendering where
  /-- The layout of all blocks; none preserves what is unchanged. -/
  layout : Option Layout := none
  /-- Whether a layout trims free text on all sides. -/
  tidyComments : Bool := false
deriving DecidableEq, Inhabited

namespace Layout

/-- A block with a payload; one without its closing bracket ends the document. -/
def payload (l : Layout) (command : Text) (d : Delimiter) (p : Payload) : Text :=
  l.command command ++ d.opening ::
    if p.isClosed then p.text ++ [d.closing] else p.text.stripEnd

/-- An entry. -/
def entry (l : Layout) (command : Text) (d : Delimiter) (e : Entry) : Text :=
  let fields :=
    if e.fields = [] then []
    else keyEnd e.key.isSome ++ l.fields (l.nameWidth (e.fields.map Field.name)) e.fields
  l.command command ++ d.opening :: e.key.getD [] ++ fields ++ [d.closing]

/-- A block, laid out from its content. -/
def block (l : Layout) (b : Block) : Text :=
  match b.body with
  | .comment p | .preamble p | .stringDef p => l.payload b.command b.delimiter p
  | .entry e => l.entry b.command b.delimiter e
  | .verbatim t => t

/-- Free text without blank lines before it and white space after it. -/
def trimBlankLines (t : Text) : Text :=
  let s := t.stripEnd
  let blank := s.takeWhile Unicode.isWhiteSpace
  match s.dropWhile Unicode.isWhiteSpace with
  | [] => []
  | rest => (blank.reverse.takeWhile (· ≠ '\n')).reverse ++ rest

/-- The piece that a node becomes; an empty one is left out. -/
def piece (l : Layout) (tidyComments : Bool) : Node → Option Text
  | .text t =>
    let t := if tidyComments then t.strip else trimBlankLines t
    if t = [] then none else some t
  | .block b =>
    match b.body with
    | .verbatim t => if t.stripEnd = [] then none else some t.stripEnd
    | _ => some (l.block b)

/-- A document with every block laid out. -/
def document (l : Layout) (tidyComments : Bool) (d : Document) : Text :=
  match d.items.filterMap fun (_, n) => l.piece tidyComments n with
  | [] => []
  | ps => Text.joinWith blockSeparator ps ++ ['\n']

end Layout

namespace Node

/-- A node as it was read, or as a layout of its own if an edit changed it. -/
def preserved : Node → Text
  | text t => t
  | block b => b.source.getD (({} : Layout).block b)

end Node

namespace Document

/-- A document with everything preserved that is unchanged. -/
def preserved (d : Document) : Text := d.items.flatMap fun (_, n) => n.preserved

/-- Write a document. -/
def render (d : Document) (r : Rendering) : Text :=
  match r.layout with
  | none => d.preserved
  | some l => l.document r.tidyComments d

end Document

end Bibliography
