import Bibliography.Document
import Bibliography.Unicode.WhiteSpace

/-!
# Bibliography.Comments

Commentary is everything in a document that is neither an entry nor a
definition: comment blocks, and free text that is not blank.  It can be removed
or brought into shape.
-/

namespace Bibliography

namespace Node

/-- Whether the node is taken out when commentary is: it is a comment or free
text, and blank text stays unless the node before it went. -/
def isDropped (afterDropped : Bool) : Node → Bool
  | text t => afterDropped || Text.trim Text.isBlank t ≠ []
  | block b => b.isComment

/-- Whether the node, when it is written, ends a line. -/
def endsLine : Node → Bool
  | text t => t.getLast? = some '\n'
  | block b =>
    match b.source, b.body with
    | some s, _ => s.getLast? = some '\n'
    | none, .verbatim t => t.getLast? = some '\n'
    | none, _ => false

/-- Free text on lines of its own, without blanks at their ends. -/
def tidyText (onNewLine : Bool) (t : Text) : Text :=
  let lines := (Text.lines (Text.trim Text.isBlank t)).map (Text.trimEnd Text.isBlank)
  (if onNewLine then [] else ['\n']) ++ Text.joinWith ['\n'] lines ++ ['\n']

/-- A comment without white space at the ends of its payload. -/
def tidyComment : Edit Block := fun b =>
  match b.body with
  | .comment p =>
    ({ b with body := .comment { p with text := p.text.strip } }, p.text.strip ≠ p.text)
  | _ => (b, false)

/-- Bring commentary into shape; `onNewLine` says whether it begins a line. -/
def tidy (onNewLine : Bool) : Edit Node
  | text t =>
    if Text.trim Text.isBlank t = [] then (text t, false)
    else (text (tidyText onNewLine t), tidyText onNewLine t ≠ t)
  | block b => editBlock tidyComment (block b)

end Node

namespace Document

/-- The handles that stay when commentary is removed. -/
def withoutComments (afterDropped : Bool) : List (NodeId × Node) → List NodeId
  | [] => []
  | (id, n) :: items =>
    if n.isDropped afterDropped then withoutComments true items
    else id :: withoutComments false items

/-- Remove commentary, with the blank text after it, and count the nodes that
went. -/
def stripComments (d : Document) : Document × Nat :=
  let order := withoutComments false d.items
  ({ d with order }, d.order.length - order.length)

/-- Bring the commentary of these nodes into shape, from left to right, and
count those that changed. -/
def tidyCommentsFrom (onNewLine : Bool) : List NodeId → Document → Document × Nat
  | [], d => (d, 0)
  | id :: ids, d =>
    let (d, changed) := d.editNode (Node.tidy onNewLine) id
    let (d', count) := tidyCommentsFrom ((d.node? id).any Node.endsLine) ids d
    (d', count + changed.toNat)

/-- Bring the commentary of a document into shape, and count the nodes that
changed. -/
def tidyComments (d : Document) : Document × Nat := tidyCommentsFrom true d.order d

/-! ## laws -/

@[simp] theorem nodes_stripComments (d : Document) : d.stripComments.1.nodes = d.nodes := rfl

@[simp] theorem order_tidyCommentsFrom (onNewLine : Bool) (ids : List NodeId) (d : Document) :
    (tidyCommentsFrom onNewLine ids d).1.order = d.order := by
  induction ids generalizing onNewLine d with
  | nil => rfl
  | cons id ids ih => simp [tidyCommentsFrom, ih]

@[simp] theorem order_tidyComments (d : Document) : d.tidyComments.1.order = d.order := by
  simp [tidyComments]

end Document

end Bibliography
