import Bibliography.Entry

/-!
# Bibliography.Block

The units of a document: free text and blocks `@command{…}` or `@command(…)`.
A block is an entry, a comment, a preamble or a string definition, or a block
that could not be understood and is kept as it was.  It remembers its source
text until an edit changes it.
-/

namespace Bibliography

/-- The pair of brackets around the body of a block. -/
inductive Delimiter where
  | brace
  | paren
deriving DecidableEq, Inhabited

namespace Delimiter

/-- The opening bracket. -/
def opening : Delimiter → Char
  | brace => '{'
  | paren => '('

/-- The closing bracket. -/
def closing : Delimiter → Char
  | brace => '}'
  | paren => ')'

/-- The pair that a character opens. -/
def ofOpening? : Char → Option Delimiter
  | '{' => some brace
  | '(' => some paren
  | _ => none

theorem ofOpening?_eq_some_iff {c : Char} {d : Delimiter} :
    ofOpening? c = some d ↔ c = d.opening := by
  unfold ofOpening?
  split <;> cases d <;> simp_all [opening]

end Delimiter

/-- The body of a comment, a preamble or a string definition, which is not
read any further. -/
structure Payload where
  /-- Everything between the outer brackets. -/
  text : Text
  /-- The braces left open at the end; zero for a closed block. -/
  braces : Nat := 0
  /-- The parentheses left open at the end; zero for a closed block. -/
  parens : Nat := 0
deriving DecidableEq, Inhabited

/-- Whether the block has its closing bracket. -/
def Payload.isClosed (p : Payload) : Bool := p.braces = 0 && p.parens = 0

/-- The four kinds of block. -/
inductive BlockKind where
  | comment
  | preamble
  | stringDef
  | entry
deriving DecidableEq, Inhabited

/-- The kind of a block with a command, up to the case of letters. -/
def BlockKind.ofCommand (command : Text) : BlockKind :=
  if command.eqIgnoreCase ['c', 'o', 'm', 'm', 'e', 'n', 't'] then comment
  else if command.eqIgnoreCase ['p', 'r', 'e', 'a', 'm', 'b', 'l', 'e'] then preamble
  else if command.eqIgnoreCase ['s', 't', 'r', 'i', 'n', 'g'] then stringDef
  else entry

/-- The content of a block. -/
inductive Body where
  | comment (payload : Payload)
  | preamble (payload : Payload)
  | stringDef (payload : Payload)
  | entry (entry : Entry)
  /-- A block that could not be understood: its whole text, from the `@` on. -/
  | verbatim (text : Text)
deriving DecidableEq, Inhabited

namespace Body

/-- The body of a block of a kind with an unread payload. -/
def ofPayload (kind : BlockKind) (p : Payload) : Body :=
  match kind with
  | .comment => comment p
  | .preamble => preamble p
  | .stringDef => stringDef p
  | .entry => verbatim p.text

/-- The entry in a body. -/
def entry? : Body → Option Entry
  | entry e => some e
  | _ => none

end Body

/-- A block `@command{…}`. -/
structure Block where
  /-- The command as the document spells it. -/
  command : Text
  delimiter : Delimiter
  body : Body
  /-- The text that the block was read from, until an edit changes the block. -/
  source : Option Text := none
deriving DecidableEq, Inhabited

namespace Block

/-- The entry in a block. -/
def entry? (b : Block) : Option Entry := b.body.entry?

/-- Whether the block is a comment. -/
def isComment (b : Block) : Bool :=
  match b.body with
  | .comment _ => true
  | _ => false

/-- Edit a block; a change makes it forget its source. -/
def edit (f : Edit Block) : Edit Block := fun b =>
  match f b with
  | (b', true) => ({ b' with source := none }, true)
  | (b', false) => (b', false)

/-- Edit the entry of a block; other blocks are kept. -/
def editEntry (f : Edit Entry) : Edit Block := edit fun b =>
  match b.body with
  | .entry e => ({ b with body := .entry (f e).1 }, (f e).2)
  | _ => (b, false)

end Block

/-- A node of a document. -/
inductive Node where
  /-- Free text between blocks. -/
  | text (text : Text)
  | block (block : Block)
deriving DecidableEq, Inhabited

namespace Node

/-- The block in a node. -/
def block? : Node → Option Block
  | block b => some b
  | text _ => none

/-- The entry in a node. -/
def entry? (n : Node) : Option Entry := n.block?.bind Block.entry?

/-- Edit the block of a node; text is kept. -/
def editBlock (f : Edit Block) : Edit Node
  | block b => (block (b.edit f).1, (b.edit f).2)
  | text t => (text t, false)

/-- Edit the entry of a node; other nodes are kept. -/
def editEntry (f : Edit Entry) : Edit Node
  | block b => (block (b.editEntry f).1, (b.editEntry f).2)
  | text t => (text t, false)

end Node

end Bibliography
