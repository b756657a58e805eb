import Bibliography.Grammar.Nesting

/-!
# Bibliography.Grammar.Tree

The reference grammar of well-formed documents and the tree of its matches.

    command    = (alphanumeric / "_" / "-" / ":" / ".")+
    braced     = "{" balanced* "}"
    quoted     = "\"" quoted_char* "\""
    segment    = braced / quoted / literal
    value      = (segment (ign "#" ign segment)*)?
    field      = field_name ign "=" ign value
    fields     = (ign ","? ign field)* (ign ",")* ign
    entry_body = ign (entry_key ign !"=" ("," fields)? / ","? fields) ign
    entry      = "@" command ign ("{" entry_body "}" / "(" entry_body ")")
    raw        = "@" raw_command !command_char ign ("{" balanced* "}" / "(" round* ")")
    bib        = (!block any)* (block (!block any)*)*        where block = raw / entry

A match is kept as the text that is left before it and the text that is left
after it.
-/

namespace Bibliography.Grammar

/-- The rules whose matches are kept. -/
inductive Rule where
  | command
  | entryKey
  | fieldName
  | braced
  | quoted
  | literal
  | value
  | field
  | entry
  | raw
  | endOfInput
deriving DecidableEq, Inhabited

/-- The name of a rule. -/
def Rule.name : Rule → String
  | command => "command"
  | entryKey => "entry_key"
  | fieldName => "field_name"
  | braced => "braced"
  | quoted => "quoted"
  | literal => "literal"
  | value => "value"
  | field => "field"
  | entry => "entry"
  | raw => "raw"
  | endOfInput => "EOI"

/-- A match of a rule, with the matches inside it. -/
inductive Tree where
  | node (rule : Rule) (start stop : Text) (children : List Tree)
deriving Inhabited

namespace Tree

/-- The rule that matched. -/
def rule : Tree → Rule
  | node r _ _ _ => r

/-- The text that the match begins with and all that follows. -/
def start : Tree → Text
  | node _ s _ _ => s

/-- The text after the match. -/
def stop : Tree → Text
  | node _ _ t _ => t

/-- The matches inside. -/
def children : Tree → List Tree
  | node _ _ _ ts => ts

/-- The text of the match. -/
def text (t : Tree) : Text := t.start.take (t.start.length - t.stop.length)

/-- Where a match begins and ends in a text of so many octets. -/
def span (size : Nat) (t : Tree) : Nat × Nat :=
  (size - Text.utf8Size t.start, size - Text.utf8Size t.stop)

end Tree

/-- A match of a rule with what is left after it. -/
abbrev Matched (s : Text) := Option (Tree × Shorter s)

/-- Skip blanks. -/
def ign (s : Text) : NoLonger s :=
  ⟨s.dropWhile Text.isBlank, (List.dropWhile_suffix _).length_le⟩

/-- Skip one character if it comes next. -/
def optional (c : Char) (s : Text) : NoLonger s :=
  match s with
  | [] => ⟨[], Nat.le_refl _⟩
  | d :: t => if d = c then ⟨t, Nat.le_succ _⟩ else ⟨d :: t, Nat.le_refl _⟩

/-- A run of at least one character of a class. -/
def word (rule : Rule) (p : Char → Bool) (s : Text) : Matched s :=
  match s with
  | [] => none
  | c :: t =>
    if p c then
      some (.node rule (c :: t) (t.dropWhile p) [],
        ⟨t.dropWhile p, Nat.lt_succ_of_le (List.dropWhile_suffix _).length_le⟩)
    else none

/-- A text in quotation marks. -/
def quotedText (s : Text) : Option (Shorter s) :=
  match s with
  | '"' :: t => closedBy '"' (quotedMany t)
  | _ => none

/-- A segment. -/
def segment (s : Text) : Matched s :=
  match group s with
  | some r => some (.node .braced s r.1 [], r)
  | none =>
    match quotedText s with
    | some r => some (.node .quoted s r.1 [], r)
    | none => word .literal Scan.isLiteralChar s

/-- More segments, each after a `#`. -/
def moreSegments (s : Text) : List Tree × NoLonger s :=
  match after '#' (ign s) with
  | none => ([], ⟨s, Nat.le_refl _⟩)
  | some t =>
    match segment (ign t.1).1 with
    | none => ([], ⟨s, Nat.le_refl _⟩)
    | some (tree, r) =>
      have hr : r.1.length < s.length :=
        Nat.lt_trans (Nat.lt_of_lt_of_le r.2 (ign t.1).2) t.2
      let (trees, u) := moreSegments r.1
      (tree :: trees, ⟨u.1, Nat.le_trans u.2 (Nat.le_of_lt hr)⟩)
termination_by s.length
decreasing_by exact hr

/-- A value, which may be empty. -/
def value (s : Text) : Tree × NoLonger s :=
  match segment s with
  | some (tree, r) =>
    let (trees, u) := moreSegments r.1
    (.node .value s u.1 (tree :: trees), ⟨u.1, Nat.le_trans u.2 (Nat.le_of_lt r.2)⟩)
  | none => (.node .value s s [], ⟨s, Nat.le_refl _⟩)

/-- A field. -/
def field (s : Text) : Matched s :=
  match word .fieldName Scan.isKeyChar s with
  | none => none
  | some (name, r) =>
    match after '=' (ign r.1) with
    | none => none
    | some t =>
      let (tree, u) := value (ign t.1).1
      some (.node .field s u.1 [name, tree],
        ⟨u.1, Nat.lt_of_le_of_lt (Nat.le_trans u.2 (ign t.1).2) (Nat.lt_trans t.2 r.2)⟩)

/-- As many fields as there are, each after at most one comma. -/
def manyFields (s : Text) : List Tree × NoLonger s :=
  let t := ign (optional ',' (ign s).1).1
  match field t.1 with
  | some (tree, r) =>
    have hr : r.1.length < s.length :=
      Nat.lt_of_lt_of_le r.2
        (Nat.le_trans t.2 (Nat.le_trans (optional ',' (ign s).1).2 (ign s).2))
    let (trees, u) := manyFields r.1
    (tree :: trees, ⟨u.1, Nat.le_trans u.2 (Nat.le_of_lt hr)⟩)
  | none => ([], ⟨s, Nat.le_refl _⟩)
termination_by s.length
decreasing_by exact hr

/-- As many commas as there are. -/
def manyCommas (s : Text) : NoLonger s :=
  match after ',' (ign s) with
  | none => ⟨s, Nat.le_refl _⟩
  | some t => ⟨(manyCommas t.1).1, Nat.le_trans (manyCommas t.1).2 (Nat.le_of_lt t.2)⟩
termination_by s.length
decreasing_by all_goals exact t.2

/-- Fields and stray commas. -/
def fields (s : Text) : List Tree × NoLonger s :=
  let (trees, r) := manyFields s
  let u := manyCommas r.1
  let v := ign u.1
  (trees, ⟨v.1, Nat.le_trans v.2 (Nat.le_trans u.2 r.2)⟩)

/-- What follows a citation key: a comma and fields, or nothing. -/
def afterKey (s : Text) : List Tree × NoLonger s :=
  match s with
  | ',' :: t =>
    let (trees, r) := fields t
    (trees, ⟨r.1, Nat.le_succ_of_le r.2⟩)
  | t => ([], ⟨t, Nat.le_refl _⟩)

/-- The body of an entry without a citation key. -/
def keyless (s : Text) : List Tree × NoLonger s :=
  let t := optional ',' s
  let (trees, r) := fields t.1
  (trees, ⟨r.1, Nat.le_trans r.2 t.2⟩)

/-- The body of an entry. -/
def entryBody (s : Text) : List Tree × NoLonger s :=
  let t := ign s
  let (trees, r) : List Tree × NoLonger t.1 :=
    match word .entryKey Scan.isKeyChar t.1 with
    | some (key, r) =>
      let u := ign r.1
      if u.1.head? = some '=' then keyless t.1
      else
        let (trees, v) := afterKey u.1
        (key :: trees, ⟨v.1, Nat.le_trans v.2 (Nat.le_trans u.2 (Nat.le_of_lt r.2))⟩)
    | none => keyless t.1
  let v := ign r.1
  (trees, ⟨v.1, Nat.le_trans v.2 (Nat.le_trans r.2 t.2)⟩)

/-- A body in brackets. -/
def enclosed (d : Delimiter) (s : Text) : Option (List Tree × Shorter s) :=
  match s with
  | [] => none
  | c :: t =>
    if c = d.opening then
      let (trees, r) := entryBody t
      (closedBy d.closing r).map (trees, ·)
    else none

/-- An entry. -/
def entry (s : Text) : Matched s :=
  match s with
  | '@' :: t =>
    match word .command Scan.isCommandChar t with
    | none => none
    | some (command, r) =>
      let u := ign r.1
      match (enclosed .brace u.1).or (enclosed .paren u.1) with
      | some (trees, v) =>
        some (.node .entry ('@' :: t) v.1 (command :: trees), ⟨v.1, by
          have h1 := v.2
          have h2 := u.2
          have h3 := r.2
          simp only [List.length_cons]
          omega⟩)
      | none => none
  | _ => none

/-- A word up to the case of its ASCII letters. -/
def keyword (w s : Text) : Option (NoLonger s) :=
  if Text.eqIgnoreAsciiCase w (s.take w.length) then
    some ⟨s.drop w.length, by
      rw [List.length_drop]
      omega⟩
  else none

/-- The commands of blocks whose payload is not read. -/
def rawCommand (s : Text) : Option (NoLonger s) :=
  (keyword "comment".toList s).or
    ((keyword "preamble".toList s).or (keyword "string".toList s))

/-- A payload in brackets. -/
def rawBody (s : Text) : Option (Shorter s) :=
  match s with
  | '(' :: t => round ('(' :: t)
  | t => group t

/-- A comment, a preamble or a string definition. -/
def raw (s : Text) : Matched s :=
  match s with
  | '@' :: t =>
    match rawCommand t with
    | none => none
    | some r =>
      if (r.1.head?.map Scan.isCommandChar).getD false then none
      else
        let u := ign r.1
        match rawBody u.1 with
        | some v =>
          some (.node .raw ('@' :: t) v.1 [], ⟨v.1, by
            have h1 := v.2
            have h2 := u.2
            have h3 := r.2
            simp only [List.length_cons]
            omega⟩)
        | none => none
  | _ => none

/-- A block. -/
def block (s : Text) : Matched s := (raw s).or (entry s)

/-- The blocks of a document; what begins no block is free text. -/
def blocks (s : Text) : List Tree :=
  match s with
  | [] => []
  | c :: t =>
    match block (c :: t) with
    | some (tree, r) => tree :: blocks r.1
    | none => blocks t
termination_by s.length
decreasing_by
  · exact r.2
  · exact Nat.lt_succ_self _

/-- The matches of a document, up to the end of the input. -/
def bib (s : Text) : List Tree := blocks s ++ [.node .endOfInput [] [] []]

end Bibliography.Grammar
